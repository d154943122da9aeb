import ClassUniverse.Proofs.Arena

/-! What a class is called and how it is nested never changes, so full names stay what they are. -/
namespace ClassUniverse

/-- The part of a record that is fixed when the class is added. -/
def ClassRecord.header (r : ClassRecord) :
    String × Option Package × ClassKind × Flags × Option JobId × Option String :=
  (r.name, r.package, r.kind, r.flags, r.job, r.fileName)

theorem ClassRecord.header_markStages (r : ClassRecord) (stages : List Stage) :
    (r.markStages stages).header = r.header := by
  induction stages generalizing r with
  | nil => rfl
  | cons first rest ih => exact ih (r.markStage first)

theorem ClassRecord.supertypes_markStages (r : ClassRecord) (stages : List Stage) :
    (r.markStages stages).supertypes = r.supertypes := by
  induction stages generalizing r with
  | nil => rfl
  | cons first rest ih => exact ih (r.markStage first)

/-- What is left to be completed may be given up, but does not become anything else. -/
theorem ClassRecord.left_markStage {r : ClassRecord} {completion : Completion}
    (left : (r.markStage stage).completion = some completion) : r.completion = some completion := by
  unfold markStage at left
  dsimp only at left
  split at left
  · cases left
  · exact left

theorem ClassRecord.left_markStages {r : ClassRecord} {stages : List Stage} {completion : Completion}
    (left : (r.markStages stages).completion = some completion) : r.completion = some completion := by
  induction stages generalizing r with
  | nil => exact left
  | cons first rest ih => exact left_markStage (ih left)

namespace Arena

variable {arena : Arena} {id : ClassId}

/-- Every nested class comes after the class around it. -/
def Nested (arena : Arena) : Prop :=
  ∀ id : ClassId, id.index < arena.size → ∀ outer, arena.outer? id = some outer → outer.index < id.index

instance (arena : Arena) : Decidable arena.Nested :=
  decidable_of_iff (∀ id ∈ arena.ids, ∀ outer ∈ arena.outer? id, outer.index < id.index) <| by
    constructor
    · intro held id inside outer encloses
      exact held id (List.mem_map.mpr ⟨id.index, List.mem_range.mpr inside, rfl⟩) outer encloses
    · intro nested id listed outer encloses
      obtain ⟨index, inside, rfl⟩ := List.mem_map.mp listed
      exact nested ⟨index⟩ (List.mem_range.mp inside) outer encloses

theorem outer?_of_kind (same : (arena.get id).kind = kind) (encloses : kind.outer? = some outer) :
    arena.outer? id = some outer := by rw [outer?, same, encloses]

theorem Nested.outer_lt (nested : arena.Nested) (encloses : arena.outer? id = some outer) : outer.index < id.index := by
  by_cases inside : id.index < arena.size
  · exact nested id inside outer encloses
  · simp [outer?, arena.get_absent (Nat.le_of_not_lt inside), ClassKind.outer?] at encloses

/-- What is asked of the classes around a class, step by step, does not change once the steps suffice for the class. -/
theorem Nested.enough {f : Nat → ClassId → α} (nested : arena.Nested)
    (alone : ∀ id, arena.outer? id = none → f 1 id = f 0 id)
    (around : ∀ steps id, (∀ outer, arena.outer? id = some outer → f (steps + 1) outer = f steps outer) →
      f (steps + 2) id = f (steps + 1) id) (enough : id.index ≤ steps) : f steps id = f id.index id := by
  have further (steps : Nat) (id : ClassId) (enough : id.index ≤ steps) : f (steps + 1) id = f steps id := by
    induction steps generalizing id with
    | zero =>
      refine alone id (Option.eq_none_iff_forall_ne_some.mpr fun outer encloses => ?_)
      have before := nested.outer_lt encloses
      omega
    | succ steps ih =>
      refine around steps id fun outer encloses => ih outer ?_
      have before := nested.outer_lt encloses
      omega
  induction enough with
  | refl => rfl
  | step enough ih => rw [further _ id enough, ih]

/-- Some of the classes around a class, from the inside outward. -/
inductive Around (arena : Arena) : ClassId → List ClassId → Prop where
  | done (id : ClassId) : arena.Around id []
  | next {id outer : ClassId} {rest : List ClassId} (encloses : arena.outer? id = some outer)
      (further : arena.Around outer rest) : arena.Around id (outer :: rest)

theorem outersWithin_around (arena : Arena) (steps : Nat) (id : ClassId) :
    arena.Around id (arena.outersWithin steps id) := by
  induction steps generalizing id with
  | zero => exact .done id
  | succ steps ih =>
    unfold outersWithin
    split
    · rename_i outer encloses
      exact .next encloses (ih outer)
    · exact .done id

theorem Around.inside {outers : List ClassId} (around : arena.Around id outers)
    (nested : arena.Nested) (inside : id.index < arena.size) : ∀ outer ∈ outers, outer.index < arena.size := by
  induction around with
  | done => simp
  | @next id outer rest encloses _ ih =>
    have here := Nat.lt_trans (nested id inside outer encloses) inside
    simpa using ⟨here, ih here⟩

/-- Classes are added at the end, and those that exist keep their headers. -/
structure Keeps (arena after : Arena) : Prop where
  size : arena.size ≤ after.size
  headers : ∀ id : ClassId, id.index < arena.size → (after.get id).header = (arena.get id).header

namespace Keeps

theorem refl (arena : Arena) : arena.Keeps arena := ⟨Nat.le_refl _, fun _ _ => rfl⟩

theorem trans (first : arena.Keeps middle) (second : middle.Keeps after) : arena.Keeps after := by
  refine ⟨Nat.le_trans first.size second.size, fun id inside => ?_⟩
  rw [second.headers id (Nat.lt_of_lt_of_le inside first.size), first.headers id inside]

theorem inside (kept : arena.Keeps after) (inside : id.index < arena.size) : id.index < after.size :=
  Nat.lt_of_lt_of_le inside kept.size

section Known

variable (kept : arena.Keeps after) (inside : id.index < arena.size)
include kept inside

theorem parts : (after.get id).name = (arena.get id).name ∧ (after.get id).package = (arena.get id).package ∧
      (after.get id).kind = (arena.get id).kind ∧ (after.get id).flags = (arena.get id).flags ∧
      (after.get id).job = (arena.get id).job ∧ (after.get id).fileName = (arena.get id).fileName := by
  simpa [ClassRecord.header] using kept.headers id inside

theorem flags : (after.get id).flags = (arena.get id).flags := (kept.parts inside).2.2.2.1

theorem job : (after.get id).job = (arena.get id).job := (kept.parts inside).2.2.2.2.1

theorem fileName : (after.get id).fileName = (arena.get id).fileName := (kept.parts inside).2.2.2.2.2

theorem kind : (after.get id).kind = (arena.get id).kind := (kept.parts inside).2.2.1

end Known

theorem add (arena : Arena) (record : ClassRecord) : arena.Keeps (arena.add record).2 := by
  refine ⟨by simp, fun id inside => ?_⟩
  rw [get_add, if_neg (Nat.ne_of_lt inside)]

theorem modify (same : (change (arena.get id)).header = (arena.get id).header) :
    arena.Keeps (arena.modify id change) := by
  refine ⟨by simp, fun other _ => ?_⟩
  rw [get_modify]
  split
  · rename_i both
    rw [same, both.1]
  · rfl

end Keeps

/-- The name of a class directly in its package. -/
def topName (arena : Arena) (id : ClassId) : String :=
  match (arena.get id).package with
  | some package => qualify package.fullName (arena.get id).name
  | none => (arena.get id).name

theorem fullNameWithin_zero (arena : Arena) (id : ClassId) :
    arena.fullNameWithin 0 id = if (arena.get id).kind = .topLevel then arena.topName id else (arena.get id).name := by
  unfold fullNameWithin topName
  dsimp only
  cases (arena.get id).kind <;> rfl

theorem fullNameWithin_succ (arena : Arena) (steps : Nat) (id : ClassId) :
    arena.fullNameWithin (steps + 1) id =
      match (arena.get id).kind with
      | .topLevel => arena.topName id
      | .localTo _ => (arena.get id).name
      | .memberOf outer => qualify (arena.fullNameWithin steps outer) (arena.get id).name
      | .anonymousIn outer => "<anonymous subclass in " ++ arena.fullNameWithin steps outer ++ ">" := by
  conv => lhs; unfold fullNameWithin
  dsimp only
  cases (arena.get id).kind <;> rfl

/-- The full name depends on headers only. -/
theorem Keeps.fullNameWithin (kept : arena.Keeps after) (nested : arena.Nested) (steps : Nat)
    (inside : id.index < arena.size) : after.fullNameWithin steps id = arena.fullNameWithin steps id := by
  induction steps generalizing id with
  | zero =>
    obtain ⟨name, package, kind, _⟩ := kept.parts inside
    simp only [fullNameWithin_zero, topName, name, package, kind]
  | succ steps ih =>
    obtain ⟨name, package, kind, _⟩ := kept.parts inside
    have around (outer : ClassId) (encloses : arena.outer? id = some outer) :
        after.fullNameWithin steps outer = arena.fullNameWithin steps outer :=
      ih (Nat.lt_trans (nested id inside outer encloses) inside)
    simp only [fullNameWithin_succ, topName, name, package, kind]
    cases nesting : (arena.get id).kind with
    | topLevel => rfl
    | localTo outer => rfl
    | memberOf outer => simp only [around outer (outer?_of_kind nesting rfl)]
    | anonymousIn outer => simp only [around outer (outer?_of_kind nesting rfl)]

theorem Keeps.fullName (kept : arena.Keeps after) (nested : arena.Nested) (inside : id.index < arena.size) :
    after.fullName id = arena.fullName id := kept.fullNameWithin nested _ inside

theorem fullName_topLevel (top : (arena.get id).kind = .topLevel) : arena.fullName id = arena.topName id := by
  unfold fullName
  cases id.index with
  | zero => simp [fullNameWithin_zero, top]
  | succ n => simp [fullNameWithin_succ, top]

/-- The full name of a class from that of the class around it. -/
theorem Nested.fullName_eq (nested : arena.Nested) (id : ClassId) : arena.fullName id =
    match (arena.get id).kind with
    | .topLevel => arena.topName id
    | .localTo _ => (arena.get id).name
    | .memberOf outer => qualify (arena.fullName outer) (arena.get id).name
    | .anonymousIn outer => "<anonymous subclass in " ++ arena.fullName outer ++ ">" := by
  have enough {id : ClassId} {steps : Nat} (enough : id.index ≤ steps) :
      arena.fullNameWithin steps id = arena.fullName id := by
    refine nested.enough (fun id alone => ?_) (fun steps id around => ?_) enough
    · rw [fullNameWithin_zero, fullNameWithin_succ]
      cases kind : (arena.get id).kind <;> simp_all [outer?, ClassKind.outer?]
    · rw [fullNameWithin_succ, fullNameWithin_succ]
      cases kind : (arena.get id).kind <;> simp_all [outer?, ClassKind.outer?]
  rw [← enough (Nat.le_succ id.index), fullNameWithin_succ]
  cases kind : (arena.get id).kind with
  | topLevel => rfl
  | localTo outer => rfl
  | memberOf outer => simp only [enough (Nat.le_of_lt (nested.outer_lt (outer?_of_kind kind rfl)))]
  | anonymousIn outer => simp only [enough (Nat.le_of_lt (nested.outer_lt (outer?_of_kind kind rfl)))]

theorem fullName_memberOf (nested : arena.Nested) (member : (arena.get id).kind = .memberOf outer) :
    arena.fullName id = qualify (arena.fullName outer) (arena.get id).name := by
  rw [nested.fullName_eq id, member]

theorem Nested.add (nested : arena.Nested)
    (around : ∀ outer, record.kind.outer? = some outer → outer.index < arena.size) : (arena.add record).2.Nested := by
  intro id inside outer encloses
  rw [outer?, get_add] at encloses
  rw [size_add] at inside
  split at encloses
  · rename_i last
    rw [last]
    exact around outer encloses
  · exact nested id (by omega) outer encloses

theorem Nested.keeps (nested : arena.Nested) (kept : arena.Keeps after) (same : after.size = arena.size) :
    after.Nested := by
  intro id inside outer encloses
  rw [same] at inside
  rw [outer?, kept.kind inside] at encloses
  exact nested id inside outer encloses

theorem fullName_add_topLevel (arena : Arena) (top : record.kind = .topLevel) :
    (arena.add record).2.fullName ⟨arena.size⟩ =
      match record.package with
      | some package => qualify package.fullName record.name
      | none => record.name := by
  rw [fullName_topLevel (by rw [get_add_new, top]), topName, get_add_new]

theorem fullName_add_memberOf (nested : arena.Nested) (member : record.kind = .memberOf outer)
    (inside : outer.index < arena.size) :
    (arena.add record).2.fullName ⟨arena.size⟩ = qualify (arena.fullName outer) record.name := by
  have around (other : ClassId) (encloses : record.kind.outer? = some other) : other.index < arena.size := by
    rw [member] at encloses
    cases encloses
    exact inside
  rw [fullName_memberOf (nested.add around) (by rw [get_add_new, member]), get_add_new,
    (Keeps.add arena record).fullName nested inside]

end Arena

end ClassUniverse
