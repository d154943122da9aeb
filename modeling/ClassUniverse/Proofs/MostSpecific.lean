import ClassUniverse.Proofs.Widening
import Mathlib.Data.Set.Finite.List
import Mathlib.Data.Fintype.EquivFin
import Mathlib.Order.WellFounded

/-! Which of several procedures is the most specific. Being strictly more specific leads upward only, through the
containers or the formal types, so among several candidates some are outdone by none. -/
namespace ClassUniverse

open Run

variable {w : World} {a b : Ty} {p q : Procedure} {view : α → Procedure} {candidates : List α} {arena : Arena}

theorem Primitive.widensTo_trans {p q r : Primitive} (first : q ∈ p.widensTo) (second : r ∈ q.widensTo) : r ∈ p.widensTo := by
  cases p <;> cases q <;> simp_all [widensTo]

theorem Primitive.widensTo_asymm {p q : Primitive} (wider : q ∈ p.widensTo) : p ∉ q.widensTo := by
  cases p <;> cases q <;> simp_all [widensTo]

namespace Arena

/-- Supertypes and enclosing classes together lead nowhere back. -/
def Untangled (arena : Arena) : Prop := ∀ id, ¬ Relation.TransGen (fun child above => above ∈ arena.near child) id id

theorem near_of_isEnclosed {inner : ClassId} (enclosed : arena.isEnclosed inner outer = true) :
    Relation.TransGen (fun child above => above ∈ arena.near child) inner outer := by
  have around {id : ClassId} {outers : List ClassId} (around : arena.Around id outers) (listed : outer ∈ outers) :
      Relation.TransGen (fun child above => above ∈ arena.near child) id outer := by
    induction around with
    | done => cases listed
    | @next id next rest encloses _ ih =>
      have direct : next ∈ arena.near id := List.mem_append_right _ (by simp [encloses])
      rcases List.mem_cons.mp listed with rfl | further
      · exact .single direct
      · exact .head direct (ih further)
  exact around (arena.outersWithin_around inner.index inner) (List.contains_iff_mem.mp enclosed)

end Arena

namespace World

/-- The container of a more specific procedure is a subtype of the other one, or lies inside it. -/
def Related (w : World) (a b : Ty) : Prop :=
  w.Under a b ∨ ∃ inner outer, a = .cls inner ∧ b = .cls outer ∧ w.arena.isEnclosed inner outer = true

/-- The arguments of `p` could be passed on to `q`, which is declared above it or around it. -/
def Specific (w : World) (p q : Procedure) : Prop :=
  w.Related p.container q.container ∧ List.Forall₂ w.Converts p.formals q.formals

def Outdoes (w : World) (p q : Procedure) : Prop := w.Specific p q ∧ ¬ w.Specific q p

/-- None of the candidates is strictly more specific. -/
def Unbeaten (w : World) (view : α → Procedure) (candidates : List α) (p : α) : Prop :=
  ∀ q ∈ candidates, ¬ w.Outdoes (view q) (view p)

theorem not_outdoes_self (w : World) (p : Procedure) : ¬ w.Outdoes p p := fun both => both.2 both.1

/-- An order of types in which conversions, supertypes and enclosing classes all lead upward. -/
inductive Higher (w : World) : Ty → Ty → Prop where
  | refl (a : Ty) : Higher w a a
  | primitive {p q : Primitive} (wider : q ∈ p.widensTo) : Higher w (.primitive p) (.primitive q)
  | null (b : Ty) : Higher w .null b
  | array {a b : Ty} (inner : Higher w a b) : Higher w (.array a) (.array b)
  | arrayClass (a : Ty) (id : ClassId) : Higher w (.array a) (.cls id)
  | toRoot {id above : ClassId} (top : w.isRoot above = true) : Higher w (.cls id) (.cls above)
  | chain {id above : ClassId} (leads : Relation.TransGen (fun child above => above ∈ w.arena.near child) id above) :
      Higher w (.cls id) (.cls above)

theorem Under.higher (below : w.Under a b) : w.Higher a b := by
  induction below with
  | refl => exact .refl _
  | nullArray => exact .null _
  | nullClass => exact .null _
  | array _ _ _ ih => exact .array ih
  | arrayClass => exact .arrayClass _ _
  | toRoot top => exact .toRoot top
  | climbs chain => exact .chain (Relation.TransGen.mono (fun _ _ direct => List.mem_append_left _ direct) _ _ chain.inherits)

theorem Converts.higher {w : World} (converts : w.Converts a b) : w.Higher a b := by
  induction converts with
  | primitive wider =>
    rcases wider with rfl | wider
    · exact .refl _
    · exact .primitive wider
  | null => exact .null _
  | elements => exact .refl _
  | array _ _ _ ih => exact .array ih
  | arrayClass below => exact below.higher
  | cls below => exact below.higher

theorem Related.higher (related : w.Related a b) : w.Higher a b := by
  rcases related with below | ⟨inner, outer, rfl, rfl, enclosed⟩
  · exact below.higher
  · exact .chain (Arena.near_of_isEnclosed enclosed)

/-- A hierarchy in which nothing leads upward from the root class, and nothing leads back. -/
structure Layered (w : World) (root : ClassId) : Prop extends w.Rooted root where
  topLevel : w.arena.outer? root = none
  untangled : w.arena.Untangled

theorem Arranged.untangled (arranged : w.Arranged) : w.arena.Untangled := by
  have step {id above : ClassId} (direct : above ∈ w.arena.near id) : above.index < id.index := by
    have inside : id.index < w.arena.size := by
      refine Nat.lt_of_not_le fun outside => ?_
      simp [w.arena.near_absent outside] at direct
    obtain ⟨-, earlier, outers, -⟩ := arranged id (Arena.mem_ids_iff.mpr inside)
    rcases List.mem_append.mp direct with parent | outer
    · obtain ⟨type, listed, named⟩ := List.mem_filterMap.mp parent
      simpa [named] using earlier type listed
    · exact outers above (Option.mem_toList.mp outer)
  intro id cycle
  have falls {id above : ClassId} (leads : Relation.TransGen (fun child above => above ∈ w.arena.near child) id above) :
      above.index < id.index := by
    induction leads with
    | single direct => exact step direct
    | tail _ direct ih => exact Nat.lt_trans (step direct) ih
  exact Nat.lt_irrefl _ (falls cycle)

namespace Layered

variable {w : World} {root id : ClassId} (layered : w.Layered root)
include layered

theorem near_root (top : w.isRoot id = true) : w.arena.near id = [] := by
  by_cases inside : id.index < w.arena.size
  · cases (layered.isRoot id inside).mp top
    simp [Arena.near, Arena.parents, layered.alone, layered.topLevel]
  · exact w.arena.near_absent (Nat.le_of_not_lt inside)

theorem none_above_root (top : w.isRoot id = true) :
    ¬ Relation.TransGen (fun child above => above ∈ w.arena.near child) id above := by
  intro leads
  obtain ⟨next, direct, -⟩ := Relation.TransGen.head'_iff.mp leads
  simp [layered.near_root top] at direct

theorem higher_trans (first : w.Higher a b) (second : w.Higher b c) : w.Higher a c := by
  induction first generalizing c with
  | refl => exact second
  | primitive wider =>
    cases second with
    | refl => exact .primitive wider
    | primitive further =>
      exact .primitive (Primitive.widensTo_trans wider further)
  | null => exact .null c
  | array inner ih =>
    cases second with
    | refl => exact .array inner
    | array outer => exact .array (ih outer)
    | arrayClass => exact .arrayClass _ _
  | arrayClass =>
    cases second with
    | refl => exact .arrayClass _ _
    | toRoot => exact .arrayClass _ _
    | chain => exact .arrayClass _ _
  | toRoot top =>
    cases second with
    | refl => exact .toRoot top
    | toRoot again => exact .toRoot again
    | chain leads => exact (layered.none_above_root top leads).elim
  | chain leads =>
    cases second with
    | refl => exact .chain leads
    | toRoot top => exact .toRoot top
    | chain further => exact .chain (Relation.TransGen.trans leads further)

theorem higher_antisymm (known : a.KnownIn w.arena) (known' : b.KnownIn w.arena) (first : w.Higher a b)
    (second : w.Higher b a) : a = b := by
  induction first with
  | refl => rfl
  | primitive wider =>
    cases second with
    | refl => rfl
    | primitive back => exact absurd back (Primitive.widensTo_asymm wider)
  | null =>
    cases second with
    | refl => rfl
    | null => rfl
  | array _ ih =>
    cases second with
    | refl => rfl
    | array back => rw [ih known known' back]
  | arrayClass => cases second
  | @toRoot id above top =>
    cases second with
    | refl => rfl
    | toRoot again => rw [(layered.isRoot id known).mp again, (layered.isRoot above known').mp top]
    | chain leads => exact (layered.none_above_root top leads).elim
  | chain leads =>
    cases second with
    | refl => rfl
    | toRoot top => exact (layered.none_above_root top leads).elim
    | chain back => exact (layered.untangled _ (Relation.TransGen.trans leads back)).elim

end Layered

/-- Container and formal types lie below those of the other. -/
def Lower (w : World) (p q : Procedure) : Prop :=
  w.Higher p.container q.container ∧ List.Forall₂ w.Higher p.formals q.formals

/-- A procedure over canonical types of the arena. -/
def Knows (w : World) (p : Procedure) : Prop := p.container.KnownIn w.arena ∧ ∀ formal ∈ p.formals, formal.KnownIn w.arena

theorem Specific.lower (specific : w.Specific p q) : w.Lower p q :=
  ⟨specific.1.higher, specific.2.imp fun _ _ => Converts.higher⟩

namespace Layered

variable {w : World} {root : ClassId} (layered : w.Layered root)
include layered

theorem lower_trans (first : w.Lower p q) (second : w.Lower q r) : w.Lower p r := by
  have each {as bs cs : List Ty} (first : List.Forall₂ w.Higher as bs) (second : List.Forall₂ w.Higher bs cs) :
      List.Forall₂ w.Higher as cs := by
    induction first generalizing cs with
    | nil => exact second
    | cons step _ ih =>
      cases second with
      | cons step' rest => exact .cons (layered.higher_trans step step') (ih rest)
  exact ⟨layered.higher_trans first.1 second.1, each first.2 second.2⟩

theorem lower_antisymm (known : w.Knows p) (known' : w.Knows q) (first : w.Lower p q) (second : w.Lower q p) :
    p.container = q.container ∧ p.formals = q.formals := by
  have each {as bs : List Ty} (known : ∀ a ∈ as, a.KnownIn w.arena) (known' : ∀ b ∈ bs, b.KnownIn w.arena)
      (first : List.Forall₂ w.Higher as bs) (second : List.Forall₂ w.Higher bs as) : as = bs := by
    induction first with
    | nil => rfl
    | cons step _ ih =>
      obtain ⟨here, later⟩ := List.forall_mem_cons.mp known
      obtain ⟨here', later'⟩ := List.forall_mem_cons.mp known'
      cases second with
      | cons back rest => rw [layered.higher_antisymm here here' step back, ih later later' rest]
  exact ⟨layered.higher_antisymm known.1 known'.1 first.1 second.1, each known.2 known'.2 first.2 second.2⟩

theorem not_lower_of_outdoes (known : w.Knows p) (known' : w.Knows q) (outdoes : w.Outdoes p q) : ¬ w.Lower q p := by
  intro back
  obtain ⟨container, formals⟩ := layered.lower_antisymm known known' outdoes.1.lower back
  -- Equal containers and formal types make both procedures equally specific.
  obtain ⟨specific, other⟩ := outdoes
  unfold Specific at specific other
  rw [container, formals] at specific other
  exact other specific

/-- Among finitely many candidates one is outdone by none. -/
theorem exists_unbeaten (known : ∀ p ∈ candidates, w.Knows (view p))
    (some_ : candidates ≠ []) : ∃ p ∈ candidates, w.Unbeaten view candidates p := by
  let beats (p q : { p // p ∈ candidates }) : Prop := w.Lower (view p) (view q) ∧ ¬ w.Lower (view q) (view p)
  have finite : Finite { p // p ∈ candidates } := (List.finite_toSet candidates).to_subtype
  have trans : IsTrans { p // p ∈ candidates } beats := by
    refine ⟨fun p q r first second => ⟨layered.lower_trans first.1 second.1, fun back => ?_⟩⟩
    exact second.2 (layered.lower_trans back first.1)
  have irrefl : Std.Irrefl beats := ⟨fun _ both => both.2 both.1⟩
  obtain ⟨first, listed⟩ := List.exists_mem_of_ne_nil candidates some_
  obtain ⟨⟨p, member⟩, -, least⟩ :=
    (Finite.wellFounded_of_trans_of_irrefl beats).has_min Set.univ ⟨⟨first, listed⟩, trivial⟩
  refine ⟨p, member, fun q listed outdoes => least ⟨q, listed⟩ trivial ⟨outdoes.1.lower, ?_⟩⟩
  exact layered.not_lower_of_outdoes (known q listed) (known p member) outdoes

end Layered

end World

namespace Loader

variable {w : World} {depth : Nat}

section Decisions

variable (grounded : w.Grounded) (ample : w.arena.size ≤ depth)
include grounded ample

theorem containerRelated_decides (known : a.KnownIn w.arena) (canonical : b.isCanonical = true) :
    ((ofDepth (depth + 1)).containerRelated a b).Decides w (w.Related a b) := by
  refine (isSubtype_under grounded ample known canonical).branch (fun below => ?_) (fun apart => ?_)
  · exact decides_pure (iff_of_true rfl (.inl below))
  · split
    · refine decides_step (a := w.arena) rfl (decides_pure ?_)
      simp [World.Related, apart]
    · rename_i classes
      refine decides_pure (iff_of_false Bool.false_ne_true ?_)
      rintro (below | ⟨inner, outer, rfl, rfl, -⟩)
      · exact apart below
      · exact classes inner outer rfl rfl

theorem moreSpecific_decides (known : w.Knows p) (known' : w.Knows q) :
    ((ofDepth (depth + 1)).moreSpecific p q).Decides w (w.Specific p q) := by
  refine (containerRelated_decides grounded ample known.1 known'.1.canonical).branch (fun related => ?_) (fun apart => ?_)
  · refine (callValid_decides grounded ample known.2 fun formal listed => (known'.2 formal listed).canonical).congr ?_
    exact (and_iff_right related).symm
  · exact decides_pure (iff_of_false Bool.false_ne_true fun specific => apart specific.1)

theorem strictlyMoreSpecific_decides (known : w.Knows p) (known' : w.Knows q) :
    ((ofDepth (depth + 1)).strictlyMoreSpecific p q).Decides w (w.Outdoes p q) := by
  refine (moreSpecific_decides grounded ample known known').branch (fun specific => ?_) (fun other => ?_)
  · obtain ⟨answer, ran, right⟩ := moreSpecific_decides grounded ample known' known
    refine decides_step ran (decides_pure ?_)
    rw [Bool.not_eq_true', ← Bool.not_eq_true, right]
    exact (and_iff_right specific).symm
  · exact decides_pure (iff_of_false Bool.false_ne_true fun outdoes => other outdoes.1)

open Classical in
theorem on_maximal (known : ∀ p ∈ candidates, w.Knows (view p)) :
    ((ofDepth (depth + 1)).maximal view candidates).on w =
      some (.ok (candidates.filter fun p => decide (w.Unbeaten view candidates p)), w) := by
  have outdone (pair : α × Nat) (listed : pair ∈ candidates.zipIdx) :
      (do return !(← anyOf (fun other =>
          if pair.2 = other.2 then return false else (ofDepth (depth + 1)).strictlyMoreSpecific (view other.1) (view pair.1))
            candidates.zipIdx) : Run Bool).Decides w (w.Unbeaten view candidates pair.1) := by
    obtain ⟨p, i⟩ := pair
    have each (other : α × Nat) (member : other ∈ candidates.zipIdx) :
        (if i = other.2 then return false else (ofDepth (depth + 1)).strictlyMoreSpecific (view other.1) (view p) : Run Bool).Decides w (w.Outdoes (view other.1) (view p)) := by
      obtain ⟨q, j⟩ := other
      have here := List.mem_zipIdx_iff_getElem?.mp listed
      have there := List.mem_zipIdx_iff_getElem?.mp member
      by_cases same : i = j
      · subst same
        cases here.symm.trans there
        rw [if_pos rfl]
        exact decides_pure (iff_of_false Bool.false_ne_true (w.not_outdoes_self _))
      · rw [if_neg same]
        exact strictlyMoreSpecific_decides grounded ample (known q (List.mem_of_getElem? there))
          (known p (List.mem_of_getElem? here))
    obtain ⟨answer, ran, right⟩ := decides_anyOf candidates.zipIdx each
    refine decides_step ran (decides_pure ?_)
    rw [Bool.not_eq_true', ← Bool.not_eq_true, right]
    constructor
    · intro unbeaten q member outdoes
      obtain ⟨j, there⟩ := List.mem_iff_getElem?.mp member
      exact unbeaten ⟨(q, j), List.mem_zipIdx_iff_getElem?.mpr there, outdoes⟩
    · rintro unbeaten ⟨⟨q, j⟩, member, outdoes⟩
      exact unbeaten q (List.mem_of_getElem? (List.mem_zipIdx_iff_getElem?.mp member)) outdoes
  have firsts (P : α → Prop) : (candidates.zipIdx.filter fun pair => decide (P pair.1)).map (·.1) =
      candidates.filter fun p => decide (P p) := by
    conv_rhs => rw [← List.zipIdx_map_fst 0 candidates, List.filter_map]
    rfl
  unfold maximal
  rw [on_bind_ok (on_keep candidates.zipIdx outdone)]
  exact congrArg (fun kept => some (Except.ok kept, w)) (firsts (w.Unbeaten view candidates))

end Decisions

section Preference

variable {view : α → Procedure} {candidates others maximal : List α}

/-- Either one candidate is preferred, or all are kept and there is not just one. -/
theorem preferred_cases (view : α → Procedure) (candidates : List α) :
    (∃ p ∈ candidates, preferred view candidates = [p]) ∨ (preferred view candidates = candidates ∧ candidates.length ≠ 1) := by
  rcases concrete : candidates.filter fun p => !(view p).flags.isAbstract with _ | ⟨only, _ | ⟨second, more⟩⟩
  · cases candidates with
    | nil => exact .inr ⟨rfl, nofun⟩
    | cons first rest =>
      simp only [preferred, concrete]
      split
      · exact .inl ⟨first, List.mem_cons_self, rfl⟩
      · rename_i differs
        refine .inr ⟨rfl, fun single => differs ?_⟩
        obtain rfl : rest = [] := by simpa using single
        rfl
  · have member : only ∈ candidates.filter fun p => !(view p).flags.isAbstract := by simp [concrete]
    exact .inl ⟨only, (List.mem_filter.mp member).1, by simp only [preferred, concrete]⟩
  · refine .inr ⟨by simp only [preferred, concrete], fun single => ?_⟩
    have bound := List.length_filter_le (fun p => !(view p).flags.isAbstract) candidates
    rw [concrete, single] at bound
    simp at bound

/-- All candidates have the same formal types. -/
def Alike (view : α → Procedure) (candidates : List α) : Prop :=
  ∀ p ∈ candidates, ∀ q ∈ candidates, (view p).formals = (view q).formals

open Classical in
theorem preferred_abstract (abstract : ((first :: rest).filter fun p => !(view p).flags.isAbstract) = []) :
    preferred view (first :: rest) = if Alike view (first :: rest) then [first] else first :: rest := by
  have alike : (rest.all fun p => (view p).formals == (view first).formals) = true ↔ Alike view (first :: rest) := by
    rw [List.all_eq_true]
    constructor
    · intro same
      have toFirst : ∀ p ∈ first :: rest, (view p).formals = (view first).formals :=
        List.forall_mem_cons.mpr ⟨rfl, fun p listed => by simpa using same p listed⟩
      exact fun p listed q listed' => (toFirst p listed).trans (toFirst q listed').symm
    · intro same p listed
      simpa using same p (List.mem_cons_of_mem first listed) first List.mem_cons_self
  simp only [preferred, abstract, alike]

theorem preferred_many (many : 2 ≤ (candidates.filter fun p => !(view p).flags.isAbstract).length) :
    preferred view candidates = candidates := by
  unfold preferred
  split
  · rename_i only _ concrete
    simp [concrete] at many
  · rename_i none
    simp [none] at many
  · rfl

/-- In another order the same candidate is preferred, or none, or all are abstract with the same formal types. -/
theorem preferred_perm (perm : candidates.Perm others) :
    (∃ p, preferred view candidates = [p] ∧ preferred view others = [p]) ∨
      (preferred view candidates = candidates ∧ preferred view others = others) ∨
      ∃ p ∈ candidates, ∃ q ∈ candidates, preferred view candidates = [p] ∧ preferred view others = [q] ∧
        (∀ r ∈ candidates, (view r).flags.isAbstract = true) ∧ Alike view candidates := by
  have filtered := perm.filter fun p => !(view p).flags.isAbstract
  rcases concrete : candidates.filter fun p => !(view p).flags.isAbstract with _ | ⟨only, _ | ⟨second, more⟩⟩
  · rw [concrete] at filtered
    have concrete' := List.nil_perm.mp filtered
    cases candidates with
    | nil =>
      cases List.nil_perm.mp perm
      exact .inr (.inl ⟨rfl, rfl⟩)
    | cons first rest =>
      cases others with
      | nil => cases List.perm_nil.mp perm
      | cons first' rest' =>
        have alike : Alike view (first' :: rest') ↔ Alike view (first :: rest) := by
          simp only [Alike, perm.mem_iff]
        rw [preferred_abstract concrete, preferred_abstract concrete']
        by_cases same : Alike view (first :: rest)
        · rw [if_pos same, if_pos (alike.mpr same)]
          refine .inr (.inr ⟨first, List.mem_cons_self, first', ?_, rfl, rfl, fun r listed => ?_, same⟩)
          · exact perm.mem_iff.mpr List.mem_cons_self
          · simpa using List.filter_eq_nil_iff.mp concrete r listed
        · rw [if_neg same, if_neg fun other => same (alike.mp other)]
          exact .inr (.inl ⟨rfl, rfl⟩)
  · rw [concrete] at filtered
    have concrete' := List.singleton_perm.mp filtered
    exact .inl ⟨only, by simp only [preferred, concrete], by simp only [preferred, ← concrete']⟩
  · have many : 2 ≤ (candidates.filter fun p => !(view p).flags.isAbstract).length := by simp [concrete]
    exact .inr (.inl ⟨preferred_many many, preferred_many (filtered.length_eq ▸ many)⟩)

/-- The outcome of a selection, given the maximal candidates. -/
theorem on_select (kind : MemberKind) (name : String) {l : Loader}
    (found : (l.maximal view candidates).on w = some (.ok maximal, w)) :
    (∀ p, preferred view maximal = [p] → (l.select kind view name candidates).on w = some (.ok p, w)) ∧
      (preferred view maximal = [] →
        (l.select kind view name candidates).on w = some (.error (.semantic (.noneNamed kind name) none), w)) ∧
      (2 ≤ (preferred view maximal).length → (l.select kind view name candidates).on w = some (.error (.ambiguousCall kind name
        ((preferred view maximal).map fun p =>
          qualify (w.arena.typeName (view p).container) (w.arena.signature (view p)))), w)) := by
  unfold select
  rw [on_bind_ok found]
  rcases chosen : preferred view maximal with _ | ⟨only, _ | ⟨second, more⟩⟩
  · exact ⟨nofun, fun _ => rfl, nofun⟩
  · refine ⟨fun p same => ?_, nofun, fun many => ?_⟩
    · cases same
      rfl
    · simp at many
  · exact ⟨nofun, nofun, fun _ => rfl⟩

/-- A selection gives one of the maximal candidates, or names all of them, or there are none. -/
theorem select_cases (kind : MemberKind) (name : String) {l : Loader}
    (found : (l.maximal view candidates).on w = some (.ok maximal, w)) :
    (∃ p ∈ maximal, preferred view maximal = [p] ∧ (l.select kind view name candidates).on w = some (.ok p, w)) ∨
      (maximal = [] ∧
        (l.select kind view name candidates).on w = some (.error (.semantic (.noneNamed kind name) none), w)) ∨
      (2 ≤ maximal.length ∧ (l.select kind view name candidates).on w = some (.error (.ambiguousCall kind name
        (maximal.map fun p => qualify (w.arena.typeName (view p).container) (w.arena.signature (view p)))), w)) := by
  obtain ⟨one, none, many⟩ := on_select kind name found
  rcases preferred_cases view maximal with ⟨p, member, chosen⟩ | ⟨all, several⟩
  · exact .inl ⟨p, member, chosen, one p chosen⟩
  · rw [all] at many none
    by_cases empty : maximal = []
    · exact .inr (.inl ⟨empty, none empty⟩)
    · have positive := List.length_pos_iff.mpr empty
      have enough : 2 ≤ maximal.length := by omega
      exact .inr (.inr ⟨enough, many enough⟩)

open Classical in
/-- A candidate that outdoes all others is the only one that none outdoes. -/
theorem unbeaten_best {p : α} (best : ∀ q ∈ before ++ behind, w.Outdoes (view p) (view q)) :
    ((before ++ p :: behind).filter fun q => decide (w.Unbeaten view (before ++ p :: behind) q)) = [p] := by
  have listed : p ∈ before ++ p :: behind := List.mem_append_right _ List.mem_cons_self
  have beaten (q : α) (other : q ∈ before ++ behind) : ¬ w.Unbeaten view (before ++ p :: behind) q :=
    fun unbeaten => unbeaten p listed (best q other)
  have unbeaten : w.Unbeaten view (before ++ p :: behind) p := by
    intro q member outdoes
    rcases List.mem_append.mp member with earlier | here
    · exact (best q (List.mem_append_left _ earlier)).2 outdoes.1
    · rcases List.mem_cons.mp here with rfl | later
      · exact w.not_outdoes_self _ outdoes
      · exact (best q (List.mem_append_right _ later)).2 outdoes.1
  have none {part : List α} (others : ∀ q ∈ part, q ∈ before ++ behind) :
      (part.filter fun q => decide (w.Unbeaten view (before ++ p :: behind) q)) = [] := by
    refine List.filter_eq_nil_iff.mpr fun q member => ?_
    simpa using beaten q (others q member)
  rw [List.filter_append, List.filter_cons_of_pos (by simpa using unbeaten), none fun q => List.mem_append_left _,
    none fun q => List.mem_append_right _]
  rfl

/-- In a layered hierarchy a selection gives a candidate that none outdoes, or finds several of them. -/
theorem select_unbeaten {root : ClassId} (grounded : w.Grounded) (layered : w.Layered root) (ample : w.arena.size ≤ depth)
    (known : ∀ p ∈ candidates, w.Knows (view p)) (some_ : candidates ≠ []) (kind : MemberKind) (name : String) :
    ∃ outcome, ((ofDepth (depth + 1)).select kind view name candidates).on w = some (outcome, w) ∧
      ((∃ p ∈ candidates, w.Unbeaten view candidates p ∧ outcome = .ok p) ∨
        ∃ several : List α, several.Sublist candidates ∧ 2 ≤ several.length ∧
          (∀ p ∈ several, w.Unbeaten view candidates p) ∧ outcome = .error (.ambiguousCall kind name
            (several.map fun p => qualify (w.arena.typeName (view p).container) (w.arena.signature (view p))))) ∧
      ∀ before p behind, candidates = before ++ p :: behind → (∀ q ∈ before ++ behind, w.Outdoes (view p) (view q)) →
        outcome = .ok p := by
  classical
  obtain ⟨p, listed, unbeaten⟩ := layered.exists_unbeaten known some_
  have member : p ∈ candidates.filter fun p => decide (w.Unbeaten view candidates p) :=
    List.mem_filter.mpr ⟨listed, decide_eq_true unbeaten⟩
  rcases select_cases kind name (on_maximal grounded ample known) with ⟨p, member, -, ran⟩ | ⟨none, -⟩ | ⟨enough, ran⟩
  · obtain ⟨listed, unbeaten⟩ := List.mem_filter.mp member
    refine ⟨.ok p, ran, .inl ⟨p, listed, of_decide_eq_true unbeaten, rfl⟩, ?_⟩
    rintro before best behind rfl outdoes
    rw [unbeaten_best outdoes] at member
    rw [List.mem_singleton.mp member]
  · rw [none] at member
    cases member
  · refine ⟨_, ran, .inr ⟨_, List.filter_sublist, enough, fun q kept => ?_, rfl⟩, ?_⟩
    · exact of_decide_eq_true (List.mem_filter.mp kept).2
    · rintro before best behind rfl outdoes
      simp [unbeaten_best outdoes] at enough

theorem select_listed (grounded : w.Grounded) (ample : w.arena.size ≤ depth) (known : ∀ p ∈ candidates, w.Knows (view p))
    (kind : MemberKind) (name : String) : ∃ outcome,
      ((ofDepth (depth + 1)).select kind view name candidates).on w = some (outcome, w) ∧
        ∀ p, outcome = .ok p → p ∈ candidates := by
  rcases select_cases kind name (on_maximal grounded ample known) with ⟨p, member, -, ran⟩ | ⟨-, ran⟩ | ⟨-, ran⟩
  · refine ⟨_, ran, fun q same => ?_⟩
    cases same
    exact (List.mem_filter.mp member).1
  · exact ⟨_, ran, nofun⟩
  · exact ⟨_, ran, nofun⟩

end Preference

end Loader

end ClassUniverse
