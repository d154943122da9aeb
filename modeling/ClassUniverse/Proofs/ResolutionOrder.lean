import ClassUniverse.Proofs.Cycles
import Mathlib.Data.List.Nodup

/-! Circular inheritance and the order in which supertypes become known. A class is checked once, when its own
supertypes are set, against what is known of the other classes by then. A cycle that comes back to the class through
one of its member classes alone is left to a later check, and there may be none. -/
namespace ClassUniverse

variable {goal id other last child : ClassId}

namespace Arena

variable (arena : Arena) {arena : Arena}

/-- A chain of superclasses, interfaces and enclosing classes leads from one class to another. -/
def Depends : ClassId → ClassId → Prop := Relation.ReflTransGen fun id other => other ∈ arena.near id

/-- Some cycle of superclasses, interfaces and enclosing classes has a superclass or an interface in it. -/
def Circular : Prop := ∃ child parent, parent ∈ arena.parents child ∧ arena.Depends parent child

theorem near_eq (id : ClassId) : arena.near id = arena.parents id ++ (arena.outer? id).toList := rfl

theorem nodup_ids : arena.ids.Nodup :=
  List.nodup_range.map fun _ _ same => ClassId.mk.inj same

/-- Where the search stops, the goal is a parent. -/
theorem Searches.depends (search : arena.Searches goal seen pending found) (stops : found = some id) :
    goal ∈ arena.parents id ∧ ∃ start ∈ pending, arena.Depends start id := by
  induction search with
  | done => cases stops
  | skip _ _ ih =>
    obtain ⟨parent, start, member, chain⟩ := ih stops
    exact ⟨parent, start, List.mem_cons_of_mem _ member, chain⟩
  | stop _ parent =>
    cases stops
    exact ⟨parent, id, List.mem_cons_self, .refl⟩
  | @visit _ _ next _ _ _ _ ih =>
    obtain ⟨parent, start, member, chain⟩ := ih stops
    rcases List.mem_append.mp member with around | waiting
    · exact ⟨parent, next, List.mem_cons_self, .head around chain⟩
    · exact ⟨parent, start, List.mem_cons_of_mem _ waiting, chain⟩

theorem Clear.depends (clear : arena.Clear goal within) (inside : within id)
    (chain : arena.Depends id other) : within other := by
  induction chain with
  | refl => exact inside
  | tail _ step ih => exact clear.closed _ ih _ step

/-- A class is refused exactly if something above or around it has the class for a parent. -/
theorem checkCycles_fails_iff :
    (∃ e, arena.checkCycles goal = .error e) ↔ ∃ id, goal ∈ arena.parents id ∧ arena.Depends goal id := by
  constructor
  · rintro ⟨e, failed⟩
    unfold checkCycles at failed
    split at failed
    · rename_i id found
      obtain ⟨parent, start, member, chain⟩ := (arena.searches_findCycle goal).depends found
      cases List.mem_singleton.mp member
      exact ⟨id, parent, chain⟩
    · cases failed
  · rintro ⟨id, parent, chain⟩
    cases checked : arena.checkCycles goal with
    | error e => exact ⟨e, rfl⟩
    | ok done =>
      obtain ⟨within, clear, start⟩ := arena.clear_of_checkCycles checked
      exact absurd parent (clear.apart id (clear.depends start chain))

end Arena

/-- The superclass and the interfaces that each class is to have. -/
def Heritage := ClassId → Option Ty × List Ty

namespace Heritage

variable (heritage : Heritage)

def parents (id : ClassId) : List ClassId :=
  ((heritage id).1.toList ++ (heritage id).2).filterMap Ty.class?

def install (arena : Arena) (id : ClassId) : Arena :=
  arena.modify id fun record => { record with superType := (heritage id).1, interfaces := (heritage id).2 }

/-- The supertypes of all the listed classes are known. -/
def installAll (order : List ClassId) (arena : Arena) : Arena := order.foldl heritage.install arena

/-- Sets the supertypes class by class, checks each class at once, and stops at the first one that is refused. -/
def resolve : (order : List ClassId) → Arena → Except Error Arena
  | [], arena => .ok arena
  | id :: rest, arena => do
    (heritage.install arena id).checkCycles id
    resolve rest (heritage.install arena id)

def Rejects (order : List ClassId) (arena : Arena) : Prop := ∃ e, heritage.resolve order arena = .error e

section Install

variable {heritage} {arena : Arena} {order : List ClassId}

@[simp] theorem size_install (id : ClassId) : (heritage.install arena id).size = arena.size := Arena.size_modify ..

@[simp] theorem outer?_install (id other : ClassId) :
    (heritage.install arena id).outer? other = arena.outer? other := by
  unfold Arena.outer? install
  rw [Arena.get_modify]
  split
  · rename_i here
    rw [here.1]
  · rfl

theorem parents_install (id other : ClassId) : (heritage.install arena id).parents other =
      if other = id ∧ id.index < arena.size then heritage.parents id else arena.parents other := by
  unfold Arena.parents install
  rw [Arena.get_modify]
  split <;> rfl

theorem installAll_cons (id : ClassId) (rest : List ClassId) :
    heritage.installAll (id :: rest) arena = heritage.installAll rest (heritage.install arena id) := rfl

@[simp] theorem size_installAll (order : List ClassId) : (heritage.installAll order arena).size = arena.size := by
  induction order generalizing arena with
  | nil => rfl
  | cons id rest ih => rw [installAll_cons, ih, size_install]

@[simp] theorem outer?_installAll (order : List ClassId) (id : ClassId) :
    (heritage.installAll order arena).outer? id = arena.outer? id := by
  induction order generalizing arena with
  | nil => rfl
  | cons next rest ih => rw [installAll_cons, ih, outer?_install]

theorem parents_installAll (order : List ClassId) (id : ClassId) : (heritage.installAll order arena).parents id =
      if id ∈ order ∧ id.index < arena.size then heritage.parents id else arena.parents id := by
  induction order generalizing arena with
  | nil => simp [installAll]
  | cons next rest ih =>
    rw [installAll_cons, ih, size_install, parents_install]
    by_cases later : id ∈ rest ∧ id.index < arena.size
    · simp [later]
    · by_cases same : id = next
      · subst same
        simp [later]
      · simp [same, later]

theorem rejects_nil : ¬ heritage.Rejects [] arena := by
  rintro ⟨e, failed⟩
  cases failed

theorem rejects_cons (id : ClassId) (rest : List ClassId) :
    heritage.Rejects (id :: rest) arena ↔ (∃ e, (heritage.install arena id).checkCycles id = .error e) ∨
      heritage.Rejects rest (heritage.install arena id) := by
  simp only [Rejects, resolve]
  cases (heritage.install arena id).checkCycles id with
  | error e => exact iff_of_true ⟨e, rfl⟩ (.inl ⟨e, rfl⟩)
  | ok done => exact ⟨.inr, fun either => either.resolve_left (by rintro ⟨e, failed⟩; cases failed)⟩

/-- The check that fails is that of some class, made when this class and those before it have their supertypes. -/
theorem rejects_iff_check : heritage.Rejects order arena ↔ ∃ before id after, order = before ++ id :: after ∧
      ∃ e, (heritage.installAll (before ++ [id]) arena).checkCycles id = .error e := by
  induction order generalizing arena with
  | nil => exact iff_of_false rejects_nil (by simp)
  | cons next rest ih =>
    rw [rejects_cons, ih]
    constructor
    · rintro (first | ⟨before, id, after, rfl, later⟩)
      · exact ⟨[], next, rest, rfl, first⟩
      · exact ⟨next :: before, id, after, rfl, later⟩
    · rintro ⟨before, id, after, split, failed⟩
      cases before with
      | nil =>
        obtain ⟨rfl, rfl⟩ := List.cons.inj split
        exact .inl failed
      | cons first before =>
        obtain ⟨rfl, rfl⟩ := List.cons.inj split
        exact .inr ⟨before, id, after, rfl, failed⟩

/-- An order that meets no refusal leaves no cycle of superclasses and interfaces. -/
theorem acyclic_of_not_rejects (acyclic : arena.Acyclic)
    (passed : ¬ heritage.Rejects order arena) : (heritage.installAll order arena).Acyclic := by
  induction order generalizing arena with
  | nil => exact acyclic
  | cons id rest ih =>
    obtain ⟨accepted, later⟩ := not_or.mp (mt (rejects_cons id rest).mpr passed)
    have checked : (heritage.install arena id).checkCycles id = .ok () := by
      cases verdict : (heritage.install arena id).checkCycles id with
      | ok done => rfl
      | error e => exact absurd ⟨e, verdict⟩ accepted
    refine ih (acyclic.of_checkCycles (fun other apart => ?_) checked) later
    rw [parents_install, if_neg fun both => apart both.1]

end Install

/-- The hierarchy with the supertypes of all classes in place. -/
def whole (arena : Arena) : Arena := heritage.installAll arena.ids arena

/-- The edges that are known when the supertypes of `last` have just been set: all those that lead to an
enclosing class, and those that lead to a supertype from a class that comes no later than `last`. -/
def Known (order : List ClassId) (arena : Arena) (last id other : ClassId) : Prop :=
  (other ∈ (heritage.whole arena).parents id ∧ order.idxOf id ≤ order.idxOf last) ∨ arena.outer? id = some other

/-- A cycle of edges that are known when `last` is checked, and that enters `last` as a supertype of `child`. -/
def Closes (order : List ClassId) (arena : Arena) (last child : ClassId) : Prop :=
  last ∈ (heritage.whole arena).parents child ∧ order.idxOf child ≤ order.idxOf last ∧
    Relation.ReflTransGen (heritage.Known order arena last) last child

section Order

variable {heritage} {arena : Arena} {order : List ClassId}

theorem parents_whole (id : ClassId) :
    (heritage.whole arena).parents id = if id.index < arena.size then heritage.parents id else arena.parents id := by
  rw [whole, parents_installAll]
  by_cases inside : id.index < arena.size
  · rw [if_pos ⟨arena.mem_ids inside, inside⟩, if_pos inside]
  · rw [if_neg fun both => inside both.2, if_neg inside]

theorem idxOf_le_iff (distinct : (before ++ last :: after).Nodup) (id : ClassId) :
    (before ++ last :: after).idxOf id ≤ (before ++ last :: after).idxOf last ↔ id ∈ before ++ [last] := by
  have new : last ∉ before := fun old => (List.nodup_append'.mp distinct).2.2 old List.mem_cons_self
  rw [List.idxOf_append, List.idxOf_append, if_neg new, List.idxOf_cons_self, Nat.zero_add]
  by_cases old : id ∈ before
  · have bound := List.idxOf_lt_length_of_mem old
    simp [old, Nat.le_of_lt bound]
  · by_cases same : id = last
    · simp [same, new]
    · simp [same, old, List.idxOf_cons_ne _ (Ne.symm same)]

theorem near_whole : other ∈ (heritage.whole arena).near id ↔
      other ∈ (heritage.whole arena).parents id ∨ arena.outer? id = some other := by
  rw [Arena.near_eq, List.mem_append, whole, outer?_installAll, Option.mem_toList]

theorem Closes.depends (closes : heritage.Closes order arena last child) :
    (heritage.whole arena).Depends last child := by
  refine Relation.ReflTransGen.mono (fun id other known => near_whole.mpr ?_) _ _ closes.2.2
  exact known.imp_left And.left

variable (bare : ∀ id, arena.parents id = [])

include bare

theorem parents_of_bare (id : ClassId) : (heritage.installAll order arena).parents id =
      if id ∈ order ∧ id.index < arena.size then heritage.parents id else [] := by
  rw [parents_installAll, bare]

/-- When a class is checked, the known edges are those of the hierarchy up to this class. -/
theorem near_iff_known (distinct : (before ++ last :: after).Nodup) (id other : ClassId) :
    other ∈ (heritage.installAll (before ++ [last]) arena).near id ↔
      heritage.Known (before ++ last :: after) arena last id other := by
  rw [Known, idxOf_le_iff distinct, parents_whole, bare, Arena.near_eq, List.mem_append, outer?_installAll,
    parents_of_bare bare]
  by_cases listed : id ∈ before ++ [last] <;> simp [listed, Option.mem_toList]

theorem inside_of_parent (above : other ∈ (heritage.whole arena).parents id) : id.index < arena.size := by
  by_contra outside
  rw [parents_whole, if_neg outside, bare] at above
  cases above

/-- No edge leads away from a class that is not there, so it is on no cycle. -/
theorem inside_of_depends (parent : last ∈ (heritage.whole arena).parents child)
    (chain : (heritage.whole arena).Depends last child) : last.index < arena.size := by
  rcases chain.cases_head with same | ⟨next, step, -⟩
  · subst same
    exact inside_of_parent bare parent
  · by_contra outside
    rw [Arena.near_absent _ (by simpa [whole] using outside)] at step
    cases step

/-- The order is refused at the class that a cycle of known edges enters as a supertype. -/
theorem rejects_iff_closes (perm : order.Perm arena.ids) :
    heritage.Rejects order arena ↔ ∃ last child, heritage.Closes order arena last child := by
  have distinct : order.Nodup := perm.nodup_iff.mpr arena.nodup_ids
  have checked {before after : List ClassId} {last : ClassId} (split : order = before ++ last :: after) :
      (∃ e, (heritage.installAll (before ++ [last]) arena).checkCycles last = .error e) ↔
        ∃ child, heritage.Closes order arena last child := by
    subst split
    have edges : (fun id other => other ∈ (heritage.installAll (before ++ [last]) arena).near id) =
        heritage.Known (before ++ last :: after) arena last := by
      funext id other
      exact propext (near_iff_known bare distinct id other)
    rw [Arena.checkCycles_fails_iff]
    unfold Arena.Depends Closes
    rw [edges]
    refine exists_congr fun child => ?_
    rw [idxOf_le_iff distinct, parents_whole, parents_of_bare bare, bare]
    by_cases listed : child ∈ before ++ [last] <;> simp [listed]
  rw [rejects_iff_check]
  constructor
  · rintro ⟨before, last, after, split, failed⟩
    exact ⟨last, (checked split).mp failed⟩
  · rintro ⟨last, child, closes⟩
    have listed : last ∈ order := perm.mem_iff.mpr (arena.mem_ids (inside_of_depends bare closes.1 closes.depends))
    obtain ⟨before, after, split⟩ := List.append_of_mem listed
    exact ⟨before, last, after, split, (checked split).mpr ⟨child, closes⟩⟩

/-- A cycle of superclasses and interfaces is found whatever comes last. -/
theorem rejects_of_not_acyclic (perm : order.Perm arena.ids) (cyclic : ¬ (heritage.whole arena).Acyclic) :
    heritage.Rejects order arena := by
  by_contra passed
  have start : arena.Acyclic := by
    intro id chain
    obtain ⟨next, above, -⟩ := Relation.TransGen.head'_iff.mp chain
    rw [bare] at above
    cases above
  refine cyclic ((acyclic_of_not_rejects start passed).of_parents fun id => ?_)
  simp only [whole, parents_installAll, perm.mem_iff]

/-- A cycle is found where it enters a class as a supertype, if this class comes last. -/
theorem rejects_of_circular (circular : (heritage.whole arena).Circular) :
    ∃ order, order.Perm arena.ids ∧ heritage.Rejects order arena := by
  obtain ⟨child, last, parent, chain⟩ := circular
  have listed : last ∈ arena.ids := arena.mem_ids (inside_of_depends bare parent chain)
  have perm : (arena.ids.erase last ++ [last]).Perm arena.ids :=
    List.perm_append_comm.trans (List.perm_cons_erase listed).symm
  have distinct : (arena.ids.erase last ++ [last]).Nodup := perm.nodup_iff.mpr arena.nodup_ids
  have latest {id other : ClassId} (above : other ∈ (heritage.whole arena).parents id) :
      (arena.ids.erase last ++ [last]).idxOf id ≤ (arena.ids.erase last ++ [last]).idxOf last :=
    (idxOf_le_iff distinct id).mpr (perm.mem_iff.mpr (arena.mem_ids (inside_of_parent bare above)))
  refine ⟨_, perm, (rejects_iff_closes bare perm).mpr ⟨last, child, parent, latest parent, ?_⟩⟩
  refine Relation.ReflTransGen.mono (fun id other step => ?_) _ _ chain
  exact (near_whole.mp step).imp_left fun above => ⟨above, latest above⟩

end Order

/-- Whether some check fails depends on the order. It fails exactly if a cycle enters some class as a superclass
or interface, and every class that the cycle leaves for a superclass or interface is resolved no later. So a
refusal always means that the hierarchy is circular, a cycle of superclasses and interfaces alone is refused in
every order, and every circular hierarchy is refused in some order. -/
theorem resolution_order_verdict (heritage : Heritage) {arena : Arena}
    (bare : ∀ id, (arena.get id).supertypes = []) {order : List ClassId} (perm : order.Perm arena.ids) :
    (heritage.Rejects order arena ↔ ∃ last child, heritage.Closes order arena last child) ∧
      (heritage.Rejects order arena → (heritage.whole arena).Circular) ∧
      (¬ (heritage.whole arena).Acyclic → heritage.Rejects order arena) ∧
      ((heritage.whole arena).Circular → ∃ other, other.Perm arena.ids ∧ heritage.Rejects other arena) := by
  have childless (id : ClassId) : arena.parents id = [] := by rw [Arena.parents, bare]; rfl
  refine ⟨rejects_iff_closes childless perm, fun rejected => ?_, rejects_of_not_acyclic childless perm,
    rejects_of_circular childless⟩
  obtain ⟨last, child, closes⟩ := (rejects_iff_closes childless perm).mp rejected
  exact ⟨child, last, closes.1, closes.depends⟩

/-- A class, a member class of it, and the root class. -/
def nestedArena : Arena := ⟨#[{ name := "A" }, { name := "I", kind := .memberOf ⟨0⟩ }, { name := "Object" }]⟩

/-- The class extends its own member class. -/
def inward (id : ClassId) : Option Ty × List Ty :=
  match id.index with
  | 0 => (some (.cls ⟨1⟩), [])
  | 1 => (some (.cls ⟨2⟩), [])
  | _ => (none, [])

/-- From the outer class inward, the member class is refused. -/
theorem resolution_order_verdict_inward :
    (∃ last child, Heritage.Closes inward [⟨0⟩, ⟨1⟩, ⟨2⟩] nestedArena last child) ∧
      Heritage.Rejects inward [⟨0⟩, ⟨1⟩, ⟨2⟩] nestedArena := by
  have bare : ∀ id, (nestedArena.get id).supertypes = [] := by
    rintro ⟨_ | _ | _ | index⟩ <;> rfl
  have closes : Heritage.Closes inward [⟨0⟩, ⟨1⟩, ⟨2⟩] nestedArena ⟨1⟩ ⟨0⟩ :=
    ⟨by decide, by decide, .single (.inr rfl)⟩
  exact ⟨⟨_, _, closes⟩, (resolution_order_verdict inward bare (.refl _)).1.mpr ⟨_, _, closes⟩⟩

/-- From the member class outward, every check passes, although the same hierarchy is circular: no check sees
the cycle that comes back to the class it is made for as the enclosing class. -/
theorem resolution_order_decides :
    (Heritage.whole inward nestedArena).Circular ∧ Heritage.Rejects inward [⟨0⟩, ⟨1⟩, ⟨2⟩] nestedArena ∧
      ¬ Heritage.Rejects inward [⟨1⟩, ⟨0⟩, ⟨2⟩] nestedArena := by
  refine ⟨⟨⟨0⟩, ⟨1⟩, by decide, .single (by decide)⟩, ⟨_, rfl⟩, ?_⟩
  rintro ⟨e, failed⟩
  cases failed

end Heritage
end ClassUniverse
