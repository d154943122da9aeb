import ClassUniverse.Inheritance
import ClassUniverse.Proofs.Arena
import ClassUniverse.Proofs.Worklist

/-! The search for circular inheritance is exact: it visits everything above and around a class. Checking
each class when its supertypes are set keeps the whole hierarchy free of cycles. -/
namespace ClassUniverse.Arena

/-- A chain of superclasses and interfaces leads from one class to another. -/
def Inherits (arena : Arena) : ClassId → ClassId → Prop :=
  Relation.TransGen fun child parent => parent ∈ arena.parents child

def Acyclic (arena : Arena) : Prop := ∀ id, ¬ arena.Inherits id id

theorem mem_parents {arena : Arena} : parent ∈ arena.parents child ↔ .cls parent ∈ (arena.get child).supertypes := by
  constructor
  · intro direct
    obtain ⟨type, listed, named⟩ := List.mem_filterMap.mp direct
    cases type with
    | cls above =>
      cases named
      exact listed
    | _ => cases named
  · exact fun listed => List.mem_filterMap.mpr ⟨_, listed, rfl⟩

section Search

variable (arena : Arena)

/-- Where the search goes from a class. -/
def near (id : ClassId) : List ClassId := arena.parents id ++ (arena.outer? id).toList

/-- What the classes that are not seen yet can make pending. -/
def unseen (seen ids : List ClassId) : Nat :=
  ((ids.filter fun id => !seen.contains id).flatMap arena.near).length

theorem mem_ids {id : ClassId} (inside : id.index < arena.size) : id ∈ arena.ids :=
  List.mem_map.mpr ⟨id.index, List.mem_range.mpr inside, rfl⟩

theorem near_absent {id : ClassId} (outside : arena.size ≤ id.index) : arena.near id = [] := by
  simp [near, parents, outer?, arena.get_absent outside, ClassRecord.supertypes, ClassKind.outer?]

/-- A class is not above itself unless it is above some class. -/
theorem not_inherits_of_childless {arena : Arena} {id : ClassId} (childless : ∀ child ∈ arena.ids, id ∉ arena.parents child) :
    ¬ arena.Inherits id id := by
  intro cycle
  obtain ⟨child, -, parent⟩ := Relation.TransGen.tail'_iff.mp cycle
  by_cases inside : child.index < arena.size
  · exact childless child (mem_ids arena inside) parent
  · rw [parents, get_absent _ (Nat.le_of_not_lt inside)] at parent
    cases parent

theorem unseen_visit {id : ClassId} (fresh : ¬ seen.contains id) :
    (arena.near id).length + arena.unseen (id :: seen) arena.ids ≤ arena.unseen seen arena.ids := by
  by_cases inside : id.index < arena.size
  · exact Worklist.unseen_visit (fun other => other) arena.near fresh (arena.mem_ids inside)
  · rw [arena.near_absent (Nat.le_of_not_lt inside), List.length_nil, Nat.zero_add]
    exact Worklist.unseen_mono (fun other => other) arena.near (fun _ => List.mem_cons_of_mem id) arena.ids

/-- A set of classes that the search cannot leave, none of which has `goal` for a parent. -/
structure Clear (goal : ClassId) (within : ClassId → Prop) : Prop where
  closed : ∀ id, within id → ∀ other ∈ arena.near id, within other
  apart : ∀ id, within id → goal ∉ arena.parents id

/-- The search with no bound on its steps, from what was seen and what is pending to the class that it stops at. -/
inductive Searches (goal : ClassId) : (seen pending : List ClassId) → Option ClassId → Prop where
  | done {seen : List ClassId} : Searches goal seen [] none
  | skip {seen pending : List ClassId} {id : ClassId} {found : Option ClassId} (old : id ∈ seen)
      (rest : Searches goal seen pending found) : Searches goal seen (id :: pending) found
  | stop {seen pending : List ClassId} {id : ClassId} (fresh : id ∉ seen) (parent : goal ∈ arena.parents id) :
      Searches goal seen (id :: pending) (some id)
  | visit {seen pending : List ClassId} {id : ClassId} {found : Option ClassId} (fresh : id ∉ seen)
      (apart : goal ∉ arena.parents id) (rest : Searches goal (id :: seen) (arena.near id ++ pending) found) :
      Searches goal seen (id :: pending) found

/-- The search ends in the steps it is given, if these suffice for everything that can still become pending. -/
theorem searches_findCycleWithin
    (budget : pending.length + arena.unseen seen arena.ids < steps) :
    arena.Searches goal seen pending (arena.findCycleWithin goal steps seen pending) := by
  induction steps generalizing seen pending with
  | zero => omega
  | succ steps ih =>
    cases pending with
    | nil => exact .done
    | cons id pending =>
      rw [List.length_cons] at budget
      unfold findCycleWithin
      split
      · rename_i visited
        exact .skip (by simpa using visited) (ih (by omega))
      · rename_i fresh
        have new : id ∉ seen := by simpa using fresh
        split
        · rename_i parent
          exact .stop new (by simpa using parent)
        · rename_i apart
          refine .visit new (by simpa using apart) (ih ?_)
          have account := arena.unseen_visit fresh
          rw [List.length_append]
          omega

theorem edgeCount_eq : arena.edgeCount = arena.unseen [] arena.ids := by
  have all : (arena.ids.filter fun id => !([] : List ClassId).contains id) = arena.ids := by simp
  rw [unseen, all]
  rfl

theorem searches_findCycle (goal : ClassId) : arena.Searches goal [] [goal] (arena.findCycle goal) := by
  refine arena.searches_findCycleWithin ?_
  rw [← edgeCount_eq, List.length_singleton]
  omega

/-- The invariant of the search: what was seen is clear, except that it leads to what is pending. -/
theorem Searches.clear {arena : Arena} (search : arena.Searches goal seen pending found) (missed : found = none)
    (closed : ∀ id ∈ seen, ∀ other ∈ arena.near id, other ∈ seen ∨ other ∈ pending)
    (apart : ∀ id ∈ seen, goal ∉ arena.parents id) :
    ∃ within, arena.Clear goal within ∧ ∀ id, id ∈ seen ∨ id ∈ pending → within id := by
  induction search with
  | @done seen =>
    refine ⟨(· ∈ seen), ⟨fun id member other step => ?_, apart⟩, fun id member => by simpa using member⟩
    simpa using closed id member other step
  | skip old _ ih =>
    obtain ⟨within, clear, covered⟩ := ih missed (by grind) apart
    exact ⟨within, clear, fun other member => covered other (by grind)⟩
  | stop => cases missed
  | visit _ parted _ ih =>
    obtain ⟨within, clear, covered⟩ := ih missed (by grind) (by grind)
    exact ⟨within, clear, fun other member => covered other (by grind)⟩

/-- A class that passes the check lies in a clear set. -/
theorem clear_of_checkCycles (passed : arena.checkCycles goal = .ok ()) :
    ∃ within, arena.Clear goal within ∧ within goal := by
  have missed : arena.findCycle goal = none := by
    unfold checkCycles at passed
    split at passed
    · cases passed
    · assumption
  obtain ⟨within, clear, covered⟩ := (arena.searches_findCycle goal).clear missed (by simp) (by simp)
  exact ⟨within, clear, covered goal (.inr List.mem_cons_self)⟩

end Search

variable {arena after : Arena}

theorem mem_ids_iff {id : ClassId} : id ∈ arena.ids ↔ id.index < arena.size := by
  constructor
  · intro listed
    obtain ⟨index, inside, rfl⟩ := List.mem_map.mp listed
    exact List.mem_range.mp inside
  · exact arena.mem_ids

theorem Inherits.earlier {id above : ClassId} (chain : arena.Inherits id above)
    (less : ∀ id, ∀ above ∈ arena.parents id, above.index < id.index) : above.index < id.index := by
  induction chain with
  | single direct => exact less _ _ direct
  | tail _ direct ih => exact Nat.lt_trans (less _ _ direct) ih

theorem Acyclic.of_parents (acyclic : arena.Acyclic) (same : ∀ id, after.parents id = arena.parents id) :
    after.Acyclic := by
  unfold Acyclic Inherits
  simp only [same]
  exact acyclic

/-- New supertypes of one class that pass its check close no cycle. -/
theorem Acyclic.of_checkCycles (acyclic : arena.Acyclic)
    (others : ∀ id, id ≠ goal → after.parents id = arena.parents id) (passed : after.checkCycles goal = .ok ()) :
    after.Acyclic := by
  obtain ⟨within, clear, start⟩ := after.clear_of_checkCycles passed
  have step {child parent : ClassId} (inside : within child) (above : parent ∈ after.parents child) :
      within parent ∧ parent ≠ goal := by
    refine ⟨clear.closed child inside parent (List.mem_append_left _ above), ?_⟩
    rintro rfl
    exact clear.apart child inside above
  have trapped {id other : ClassId} (inside : within id) (chain : after.Inherits id other) :
      within other ∧ other ≠ goal := by
    induction chain with
    | single above => exact step inside above
    | tail _ above ih => exact step ih.1 above
  have kept {id other : ClassId} (inside : within id) (apart : id ≠ goal) (chain : after.Inherits id other) :
      arena.Inherits id other := by
    induction chain with
    | single above => exact .single (others id apart ▸ above)
    | @tail middle _ before above ih => exact ih.tail (others middle (trapped inside before).2 ▸ above)
  -- A chain that passes `goal` is in the clear set from there on.
  have entered {id other : ClassId} (chain : after.Inherits id other) : within other ∨ arena.Inherits id other := by
    induction chain with
    | single above =>
      by_cases same : id = goal
      · exact .inl (step start (same ▸ above)).1
      · exact .inr (.single (others id same ▸ above))
    | @tail middle _ before above ih =>
      rcases ih with inside | earlier
      · exact .inl (step inside above).1
      · by_cases same : middle = goal
        · exact .inl (step start (same ▸ above)).1
        · exact .inr (earlier.tail (others middle same ▸ above))
  intro id cycle
  rcases entered cycle with inside | old
  · exact acyclic id (kept inside (trapped inside cycle).2 cycle)
  · exact acyclic id old

theorem Acyclic.withSupertypes (acyclic : arena.Acyclic)
    (passed : (arena.withSupertypes goal superType interfaces).checkCycles goal = .ok ()) :
    (arena.withSupertypes goal superType interfaces).Acyclic := by
  refine acyclic.of_checkCycles (fun id apart => ?_) passed
  rw [parents, Arena.withSupertypes, get_modify_other arena apart]
  rfl

end ClassUniverse.Arena
