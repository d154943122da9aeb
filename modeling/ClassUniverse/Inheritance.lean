import ClassUniverse.Run

/-! Circular inheritance, through whatever superclasses, interfaces and enclosing classes are known. -/
namespace ClassUniverse.Arena

def parents (arena : Arena) (id : ClassId) : List ClassId := (arena.get id).supertypes.filterMap Ty.class?

/-- Visits the pending classes and what lies above and around them, and gives the first one that has `goal`
for a parent. -/
def findCycleWithin (arena : Arena) (goal : ClassId) : (steps : Nat) → (seen pending : List ClassId) →
    Option ClassId
  | 0, _, _ => none
  | _ + 1, _, [] => none
  | steps + 1, seen, id :: pending =>
    if seen.contains id then findCycleWithin arena goal steps seen pending
    else if (arena.parents id).contains goal then some id
    else
      findCycleWithin arena goal steps (id :: seen)
        (arena.parents id ++ (arena.outer? id).toList ++ pending)

/-- Each class is expanded once, so no more classes than these become pending. -/
def edgeCount (arena : Arena) : Nat :=
  (arena.ids.flatMap fun id => arena.parents id ++ (arena.outer? id).toList).length

def findCycle (arena : Arena) (goal : ClassId) : Option ClassId :=
  arena.findCycleWithin goal (arena.edgeCount + 2) [] [goal]

def checkCycles (arena : Arena) (goal : ClassId) : Except Error Unit :=
  match arena.findCycle goal with
  | some id => .error (.cyclicInheritance (arena.fullName goal) (arena.get id).position)
  | none => .ok ()

end ClassUniverse.Arena
