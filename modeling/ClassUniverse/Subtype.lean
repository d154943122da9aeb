import ClassUniverse.Staged

/-! Identity and subtyping of canonical types. -/
namespace ClassUniverse

def Run.requireCanonical (type : Ty) : Run Unit := do
  unless type.isCanonical do throw (.notCanonical (← Run.typeName type))

namespace Ty

/-- A proper descendant, where `inherits` says so for two different classes. -/
def descendsBy (inherits : ClassId → ClassId → Run Bool) : (child ancestor : Ty) → Run Bool
  | .null, .array _ | .null, .cls _ => return true
  | .array base, .array other =>
    if base ≠ other ∧ base.isReference ∧ other.isReference then descendsBy inherits base other else return false
  | .array _, .cls id => do
    let w ← get
    return w.isRoot id || w.isArrayInterface id
  | .cls id, .cls other => if id = other then return false else inherits id other
  | _, _ => return false

def subtypeBy (inherits : ClassId → ClassId → Run Bool) (a b : Ty) : Run Bool := do
  Run.requireCanonical a
  Run.requireCanonical b
  if a = b then return true else descendsBy inherits a b

end Ty

namespace Loader

/-- Follows superclasses and interfaces upward for at most `steps` steps. Everything inherits from the root
class; the root class, and the superclass of an interface, are not followed. -/
def inheritsWithin (l : Loader) : (steps : Nat) → (child ancestor : ClassId) → Run Bool
  | 0, _, _ => Run.exhausted
  | steps + 1, child, ancestor => do
    let reaches := fun type => Ty.subtypeBy (inheritsWithin l steps) type (.cls ancestor)
    if ← Run.isRoot ancestor then return true
    if ← Run.isInterface child then Run.anyOf reaches (← l.interfaces child)
    else if ← Run.isRoot child then return false
    else if ← Run.anyOf reaches (← l.superType child).toList then return true
    else Run.anyOf reaches (← l.interfaces child)

def inherits (l : Loader) (child ancestor : ClassId) : Run Bool := l.inheritsWithin l.depth child ancestor

def isSame (_ : Loader) (a b : Ty) : Run Bool := do
  Run.requireCanonical a
  Run.requireCanonical b
  return a = b

/-- `child` and `ancestor` differ, and `child` inherits from `ancestor`. -/
def descendsFrom (l : Loader) (child ancestor : Ty) : Run Bool := do
  Run.requireCanonical child
  Run.requireCanonical ancestor
  Ty.descendsBy l.inherits child ancestor

def isSubtype (l : Loader) (a b : Ty) : Run Bool := Ty.subtypeBy l.inherits a b

end Loader

end ClassUniverse
