import ClassUniverse.Conversion
import ClassUniverse.Reference

/-! Least common ancestors. -/
namespace ClassUniverse.Loader

/-- The superclass of a class; arrays, and classes without a superclass, have the root class above them. -/
def superOf (l : Loader) : Ty → Run Ty
  | .cls id => do
    match ← l.superType id with
    | some type => return type
    | none => l.objectType
  | _ => l.objectType

/-- Interfaces are not searched: with an interface on either side the answer is the root class. -/
def commonReference (l : Loader) (common : Ty → Ty → Run Ty) (a b : Ty) : Run Ty := do
  let object ← l.objectType
  let arena ← Run.arena
  if a.class?.any arena.isInterface || b.class?.any arena.isInterface then return object
  if a = object then return a
  if b = object then return b
  if ← l.isSubtype a b then return b
  if ← l.isSubtype b a then return a
  let left ← common (← l.superOf a) b
  let right ← common (← l.superOf b) a
  return if left = right then left else object

def commonAncestorWithin (l : Loader) : (steps : Nat) → (a b : Ty) → Run Ty
  | 0, _, _ => Run.exhausted
  | steps + 1, a, b => do
    Run.requireCanonical a
    Run.requireCanonical b
    let absent : Run Ty := do throw (.noCommonAncestor (← Run.typeName a) (← Run.typeName b))
    if a = b then return a
    match a, b with
    | .primitive p, .primitive q =>
      match p.join? q with
      | some kind => return .primitive kind
      | none => absent
    | .array base, .array other =>
      if base.isPrimitive || other.isPrimitive then l.objectType
      else return .array (← commonAncestorWithin l steps base other)
    | _, _ =>
      if a.isReference && b.isNull then return a
      else if b.isReference && a.isNull then return b
      else if a.isReference && b.isReference then l.commonReference (commonAncestorWithin l steps) a b
      else absent

def leastCommonAncestor (l : Loader) (a b : Ty) : Run Ty := l.commonAncestorWithin l.depth a b

end ClassUniverse.Loader
