import ClassUniverse.Reference

/-! The direct supertypes of a type, and what it declares itself. -/
namespace ClassUniverse.Loader

def knownClass (l : Loader) (name : String) : Run (Option ClassId) := do
  match ← (l.classForName name).outcome with
  | .ok id => return some id
  | .error e => if e.isNotFound then return none else throw e

def knownClasses (l : Loader) : List String → Run (List ClassId)
  | [] => return []
  | name :: rest => do
    let found ← l.knownClass name
    return found.toList ++ (← knownClasses l rest)

/-- Arrays extend the root class and implement the array interfaces that exist. -/
def directSupertypes (l : Loader) : Ty → Run (List Ty)
  | .cls id => l.supertypes id
  | .array _ => do
    let object ← l.objectType
    let interfaces ← l.knownClasses (← get).config.arrayInterfaces
    return object :: interfaces.map .cls
  | _ => return []

/-- Every array declares a public `clone`. -/
def declaredMethods (l : Loader) (name : String) : Ty → Run (List Method)
  | .cls id => l.methodsNamed id name
  | .array base => do
    if name = "clone" then
      return [{ container := .array base, flags := .ofList [.publicAccess], name, returns := ← l.objectType }]
    else return []
  | _ => return []

/-- Every array declares a public final `length`. -/
def declaredField (l : Loader) (name : String) : Ty → Run (Option Field)
  | .cls id => l.fieldNamed id name
  | .array base =>
    if name = "length" then
      return some { container := .array base, flags := .ofList [.publicAccess, .final], type := .int, name }
    else return none
  | _ => return none

end ClassUniverse.Loader
