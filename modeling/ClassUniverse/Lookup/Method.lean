import ClassUniverse.Lookup.Overload
import ClassUniverse.Lookup.Override

/-! Methods and constructors for a call. A look-up without an accessor skips access control. -/
namespace ClassUniverse

/-- Applicable methods met on the way up. -/
structure Candidates where
  accessible : List Method := []
  inaccessible : List Method := []

namespace Loader

def methodAccessible (l : Loader) (container : Ty) (accessor : Option ClassId) (m : Method) : Run Bool :=
  match accessor with
  | some accessor => l.isAccessibleIn m.protection container accessor
  | none => return true

def sortMethods (l : Loader) (container : Ty) (args : List Ty) (accessor : Option ClassId) :
    List Method → Candidates → Run Candidates
  | [], found => return found
  | m :: rest, found => do
    if !(← l.callValid m.toProcedure args) then sortMethods l container args accessor rest found
    else if ← l.methodAccessible container accessor m then
      sortMethods l container args accessor rest { found with accessible := found.accessible ++ [m] }
    else sortMethods l container args accessor rest { found with inaccessible := found.inaccessible ++ [m] }

/-- Breadth first through the supertypes. -/
def candidatesWithin (l : Loader) (container : Ty) (name : String) (args : List Ty) (accessor : Option ClassId) :
    (steps : Nat) → (seen : List Ty) → Candidates → (pending : List Ty) → Run Candidates
  | 0, _, _, _ => Run.exhausted
  | _ + 1, _, found, [] => return found
  | steps + 1, seen, found, type :: pending => do
    if seen.contains type then candidatesWithin l container name args accessor steps seen found pending
    else
      unless type.isReference do Run.fault (.callOnNonReference (← Run.typeName type))
      let found ← l.sortMethods container args accessor (← l.declaredMethods name type) found
      candidatesWithin l container name args accessor steps (type :: seen) found
        (pending ++ (← l.directSupertypes type))

/-- An inaccessible method hides what it overrides. -/
def hideOverridden (l : Loader) : (inaccessible accessible : List Method) → Run (List Method)
  | [], accessible => return accessible
  | m :: rest, accessible => do
    let hidden ← l.overrides m
    hideOverridden l rest (accessible.filter fun other => !hidden.any other.same)

def acceptableMethods (l : Loader) (container : Ty) (name : String) (args : List Ty) (accessor : Option ClassId) :
    Run (List Method) := do
  let found ← l.candidatesWithin container name args accessor l.depth [] {} [container]
  l.hideOverridden found.inaccessible found.accessible

def findMethod (l : Loader) (container : Ty) (name : String) (args : List Ty) (accessor : Option ClassId) :
    Run Method := do
  match ← l.acceptableMethods container name args accessor with
  | [] => noApplicable .method name args container
  | acceptable => l.select .method Method.toProcedure name acceptable

def constructorAcceptable (l : Loader) (args : List Ty) (accessor : Option ClassId) (c : Constructor) :
    Run Bool := do
  if !(← l.callValid c.toProcedure args) then return false
  match accessor with
  | some accessor => l.isAccessible c.protection accessor
  | none => return true

def findConstructor (l : Loader) (id : ClassId) (args : List Ty) (accessor : Option ClassId) : Run Constructor := do
  let acceptable ← Run.keep (l.constructorAcceptable args accessor) (← l.constructors id)
  let name := (← Run.record id).name
  match acceptable with
  | [] => noApplicable .constructor name args (.cls id)
  | acceptable => l.select .constructor Constructor.toProcedure name acceptable

def hasMethodWithin (l : Loader) (container : Ty) (name : String) (accessor : Option ClassId) :
    (steps : Nat) → (seen pending : List Ty) → Run Bool
  | 0, _, _ => Run.exhausted
  | _ + 1, _, [] => return false
  | steps + 1, seen, type :: pending => do
    if seen.contains type then hasMethodWithin l container name accessor steps seen pending
    else if ← Run.anyOf (l.methodAccessible container accessor) (← l.declaredMethods name type) then return true
    else
      hasMethodWithin l container name accessor steps (type :: seen) (pending ++ (← l.directSupertypes type))

/-- Some method of that name is declared or inherited, whatever its formal types. -/
def hasMethodNamed (l : Loader) (container : Ty) (name : String) (accessor : Option ClassId) : Run Bool :=
  l.hasMethodWithin container name accessor l.depth [] [container]

end Loader

end ClassUniverse
