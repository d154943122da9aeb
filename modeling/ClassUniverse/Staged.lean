import ClassUniverse.Run

/-! Views of a class that wait for the stage they need. -/
namespace ClassUniverse.Loader

def superType (l : Loader) (id : ClassId) : Run (Option Ty) := do
  l.ensure id .supertypesResolved
  return (← Run.record id).superType

def interfaces (l : Loader) (id : ClassId) : Run (List Ty) := do
  l.ensure id .supertypesResolved
  return (← Run.record id).interfaces

def supertypes (l : Loader) (id : ClassId) : Run (List Ty) := do
  l.ensure id .supertypesResolved
  return (← Run.record id).supertypes

def memberClasses (l : Loader) (id : ClassId) : Run (List ClassId) := do
  l.ensure id .membersAdded
  return (← Run.record id).members

def memberClassNamed (l : Loader) (id : ClassId) (name : String) : Run (Option ClassId) := do
  let members ← l.memberClasses id
  let arena ← Run.arena
  return members.find? fun member => (arena.get member).name == name

def fields (l : Loader) (id : ClassId) : Run (List Field) := do
  l.ensure id .signaturesResolved
  return (← Run.record id).fields

/-- Signatures are resolved only if the field found is not canonical. -/
def fieldNamed (l : Loader) (id : ClassId) (name : String) : Run (Option Field) := do
  l.ensure id .membersAdded
  match (← Run.record id).fieldNamed? name with
  | none => return none
  | some field =>
    if field.isCanonical then return some field
    l.ensure id .signaturesResolved
    return (← Run.record id).fieldNamed? name

def methods (l : Loader) (id : ClassId) : Run (List Method) := do
  l.ensure id .signaturesResolved
  return (← Run.record id).methods

/-- Signatures are resolved only if a method found is not canonical. -/
def methodsNamed (l : Loader) (id : ClassId) (name : String) : Run (List Method) := do
  l.ensure id .membersAdded
  let found := (← Run.record id).methodsNamed name
  if found.all Method.isCanonical then return found
  l.ensure id .signaturesResolved
  return (← Run.record id).methodsNamed name

def constructors (l : Loader) (id : ClassId) : Run (List Constructor) := do
  l.ensure id .signaturesResolved
  return (← Run.record id).constructors

/-- Completes the members of the class and of all its supertypes. -/
def ensureAllMembers (l : Loader) (id : ClassId) : Run Unit := l.ensure id .allMembersAdded

end ClassUniverse.Loader
