import ClassUniverse.Import
import ClassUniverse.Lookup.Field
import ClassUniverse.Lookup.Method
import ClassUniverse.Scope

/-! What names stand for in a scope. The member names that frames collect are kept also when a look-up
fails later on. -/
namespace ClassUniverse

abbrev Scoped := ExceptT Error (StateT Scope (StateT World Option))

namespace Scoped

instance : MonadLift Run Scoped := ⟨fun run => ExceptT.mk (StateT.lift (ExceptT.run run))⟩

def outcome (x : Scoped α) : Scoped (Except Error α) := ExceptT.lift (ExceptT.run x)

/-- The outcome in a scope, and the scope afterwards. -/
def runIn (x : Scoped α) (scope : Scope) : Run (Except Error α × Scope) :=
  ExceptT.lift (StateT.run (ExceptT.run x) scope)

/-- The answer in a scope that is not needed any more. -/
def within (x : Scoped α) (scope : Scope) : Run α := do
  match ← x.runIn scope with
  | (.ok a, _) => return a
  | (.error e, _) => throw e

def currentClass? : Scoped (Option ClassId) := return (← getThe Scope).currentClass?

end Scoped

namespace ClassNames

def addMembers (names : ClassNames) (record : ClassRecord) (types : List String) : ClassNames where
  types := names.types ++ types
  fields := names.fields ++ record.fields.map (·.name)
  methods := names.methods ++ record.methods.map (·.name)

end ClassNames

namespace Loader

/-- Collects from the pending classes and everything above them, depth first. -/
def classNamesWithin (l : Loader) : (steps : Nat) → (seen : List ClassId) → ClassNames → (pending : List ClassId) →
    Run ClassNames
  | 0, _, _, _ => Run.exhausted
  | _ + 1, _, names, [] => return names
  | steps + 1, seen, names, id :: pending => do
    if seen.contains id then classNamesWithin l steps seen names pending
    else
      l.ensure id .membersAdded
      let arena ← Run.arena
      let record := arena.get id
      let members := (record.members.map arena.get).filter fun member => member.kind.isMember
      let names := names.addMembers record (members.map (·.name))
      let above := (← l.supertypes id).filterMap Ty.class?
      classNamesWithin l steps (id :: seen) names (above ++ pending)

def classNames (l : Loader) (id : ClassId) : Run ClassNames := l.classNamesWithin l.depth [] {} [id]

end Loader

namespace Scope

/-- The names that the frame of a class answers for. -/
def namesOf (l : Loader) (frame : Frame) (id : ClassId) : Scoped ClassNames := do
  match frame.names with
  | some names => return names
  | none =>
    let names ← l.classNames id
    modifyThe Scope (·.setNames frame.number names)
    return names

def typeIn (l : Loader) (name : String) (accessor : Option ClassId) : List Frame → Scoped Named
  | [] => throw (.notFound name)
  | frame :: rest => do
    match frame.types.find? name with
    | some named => return named
    | none =>
      match frame.kind with
      | .body id =>
        if (← namesOf l frame id).types.contains name then return .cls (← l.memberClass id name accessor)
        else typeIn l name accessor rest
      | .source imports => ImportTable.find l imports name
      | .outermost => l.find name
      | .code _ | .block => typeIn l name accessor rest

def findShortType (l : Loader) (name : String) : Scoped Named := do
  let s ← getThe Scope
  typeIn l name s.currentClass? s.frames

/-- Goes down from an entity along the segments of a name. -/
def descend (l : Loader) (accessor : Option ClassId) : Named → (segments : List String) → Run Named
  | named, [] => return named
  | .cls id, segment :: rest => do descend l accessor (.cls (← l.findMemberClass id segment accessor)) rest
  | .package package, segment :: rest => do
    descend l accessor (← l.findInPackage package segment accessor) rest

/-- The first segment as this scope sees it, and down from there; what is unknown is a package. -/
def findQualified (l : Loader) (name : String) : Scoped Named := do
  match segments name with
  | [] => throw (.notFound name)
  | first :: rest =>
    let start ← do
      match ← (findShortType l first).outcome with
      | .ok named => pure named
      | .error e => if e.isNotFoundFor first then pure (.package ⟨first⟩) else throw e
    descend l (← Scoped.currentClass?) start rest

/-- A full name is looked up as such before its first segment is looked up in the scope. -/
def findType (l : Loader) (name : String) : Scoped Named := do
  if isShortName name then findShortType l name
  else
    match ← (Run.outcome (l.find name) : Run _) with
    | .ok named => return named
    | .error e =>
      if !e.isNotFoundFor name then throw e
      else
        match ← findQualified l name with
        | .package package =>
          if ← System.packageExists package.fullName then return .package package else throw e
        | named => return named

/-- Reads a written type such as `int`, `List` or `p.C[][]`. -/
def resolveType (l : Loader) (written : String) : Scoped Ty := do
  let (base, dims) := splitDims written
  match Primitive.ofName? base with
  | some kind => return .arrayOf (.primitive kind) dims
  | none =>
    match ← findType l base with
    | .cls id => return .arrayOf (.cls id) dims
    | .package package => (Run.fault (.packageNotType package.fullName) : Run Ty)

def variableIn (l : Loader) (name : String) (accessor : Option ClassId) : List Frame → Scoped Var
  | [] => (Run.fault (.noVariable name) : Run Var)
  | frame :: rest => do
    match frame.locals.find? name, frame.kind with
    | some found, _ => return .localVar found
    | none, .body id =>
      if (← namesOf l frame id).fields.contains name then return .field (← l.findField (.cls id) name accessor)
      else variableIn l name accessor rest
    | none, _ => variableIn l name accessor rest

def findVariable (l : Loader) (name : String) : Scoped Var := do
  let s ← getThe Scope
  variableIn l name s.currentClass? s.frames

def findLocal (name : String) : Scoped Local := do
  match (← getThe Scope).findVariable? name with
  | some found => return found
  | none => (Run.fault (.noLocal name) : Run Local)

def noMember (kind : MemberKind) (name : String) : Scoped α := do
  throw (.noSuchMember kind name ((← getThe Scope).text (← getThe World)))

def fieldScopeIn (l : Loader) (name : String) : List Frame → Scoped ClassId
  | [] => noMember .field name
  | frame :: rest => do
    match frame.kind with
    | .body id => if (← namesOf l frame id).fields.contains name then return id else fieldScopeIn l name rest
    | _ => fieldScopeIn l name rest

/-- The innermost class with a field of that name. -/
def findFieldScope (l : Loader) (name : String) : Scoped ClassId := do
  fieldScopeIn l name (← getThe Scope).frames

def findField (l : Loader) (name : String) : Scoped Field := do
  let id ← findFieldScope l name
  l.findField (.cls id) name (← Scoped.currentClass?)

def methodScopeIn (l : Loader) (name : String) (accessor : Option ClassId) : List Frame → Scoped ClassId
  | [] => noMember .method name
  | frame :: rest => do
    match frame.kind with
    | .body id =>
      if !(← namesOf l frame id).methods.contains name then methodScopeIn l name accessor rest
      else if ← l.hasMethodNamed (.cls id) name accessor then return id
      else methodScopeIn l name accessor rest
    | _ => methodScopeIn l name accessor rest

/-- The innermost class with a method of that name that the current class may call. -/
def findMethodScope (l : Loader) (name : String) : Scoped ClassId := do
  let s ← getThe Scope
  methodScopeIn l name s.currentClass? s.frames

def findMethod (l : Loader) (name : String) (args : List Ty) : Scoped Method := do
  let id ← findMethodScope l name
  l.findMethod (.cls id) name args (← Scoped.currentClass?)

end Scope

end ClassUniverse
