import ClassUniverse.Decoding
import ClassUniverse.Descriptor

/-! Classes from the raw structure of class files, completed on demand. -/
namespace ClassUniverse

namespace Text

/-- All ways to cut at a mark, the last mark first. -/
def cuts (mark : Char) : List Char → List (List Char × List Char)
  | [] => []
  | c :: rest =>
    (cuts mark rest).map (fun (before, after) => (c :: before, after)) ++ if c = mark then [([], rest)] else []

end Text

namespace RawClass

/-- Kind of a nested class from the parts of its binary name: a number is an anonymous class, and what
starts with digits or follows a number is a local class. -/
def nestedKind (outer : ClassId) (simple : String) : ClassKind :=
  ((Text.parts '$' simple.toList).filter (!·.isEmpty)).foldl (step outer) .topLevel
where
  step (outer : ClassId) (kind : ClassKind) (part : List Char) : ClassKind :=
    if part.all Char.isDigit then .anonymousIn outer
    else if part.head?.any Char.isDigit || kind.isAnonymous then .localTo outer
    else .memberOf outer

def nestedName (kind : ClassKind) (inner : String) : String :=
  if kind.isAnonymous then "" else String.ofList (inner.toList.dropWhile Char.isDigit)

/-- The longest name before a dollar sign that is a class; a dollar sign may also be part of a name. -/
def findOuter (l : Loader) : List (List Char × List Char) → Run (Option (ClassId × String))
  | [] => return none
  | (before, after) :: rest => do
    match ← (l.classForName (String.ofList before)).outcome with
    | .ok outer => return some (outer, String.ofList after)
    | .error e => if e.isNotFound then findOuter l rest else throw e

/-- A nested class has its flags in the list of inner classes. -/
def classFlags (raw : RawClass) : Flags :=
  match raw.innerClasses.find? fun inner => dotted inner.name == dotted raw.name with
  | some inner => .ofClassBits inner.accessFlags
  | none => .ofClassBits raw.accessFlags

/-- The shell of a class, installed under its names before anything else is resolved. -/
def declare (l : Loader) (raw : RawClass) (file : ClassFile) : Run ClassId := do
  let binary := dotted raw.name
  let (package, simple) := splitPackage binary
  let (kind, name) ← do
    match ← findOuter l (Text.cuts '$' binary.toList) with
    | none => pure (.topLevel, simple)
    | some (outer, inner) =>
      let kind := nestedKind outer simple
      pure (kind, nestedName kind inner)
  let id ← Run.addClass {
    name, package, kind, flags := raw.classFlags, position := some (filePosition binary),
    fileName := some binary, completion := some (.derived file) }
  System.addNamed binary (.cls id)
  let full ← Run.fullName id
  if full ≠ binary && !kind.isAnonymous && !kind.isLocal then System.addNamed full (.cls id)
  return id

def deriveSupertypes (l : Loader) (raw : RawClass) (id : ClassId) : Run Unit := do
  let superType ←
    if ← Run.isRoot id then pure none
    else
      match raw.superclass with
      | some name => some <$> Ty.cls <$> l.classForName (dotted name)
      | none => some <$> l.objectType
  let interfaces ← raw.interfaces.mapM fun name => Ty.cls <$> l.classForName (dotted name)
  Run.update id fun record => { record with superType, interfaces }.markStage .supertypesResolved

def typeOf (l : Loader) : Descriptor → Run Ty
  | .primitive kind => return .primitive kind
  | .cls name => return .cls (← l.classForName name)
  | .array base => return .array (← typeOf l base)

def parsed (result : Except String α) : Run α :=
  match result with
  | .ok value => return value
  | .error text => throw (.badEncoding "" (.malformedDescriptor text))

/-- Numbered inner classes are not members. -/
def isNumbered (binary : String) : Bool :=
  match Text.splitLast '$' binary.toList with
  | some (_, c :: _) => c.isDigit
  | _ => false

def memberClassesOf (l : Loader) (raw : RawClass) : Run (List ClassId) := do
  let listed := raw.innerClasses.filter fun inner =>
    inner.outer.map dotted = some (dotted raw.name) && !isNumbered (dotted inner.name)
  let found ← listed.mapM fun inner => l.classForName (dotted inner.name)
  let arena ← Run.arena
  return found.filter fun member => (arena.get member).kind.isMember

/-- Fields that compilers add for themselves are left out. -/
def isDeclaredField (field : RawMember) : Bool :=
  !(Text.stripStart "jlc$".toList field.name.toList).isSome && !field.synthetic

def fieldsOf (l : Loader) (raw : RawClass) (id : ClassId) : Run (List Field) :=
  (raw.fields.filter isDeclaredField).mapM fun field => do
    let type ← typeOf l (← parsed (Descriptor.field field.descriptor))
    return {
      container := .cls id, flags := .ofFieldBits field.accessFlags, type, name := field.name,
      position := (← Run.record id).position }

def isDeclaredMethod (method : RawMember) : Bool := !method.synthetic && method.name != "<clinit>"

def isConstructor (method : RawMember) : Bool := method.name == "<init>"

/-- A procedure with the type it returns, which is `none` for a constructor. -/
def procedureOf (l : Loader) (id : ClassId) (name : String) (hidden : Nat) (raw : RawMember) :
    Run (Procedure × Option Ty) := do
  let (params, result) ← parsed (Descriptor.method raw.descriptor)
  let formals ← params.mapM (typeOf l)
  let throws ← raw.exceptions.mapM fun e => Ty.cls <$> l.classForName (dotted e)
  let procedure : Procedure :=
    { container := .cls id, flags := .ofMethodBits raw.accessFlags, name := raw.name, formals, throws }
  if isConstructor raw then
    return ({ procedure with
      name, formals := if hidden ≤ formals.length then formals.drop hidden else formals }, none)
  else return (procedure, some (← typeOf l result))

def deriveMembers (l : Loader) (raw : RawClass) (id : ClassId) : Run Unit := do
  let members ← raw.memberClassesOf l
  let fields ← raw.fieldsOf l id
  let record ← Run.record id
  -- The first parameters of an inner class's constructor fill the synthetic fields.
  let hidden :=
    if record.kind.isNested && !record.flags.isStatic then (raw.fields.filter (·.synthetic)).length else 0
  let procedures ← (raw.methods.filter isDeclaredMethod).mapM (procedureOf l id record.name hidden)
  let methods := procedures.filterMap fun (p, returns) => returns.map fun returns => { p with returns }
  let constructors := procedures.filterMap fun (p, returns) => if returns.isNone then some ⟨p⟩ else none
  Run.update id fun record =>
    { record with members, fields, methods, constructors }.markStages [.membersAdded, .signaturesResolved]

/-- The members of all supertypes come first, those of interfaces before those of the superclass. -/
def deriveAllMembers (l : Loader) (id : ClassId) : Run Unit := do
  let interfaces ← l.interfaces id
  let superType ← l.superType id
  ((interfaces ++ superType.toList).filterMap Ty.class?).forM l.ensureAllMembers
  Run.mark id .allMembersAdded

end RawClass

namespace ClassFile

def structure? (file : ClassFile) : Run RawClass :=
  match file.raw with
  | some raw => return raw
  | none => throw (.badEncoding file.name .noStructure)

def declare (l : Loader) (file : ClassFile) : Run ClassId := do (← file.structure?).declare l file

def derive (l : Loader) (file : ClassFile) (id : ClassId) : Stage → Run Unit
  | .supertypesResolved => do (← file.structure?).deriveSupertypes l id
  | .membersAdded | .signaturesResolved => do (← file.structure?).deriveMembers l id
  | .allMembersAdded => RawClass.deriveAllMembers l id

end ClassFile

end ClassUniverse
