import ClassUniverse.Metadata
import ClassUniverse.Reference

/-! Classes from the metadata in class files. The class is installed before anything that it refers to is
resolved, so that references back to it find it. -/
namespace ClassUniverse

def filePosition (binary : String) : Position :=
  { file := String.ofList (Text.replaceChar '.' '/' binary.toList) ++ ".class" }

def splitPackage (name : String) : Option Package × String :=
  match splitName '.' name with
  | some (package, short) => (some ⟨package⟩, short)
  | none => (none, name)

/-- The rest of a binary name after the name of the outer class and a dollar sign. -/
def memberSuffix? (outer name : String) : Option String :=
  match Text.stripStart outer.toList name.toList with
  | some ('$' :: rest) => some (String.ofList rest)
  | _ => none

namespace Metadata

def types (l : Loader) (written : List String) : Run (List Ty) := written.mapM l.typeForName

def field (l : Loader) (container : Ty) (d : FieldDecl) : Run Field :=
  return { container, flags := d.flags, type := ← l.typeForName d.type, name := d.name }

def method (l : Loader) (container : Ty) (d : MethodDecl) : Run Method := do
  let returns ← l.typeForName d.returns
  let formals ← types l d.params
  return { container, flags := d.flags, name := d.name, formals, throws := ← types l d.throws, returns }

def constructor (l : Loader) (container : Ty) (name : String) (d : ConstructorDecl) : Run Constructor := do
  let formals ← types l d.params
  return { container, flags := d.flags, name, formals, throws := ← types l d.throws }

/-- Resolves everything that the document mentions, then fills the record at once. -/
def populate (l : Loader) (m : Metadata) (id : ClassId) : Run Unit := do
  let superType ← m.superType.mapM l.typeForName
  let interfaces ← types l m.interfaces
  let fields ← m.fields.mapM (field l (.cls id))
  let methods ← m.methods.mapM (method l (.cls id))
  let name := (← Run.record id).name
  let constructors ← m.constructors.mapM (constructor l (.cls id) name)
  let members ← m.memberClasses.mapM l.classForName
  Run.update id fun record =>
    { record with superType, interfaces, fields, methods, constructors, members }.markStages
      [.supertypesResolved, .membersAdded, .signaturesResolved]

/-- A shell for the class, installed under its binary and its source name. -/
def declare (m : Metadata) (kind : ClassKind) (package : Option Package) (name : String) : Run ClassId := do
  let id ← Run.addClass {
    name, package, kind, flags := m.flags, position := some (filePosition m.name), fileName := some m.name,
    completion := some .decoded }
  System.addNamed m.name (.cls id)
  let full ← Run.fullName id
  if full ≠ m.name then System.addNamed full (.cls id)
  return id

/-- Loading the outer class may already have loaded this one. -/
def load (l : Loader) (m : Metadata) : Run ClassId := do
  match m.outer with
  | none =>
    let (package, name) := splitPackage m.name
    let id ← m.declare .topLevel package name
    m.populate l id
    return id
  | some outerName =>
    let outer ← l.classForName outerName
    match ← Run.check m.name with
    | some (.cls id) => return id
    | _ =>
      match memberSuffix? outerName m.name with
      | none => throw (.badEncoding m.name (.notMemberOf m.name outerName))
      | some name =>
        let id ← m.declare (.memberOf outer) (← Run.record outer).package name
        m.populate l id
        return id

end Metadata

namespace Loader

/-- The class in a metadata text, which must describe the class `binary`. -/
def decode (l : Loader) (text binary : String) : Run ClassId := do
  match Metadata.parse? text with
  | none => throw (.badEncoding binary .malformedDocument)
  | some m => if m.name = binary then m.load l else throw (.badEncoding binary (.describes m.name))

end Loader

end ClassUniverse
