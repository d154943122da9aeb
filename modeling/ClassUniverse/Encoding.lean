import ClassUniverse.Staged
import ClassUniverse.Metadata

/-! The metadata of a class, for its class file. -/
namespace ClassUniverse

namespace Arena

def encodeField (arena : Arena) (f : Field) : FieldDecl :=
  { name := f.name, flags := f.flags, type := arena.typeName f.type }

def encodeMethod (arena : Arena) (m : Method) : MethodDecl where
  name := m.name
  flags := m.flags
  returns := arena.typeName m.returns
  params := arena.typeNames m.formals
  throws := arena.typeNames m.throws

def encodeConstructor (arena : Arena) (c : Constructor) : ConstructorDecl :=
  { flags := c.flags, params := arena.typeNames c.formals, throws := arena.typeNames c.throws }

/-- Local and anonymous classes are not encoded, whatever file they come from. -/
def encodableName? (arena : Arena) (id : ClassId) : Option String :=
  match (arena.get id).kind with
  | .topLevel | .memberOf _ => arena.binaryName? id
  | _ => none

end Arena

namespace Loader

def encodeClass (l : Loader) (id : ClassId) : Run Metadata := do
  let w ← get
  match w.arena.encodableName? id with
  | none => Run.fault (.notEncodable (w.arena.fullName id)) (w.arena.get id).position
  | some name =>
    let superType ← l.superType id
    let interfaces ← l.interfaces id
    let fields ← l.fields id
    let methods ← l.methods id
    let constructors ← l.constructors id
    let members ← l.memberClasses id
    let arena ← Run.arena
    return {
      version := w.config.version.text
      name
      outer := (arena.outer? id).bind arena.binaryName?
      flags := (arena.get id).flags
      superType := superType.map arena.typeName
      interfaces := arena.typeNames interfaces
      fields := fields.map arena.encodeField
      methods := methods.map arena.encodeMethod
      constructors := constructors.map arena.encodeConstructor
      memberClasses := members.filterMap arena.binaryName? }

def encode (l : Loader) (id : ClassId) : Run String := return (← l.encodeClass id).render

end Loader

end ClassUniverse
