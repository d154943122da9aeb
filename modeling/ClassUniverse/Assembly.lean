import ClassUniverse.Decoding

/-! Classes built in place, without declarations or files. -/
namespace ClassUniverse

namespace Run

/-- Adds a class whose members are given with any container. A member class is listed in the class around
it. -/
def assemble (record : ClassRecord) : Run ClassId := do
  let id ← addClass { record with completion := some .assembled }
  update id fun record =>
    { record with
      fields := record.fields.map fun f => { f with container := .cls id }
      methods := record.methods.map fun m => { m with container := .cls id }
      constructors := record.constructors.map fun c => { c with container := .cls id, name := record.name } }
  if let .memberOf outer := record.kind then
    update outer fun record => { record with members := record.members ++ [id] }
  return id

/-- A nested class lies in the package of the class around it. -/
def packageFor (kind : ClassKind) (fullName : String) : Run (Option Package) := do
  match kind.outer? with
  | some outer => return (← record outer).package
  | none => return (splitPackage fullName).1

end Run

/-- The core classes of a session without class files: the root class, strings, and the interfaces of arrays. -/
structure CoreClasses where
  object : ClassId
  cloneable : ClassId
  serializable : ClassId
  string : ClassId

namespace CoreClasses

def shell (fullName : String) (flags : List Flag) : ClassRecord :=
  let (package, name) := splitPackage fullName
  { name, package, flags := .ofList flags }

def publicConstructor : Constructor := { container := .null, flags := .ofList [.publicAccess], name := "" }

def objectMethods (object string : ClassId) : List Method :=
  let visible : Method :=
    { container := .cls object, flags := .ofList [.publicAccess], name := "", returns := .cls object }
  [{ visible with name := "equals", formals := [.cls object], returns := .boolean },
    { visible with name := "toString", returns := .cls string },
    { visible with name := "hashCode", returns := .int },
    { visible with name := "clone", flags := .ofList [.protectedAccess] }]

def install : Run CoreClasses := do
  let interface := [.publicAccess, .interface, .abstract]
  let object ← Run.assemble
    { shell "java.lang.Object" [.publicAccess] with constructors := [publicConstructor] }
  let cloneable ← Run.assemble (shell "java.lang.Cloneable" interface)
  let serializable ← Run.assemble (shell "java.io.Serializable" interface)
  let string ← Run.assemble
    { shell "java.lang.String" [.publicAccess, .final] with
      superType := some (.cls object), interfaces := [.cls serializable], constructors := [publicConstructor] }
  Run.update object fun record => { record with methods := objectMethods object string }
  [object, string, cloneable, serializable].forM fun id => do
    Run.modifyTable .session (·.insert (← Run.fullName id) (.cls id))
  return { object, cloneable, serializable, string }

end CoreClasses

end ClassUniverse
