import ClassUniverse.ClassFile
import ClassUniverse.Source

/-! All declarations that a session starts from. -/
namespace ClassUniverse

structure Universe where
  sources : List SourceFile := []
  classFiles : List ClassFile := []
  deriving Repr, Inhabited

namespace Universe

def toJson (u : Universe) : Json :=
  .object [("sources", .list SourceFile.toJson u.sources), ("class_files", .list ClassFile.toJson u.classFiles)]

def ofJson? (json : Json) : Option Universe := do
  let fields ← json.fields? ["sources", "class_files"]
  return {
    sources := ← fields.list "sources" SourceFile.ofJson?
    classFiles := ← fields.list "class_files" ClassFile.ofJson? }

end Universe

end ClassUniverse
