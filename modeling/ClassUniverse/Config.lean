import ClassUniverse.Version

/-! What steers a session: the compiler version, the switches of class loading, and the well-known names. -/
namespace ClassUniverse

structure Config where
  version : Version := ⟨"jltc", 0, 1, 0⟩
  /-- Class files without metadata may be used. -/
  allowRawClasses : Bool := true
  /-- Metadata is used whatever the age of its source. -/
  ignoreModTimes : Bool := false
  /-- The system cache remembers names that were not found. -/
  cacheNotFound : Bool := true
  rootClass : String := "java.lang.Object"
  stringClass : String := "java.lang.String"
  /-- Interfaces that every array type implements. -/
  arrayInterfaces : List String := ["java.lang.Cloneable", "java.io.Serializable"]
  /-- Packages imported on demand into every unit. -/
  defaultImports : List String := ["java.lang"]
  deriving DecidableEq, Repr, Inhabited

namespace Config

def toJson (c : Config) : Json :=
  .object [("version", c.version.toJson), ("allow_raw_classes", .bool c.allowRawClasses),
    ("ignore_mod_times", .bool c.ignoreModTimes), ("cache_not_found", .bool c.cacheNotFound),
    ("root_class", .string c.rootClass), ("string_class", .string c.stringClass),
    ("array_interfaces", .strings c.arrayInterfaces), ("default_imports", .strings c.defaultImports)]

def ofJson? (json : Json) : Option Config := do
  let fields ← json.fields? ["version", "allow_raw_classes", "ignore_mod_times", "cache_not_found",
    "root_class", "string_class", "array_interfaces", "default_imports"]
  let standard : Config := {}
  return {
    version := ← fields.withDefault "version" standard.version Version.ofJson?
    allowRawClasses := ← fields.withDefault "allow_raw_classes" standard.allowRawClasses Json.bool?
    ignoreModTimes := ← fields.withDefault "ignore_mod_times" standard.ignoreModTimes Json.bool?
    cacheNotFound := ← fields.withDefault "cache_not_found" standard.cacheNotFound Json.bool?
    rootClass := ← fields.withDefault "root_class" standard.rootClass Json.string?
    stringClass := ← fields.withDefault "string_class" standard.stringClass Json.string?
    arrayInterfaces := ← fields.withDefault "array_interfaces" standard.arrayInterfaces Json.strings?
    defaultImports := ← fields.withDefault "default_imports" standard.defaultImports Json.strings? }

end Config

end ClassUniverse
