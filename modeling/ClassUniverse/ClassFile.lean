import ClassUniverse.Assoc
import ClassUniverse.Flags
import ClassUniverse.Version

/-! Class files: metadata left by compilers, the raw structure, and the age of the source. -/
namespace ClassUniverse

structure RawInnerClass where
  name : String
  outer : Option String := none
  accessFlags : UInt16 := 0
  deriving DecidableEq, Repr, Inhabited

structure RawMember where
  name : String
  descriptor : String
  accessFlags : UInt16 := 0
  synthetic : Bool := false
  exceptions : List String := []
  deriving DecidableEq, Repr, Inhabited

/-- Names in the raw structure may be internal or dotted. -/
structure RawClass where
  name : String
  accessFlags : UInt16 := 0
  superclass : Option String := none
  interfaces : List String := []
  innerClasses : List RawInnerClass := []
  fields : List RawMember := []
  methods : List RawMember := []
  deriving DecidableEq, Repr, Inhabited

structure ClassFile where
  /-- Binary name, such as `p.q.C$I`. -/
  name : String
  /-- Metadata by the name of the compiler that wrote it. -/
  encoded : Assoc String String := .empty
  raw : Option RawClass := none
  /-- When the source was modified that the class was compiled from. -/
  sourceLastModified : UInt64 := 0
  compilerVersion : Option String := none
  deriving Repr, Inhabited

namespace RawInnerClass

def toJson (c : RawInnerClass) : Json :=
  .object [("name", .string c.name), ("outer", .optional .string c.outer),
    ("access_flags", .nat c.accessFlags.toNat)]

def ofJson? (json : Json) : Option RawInnerClass := do
  let fields ← json.fields? ["name", "outer", "access_flags"]
  return {
    name := ← fields.required "name" Json.string?
    outer := ← fields.optional "outer" Json.string?
    accessFlags := ← fields.withDefault "access_flags" 0 Json.uint16? }

end RawInnerClass

namespace RawMember

def toJson (m : RawMember) : Json :=
  .object [("name", .string m.name), ("descriptor", .string m.descriptor),
    ("access_flags", .nat m.accessFlags.toNat), ("synthetic", .bool m.synthetic),
    ("exceptions", .strings m.exceptions)]

def ofJson? (json : Json) : Option RawMember := do
  let fields ← json.fields? ["name", "descriptor", "access_flags", "synthetic", "exceptions"]
  return {
    name := ← fields.required "name" Json.string?
    descriptor := ← fields.required "descriptor" Json.string?
    accessFlags := ← fields.withDefault "access_flags" 0 Json.uint16?
    synthetic := ← fields.withDefault "synthetic" false Json.bool?
    exceptions := ← fields.list "exceptions" Json.string? }

end RawMember

namespace RawClass

def toJson (c : RawClass) : Json :=
  .object [("name", .string c.name), ("access_flags", .nat c.accessFlags.toNat),
    ("super_class", .optional .string c.superclass), ("interfaces", .strings c.interfaces),
    ("inner_classes", .list RawInnerClass.toJson c.innerClasses), ("fields", .list RawMember.toJson c.fields),
    ("methods", .list RawMember.toJson c.methods)]

def ofJson? (json : Json) : Option RawClass := do
  let fields ← json.fields? ["name", "access_flags", "super_class", "interfaces", "inner_classes",
    "fields", "methods"]
  return {
    name := ← fields.required "name" Json.string?
    accessFlags := ← fields.withDefault "access_flags" 0 Json.uint16?
    superclass := ← fields.optional "super_class" Json.string?
    interfaces := ← fields.list "interfaces" Json.string?
    innerClasses := ← fields.list "inner_classes" RawInnerClass.ofJson?
    fields := ← fields.list "fields" RawMember.ofJson?
    methods := ← fields.list "methods" RawMember.ofJson? }

end RawClass

namespace ClassFile

def metadata? (file : ClassFile) (version : Version) : Option String := file.encoded.find? version.name

/-- A file without a recorded version is incompatible. -/
def compatibility (file : ClassFile) (version : Version) : Compatibility :=
  match file.compilerVersion with
  | some found => version.check found
  | none => .incompatible

def toJson (file : ClassFile) : Json :=
  .object [("name", .string file.name),
    ("encoded", .object (file.encoded.entries.map fun (compiler, text) => (compiler, .string text))),
    ("raw", .optional RawClass.toJson file.raw),
    ("source_last_modified", .nat file.sourceLastModified.toNat),
    ("compiler_version", .optional .string file.compilerVersion)]

def ofJson? (json : Json) : Option ClassFile := do
  let fields ← json.fields? ["name", "encoded", "raw", "source_last_modified", "compiler_version"]
  return {
    name := ← fields.required "name" Json.string?
    encoded := .ofList (← fields.withDefault "encoded" [] Json.stringMap?)
    raw := ← fields.optional "raw" RawClass.ofJson?
    sourceLastModified := ← fields.withDefault "source_last_modified" 0 Json.uint64?
    compilerVersion := ← fields.optional "compiler_version" Json.string? }

end ClassFile

structure ClassPath where
  files : Assoc String ClassFile := .empty
  deriving Repr, Inhabited

namespace ClassPath

def add (path : ClassPath) (file : ClassFile) : ClassPath := ⟨path.files.insert file.name file⟩

def ofList (files : List ClassFile) : ClassPath := files.foldl add {}

def dollarLast (name : List Char) : Option (List Char) :=
  (Text.splitLast '.' name).map fun (before, after) => before ++ '$' :: after

/-- A name of `n` characters has at most `n` dots. -/
def candidatesFrom : Nat → List Char → List (List Char)
  | 0, name => [name]
  | n + 1, name =>
    name :: match dollarLast name with
      | some next => candidatesFrom n next
      | none => []

/-- The binary names that a source name may have: `p.C.I`, `p.C$I`, `p$C$I`. -/
def candidates (name : String) : List String :=
  (candidatesFrom name.toList.length name.toList).map String.ofList

def find? (path : ClassPath) (name : String) : Option ClassFile :=
  (candidates name).findSome? path.files.find?

def packageExists (path : ClassPath) (name : String) : Bool :=
  path.files.keys.any fun file => isBelow name file

end ClassPath

end ClassUniverse
