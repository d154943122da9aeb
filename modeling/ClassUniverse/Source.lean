import ClassUniverse.Assoc
import ClassUniverse.Flags
import ClassUniverse.Position
import ClassUniverse.Text.Dotted

/-! Source files: what a compilation unit declares, with all types as they are written. -/
namespace ClassUniverse

structure FieldDecl where
  name : String
  flags : Flags := .none
  type : String
  deriving DecidableEq, Repr, Inhabited

structure MethodDecl where
  name : String
  flags : Flags := .none
  returns : String := "void"
  params : List String := []
  throws : List String := []
  deriving DecidableEq, Repr, Inhabited

structure ConstructorDecl where
  flags : Flags := .none
  params : List String := []
  throws : List String := []
  deriving DecidableEq, Repr, Inhabited

structure ClassDecl where
  name : String
  flags : Flags := .none
  superclass : Option String := none
  interfaces : List String := []
  fields : List FieldDecl := []
  methods : List MethodDecl := []
  constructors : List ConstructorDecl := []
  members : List ClassDecl := []
  line : UInt32 := 0
  deriving Repr, Inhabited

structure SourceFile where
  path : String
  package : Option String := none
  /-- `a.b.C` imports one class, `a.b.*` a package on demand. -/
  imports : List String := []
  lastModified : UInt64 := 0
  classes : List ClassDecl := []
  deriving Repr, Inhabited

namespace FieldDecl

def toJson (d : FieldDecl) : Json :=
  .object [("name", .string d.name), ("flags", d.flags.toJson), ("type", .string d.type)]

def ofJson? (json : Json) : Option FieldDecl := do
  let fields ← json.fields? ["name", "flags", "type"]
  return {
    name := ← fields.required "name" Json.string?
    flags := ← fields.withDefault "flags" .none Flags.ofJson?
    type := ← fields.required "type" Json.string? }

end FieldDecl

namespace MethodDecl

def toJson (d : MethodDecl) : Json :=
  .object [("name", .string d.name), ("flags", d.flags.toJson), ("returns", .string d.returns),
    ("params", .strings d.params), ("throws", .strings d.throws)]

def ofJson? (json : Json) : Option MethodDecl := do
  let fields ← json.fields? ["name", "flags", "returns", "params", "throws"]
  return {
    name := ← fields.required "name" Json.string?
    flags := ← fields.withDefault "flags" .none Flags.ofJson?
    returns := ← fields.withDefault "returns" "void" Json.string?
    params := ← fields.list "params" Json.string?
    throws := ← fields.list "throws" Json.string? }

end MethodDecl

namespace ConstructorDecl

def toJson (d : ConstructorDecl) : Json :=
  .object [("flags", d.flags.toJson), ("params", .strings d.params), ("throws", .strings d.throws)]

def ofJson? (json : Json) : Option ConstructorDecl := do
  let fields ← json.fields? ["flags", "params", "throws"]
  return {
    flags := ← fields.withDefault "flags" .none Flags.ofJson?
    params := ← fields.list "params" Json.string?
    throws := ← fields.list "throws" Json.string? }

end ConstructorDecl

namespace ClassDecl

def keys : List String :=
  ["name", "flags", "extends", "implements", "fields", "methods", "constructors", "members", "line"]

mutual

def toJson : ClassDecl → Json
  | ⟨name, flags, superclass, interfaces, fields, methods, constructors, members, line⟩ =>
    .object [("name", .string name), ("flags", flags.toJson), ("extends", .optional .string superclass),
      ("implements", .strings interfaces), ("fields", .list FieldDecl.toJson fields),
      ("methods", .list MethodDecl.toJson methods), ("constructors", .list ConstructorDecl.toJson constructors),
      ("members", .array (toJsons members)), ("line", .nat line.toNat)]

def toJsons : List ClassDecl → List Json
  | [] => []
  | decl :: rest => decl.toJson :: toJsons rest

end

/-- Member declarations nest at most `depth` deep. -/
def ofJsonWithin? : (depth : Nat) → Json → Option ClassDecl
  | 0, _ => none
  | depth + 1, json => do
    let fields ← json.fields? keys
    return {
      name := ← fields.required "name" Json.string?
      flags := ← fields.withDefault "flags" .none Flags.ofJson?
      superclass := ← fields.optional "extends" Json.string?
      interfaces := ← fields.list "implements" Json.string?
      fields := ← fields.list "fields" FieldDecl.ofJson?
      methods := ← fields.list "methods" MethodDecl.ofJson?
      constructors := ← fields.list "constructors" ConstructorDecl.ofJson?
      members := ← fields.list "members" (ofJsonWithin? depth)
      line := ← fields.withDefault "line" 0 Json.uint32? }

def ofJson? (json : Json) : Option ClassDecl := ofJsonWithin? json.depth json

mutual

/-- Full names of the class and of all classes in it, members before their class. -/
def declaredNames (container : String) : ClassDecl → List String
  | ⟨name, _, _, _, _, _, _, members, _⟩ =>
    let full := if container.isEmpty then name else qualify container name
    declaredNamesOf full members ++ [full]

def declaredNamesOf (container : String) : List ClassDecl → List String
  | [] => []
  | decl :: rest => decl.declaredNames container ++ declaredNamesOf container rest

end

end ClassDecl

namespace SourceFile

def toJson (s : SourceFile) : Json :=
  .object [("path", .string s.path), ("package", .optional .string s.package), ("imports", .strings s.imports),
    ("last_modified", .nat s.lastModified.toNat), ("classes", .list ClassDecl.toJson s.classes)]

def ofJson? (json : Json) : Option SourceFile := do
  let fields ← json.fields? ["path", "package", "imports", "last_modified", "classes"]
  return {
    path := ← fields.required "path" Json.string?
    package := ← fields.optional "package" Json.string?
    imports := ← fields.list "imports" Json.string?
    lastModified := ← fields.withDefault "last_modified" 0 Json.uint64?
    classes := ← fields.list "classes" ClassDecl.ofJson? }

def declaredNames (s : SourceFile) : List String := ClassDecl.declaredNamesOf (s.package.getD "") s.classes

def position (s : SourceFile) : Position := { file := s.path }

end SourceFile

/-- Sources found by the classes they declare; a later file wins. -/
structure SourceSet where
  byClass : Assoc String SourceFile := .empty
  packages : List String := []
  deriving Repr, Inhabited

namespace SourceSet

def add (set : SourceSet) (source : SourceFile) : SourceSet where
  byClass := source.declaredNames.foldl (fun (m : Assoc String SourceFile) name => m.insert name source) set.byClass
  packages := set.packages ++ source.package.toList

def ofList (sources : List SourceFile) : SourceSet := sources.foldl add {}

def find? (set : SourceSet) (name : String) : Option SourceFile := set.byClass.find? name

def packageExists (set : SourceSet) (name : String) : Bool :=
  set.packages.any fun package => package == name || isBelow name package

end SourceSet

end ClassUniverse
