import ClassUniverse.Json.Parser
import ClassUniverse.Json.Printer
import ClassUniverse.Source

/-! The document about one class that its compiled file carries. Types are written as source names, classes
of its own nest as binary names. -/
namespace ClassUniverse

structure Metadata where
  version : String
  name : String
  outer : Option String := none
  flags : Flags := .none
  superType : Option String := none
  interfaces : List String := []
  fields : List FieldDecl := []
  methods : List MethodDecl := []
  constructors : List ConstructorDecl := []
  memberClasses : List String := []
  deriving DecidableEq, Repr, Inhabited

namespace Metadata

def toJson (m : Metadata) : Json :=
  .object [("version", .string m.version), ("name", .string m.name), ("outer", .optional .string m.outer),
    ("flags", m.flags.toJson), ("super_type", .optional .string m.superType), ("interfaces", .strings m.interfaces),
    ("fields", .list FieldDecl.toJson m.fields), ("methods", .list MethodDecl.toJson m.methods),
    ("constructors", .list ConstructorDecl.toJson m.constructors), ("member_classes", .strings m.memberClasses)]

def ofJson? (json : Json) : Option Metadata := do
  let fields ← json.fields? ["version", "name", "outer", "flags", "super_type", "interfaces", "fields",
    "methods", "constructors", "member_classes"]
  return {
    version := ← fields.required "version" Json.string?
    name := ← fields.required "name" Json.string?
    outer := ← fields.optional "outer" Json.string?
    flags := ← fields.withDefault "flags" .none Flags.ofJson?
    superType := ← fields.optional "super_type" Json.string?
    interfaces := ← fields.list "interfaces" Json.string?
    fields := ← fields.list "fields" FieldDecl.ofJson?
    methods := ← fields.list "methods" MethodDecl.ofJson?
    constructors := ← fields.list "constructors" ConstructorDecl.ofJson?
    memberClasses := ← fields.list "member_classes" Json.string? }

def render (m : Metadata) : String := m.toJson.render

def parse? (text : String) : Option Metadata := (Json.parse? text).bind ofJson?

end Metadata

end ClassUniverse
