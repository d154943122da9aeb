import ClassUniverse.Scope

/-! JSON descriptions of what stands in a universe, for tools that look at it from outside. Nothing is
forced: a class is described as far as it is known. -/
namespace ClassUniverse

class Describe (α : Type) where
  describe : Arena → α → Json

export Describe (describe)

def Json.properties (values : List (String × Bool)) : List (String × Json) :=
  values.map fun (key, value) => (key, .bool value)

def Flags.properties (flags : Flags) : List (String × Json) :=
  Json.properties [
    ("empty", flags.isEmpty), ("public", flags.isPublic), ("private", flags.isPrivate),
    ("protected", flags.isProtected), ("package", flags.isPackage), ("static", flags.isStatic),
    ("final", flags.isFinal), ("interface", flags.isInterface), ("abstract", flags.isAbstract),
    ("native", flags.isNative)]

def Primitive.toJson (kind : Primitive) : Json :=
  .object [
    ("name", .string kind.name), ("descriptor", .string (String.singleton kind.letter)),
    ("numeric", .bool kind.isNumeric), ("integral", .bool kind.isIntegral),
    ("widens", .strings (kind.widensTo.map Primitive.name))]

def Ty.properties (type : Ty) : List (String × Json) :=
  Json.properties [
    ("canonical", type.isCanonical), ("primitive", type.isPrimitive), ("numeric", type.isNumeric),
    ("void", type.isVoid), ("null", type.isNull), ("reference", type.isReference), ("class", type.isClass)]

def Compatibility.word : Compatibility → String
  | .compatible => "compatible"
  | .minorIncompatible => "minor"
  | .incompatible => "incompatible"

namespace Arena

/-- Classes of one name are told apart by their places. -/
def classText (arena : Arena) (id : ClassId) : String := arena.fullName id ++ id.text

def typeText (arena : Arena) : Ty → String
  | .primitive kind => kind.name
  | .null => "null"
  | .array base => arena.typeText base ++ "[]"
  | .cls id => arena.classText id
  | .package p => "package " ++ p.fullName
  | .unknown name => "?" ++ name

end Arena

namespace Describe

instance : Describe Bool := ⟨fun _ b => .bool b⟩
instance : Describe Nat := ⟨fun _ n => .nat n⟩
instance : Describe String := ⟨fun _ text => .string text⟩
instance : Describe Flags := ⟨fun _ flags => .string flags.text⟩
instance : Describe Compatibility := ⟨fun _ compatibility => .string compatibility.word⟩
instance : Describe Position := ⟨fun _ position => .string position.text⟩
instance : Describe Package := ⟨fun _ p => .string p.fullName⟩
instance : Describe JobId := ⟨fun _ job => .string job.text⟩
instance : Describe Stage := ⟨fun _ stage => .string stage.text⟩
instance : Describe Goal := ⟨fun _ goal => .string goal.text⟩
instance : Describe ClassId := ⟨fun arena id => .string (arena.classText id)⟩
instance : Describe Ty := ⟨fun arena type => .string (arena.typeText type)⟩

instance : Describe Named where
  describe
    | arena, .cls id => describe arena id
    | _, .package p => .string ("package " ++ p.fullName)

instance [Describe α] : Describe (Option α) := ⟨fun arena => .optional (describe arena)⟩
instance [Describe α] : Describe (List α) := ⟨fun arena => .list (describe arena)⟩

instance [Describe α] [Describe β] : Describe (α × β) where
  describe arena pair := .array [describe arena pair.1, describe arena pair.2]

instance : Describe Stages := ⟨fun arena stages => describe arena stages.toList⟩

end Describe

def Field.members (arena : Arena) (f : Field) : List (String × Json) := [
  ("field", .string f.name),
  ("type", describe arena f.type),
  ("flags", describe arena f.flags),
  ("container", describe arena f.container),
  ("position", describe arena f.position),
  ("canonical", .bool f.isCanonical)]

def Procedure.members (arena : Arena) (p : Procedure) : List (String × Json) := [
  ("flags", describe arena p.flags),
  ("container", describe arena p.container),
  ("position", describe arena p.position),
  ("params", describe arena p.formals),
  ("throws", describe arena p.throws)]

def Method.members (arena : Arena) (m : Method) : List (String × Json) :=
  [("method", .string m.name), ("returns", describe arena m.returns), ("canonical", .bool m.isCanonical)] ++
    m.toProcedure.members arena

def Constructor.members (arena : Arena) (c : Constructor) : List (String × Json) :=
  [("constructor", .string c.name), ("canonical", .bool c.isCanonical)] ++ c.toProcedure.members arena

def Local.members (arena : Arena) (v : Local) : List (String × Json) :=
  [("local", .string v.name), ("type", describe arena v.type), ("flags", describe arena v.flags)]

def Var.members (arena : Arena) : Var → List (String × Json)
  | .localVar v => v.members arena
  | .field f => f.members arena

def Code.members (arena : Arena) : Code → List (String × Json)
  | .method m => m.members arena
  | .constructor c => c.members arena
  | .initializer _ => [("initializer", .bool true)]

namespace Describe

instance : Describe Field := ⟨fun arena f => .object (f.members arena)⟩
instance : Describe Method := ⟨fun arena m => .object (m.members arena)⟩
instance : Describe Constructor := ⟨fun arena c => .object (c.members arena)⟩
instance : Describe Local := ⟨fun arena v => .object (v.members arena)⟩

instance : Describe InitializerBlock where
  describe arena b :=
    .object [("initializer", describe arena b.flags), ("container", describe arena b.container)]

/-- A variable of either kind, with what both kinds have. -/
instance : Describe Var where
  describe arena v := .object (v.members arena ++ [("var", describe arena (v.name, v.type))])

instance : Describe Code where
  describe arena code :=
    .object (code.members arena ++ [("code", .array
      [describe arena code.flags, describe arena code.container, .bool code.isStatic])])

instance : Describe Member where
  describe
    | arena, .localVar v => describe arena v
    | arena, .field f => describe arena f
    | arena, .method m => describe arena m
    | arena, .constructor c => describe arena c
    | arena, .initializer b => describe arena b

end Describe

/-- Whether two members are the same, and what else they share. -/
def Member.describeComparison (a b : Member) : Json :=
  let distinct := ("distinct", Json.nat (if a.same b then 1 else 2))
  .array [.bool (a.same b), match a, b with
    | .field _, .field _ => .object [distinct]
    | .method m, .method n => .object [
      ("same_method", .bool (m.sameSignature n)), ("formals", .bool (m.formals == n.formals)), distinct]
    | .constructor c, .constructor d => .object [("formals", .bool (c.formals == d.formals)), distinct]
    | _, _ => .null]

def ClassKind.word : ClassKind → String
  | .topLevel => "top"
  | .memberOf _ => "member"
  | .localTo _ => "local"
  | .anonymousIn _ => "anonymous"

namespace Arena

def describeType (arena : Arena) (type : Ty) : Json :=
  .object <| [
    ("show", describe arena type),
    ("name", .string (arena.typeName type)),
    ("base", describe arena type.base?),
    ("ultimate", describe arena type.ultimateBase)] ++ type.properties

end Arena

namespace Describe

instance : Describe ImportTable where
  describe arena table := .object [
    ("package", describe arena table.package),
    ("classes", .strings table.classes),
    ("packages", .strings table.packages)]

end Describe

namespace World

def describeFile (w : World) (file : ClassFile) : Json :=
  .object [
    ("name", .string file.name),
    ("modified", .nat file.sourceLastModified.toNat),
    ("version", describe w.arena file.compilerVersion),
    ("encoded", .bool (file.metadata? w.config.version).isSome),
    ("raw", .bool file.raw.isSome)]

def describeClass (w : World) (id : ClassId) : Json :=
  let arena := w.arena
  let record := arena.get id
  .object [
    ("id", .string id.text),
    ("name", .string record.name),
    ("full", .string (arena.fullName id)),
    ("binary", describe arena (arena.binaryName? id)),
    ("file_name", describe arena record.fileName),
    ("kind", .string record.kind.word),
    ("outers", describe arena (arena.outers id)),
    ("top", describe arena (arena.topLevelOf id)),
    ("flags", describe arena record.flags),
    ("package", describe arena record.package),
    ("position", describe arena record.position),
    ("static_context", .bool record.inStaticContext),
    ("inner", .bool (arena.isInner id)),
    ("root", .bool (w.isRoot id)),
    ("job", describe arena record.job),
    ("stages", describe arena record.stages),
    ("complete", .bool record.stages.isComplete),
    ("signatures_canonical", .bool record.signaturesCanonical),
    ("super", describe arena record.superType),
    ("interfaces", describe arena record.interfaces),
    ("members", describe arena record.members),
    ("fields", describe arena record.fields),
    ("methods", describe arena record.methods),
    ("constructors", describe arena record.constructors),
    ("initializers", describe arena (record.initializers.map InitializerBlock.flags))]

def describeClasses (w : World) : Json :=
  .list (fun id =>
    let record := w.arena.get id
    .array [describe w.arena id, .string record.kind.word, describe w.arena record.flags,
      .nat record.stages.toList.length, describe w.arena record.superType,
      describe w.arena record.interfaces]) w.arena.ids

def describeJobs (w : World) : Json :=
  .list (fun job => describe w.arena (job, (w.schedule.source? job).map SourceFile.path)) w.schedule.jobIds

def describeGoal (w : World) (goal : Goal) : List (String × Json) := [
  ("reached", .bool (w.reached goal)),
  ("runs", .nat (w.schedule.runsOf goal)),
  ("prerequisites", describe w.arena (w.schedule.prerequisitesOf goal)),
  ("concurrent", describe w.arena (w.schedule.concurrentWith goal))]

def describeScope (w : World) (scope : Scope) : Json :=
  .object [
    ("depth", .nat scope.depth),
    ("class", describe w.arena scope.currentClass?),
    ("code", describe w.arena scope.currentCode?),
    ("static", .bool scope.innermost.isStatic),
    ("package", describe w.arena (scope.package? w))]

end World

end ClassUniverse
