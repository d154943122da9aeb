import ClassUniverse.Ancestor
import ClassUniverse.Session

/-! The queries of the command line. -/
namespace ClassUniverse

inductive Query where
  | dump (cls : String)
  | subtype (a b : String)
  | cast (a b : String)
  | leastCommonAncestor (a b : String)
  | call (cls method : String) (args : List String) (accessor : Option String)
  | encode (cls : String)
  deriving DecidableEq, Repr

namespace Query

/-- A word with a leading dash; a dash alone is an ordinary word. -/
def isOption (word : String) : Bool := word.toList.head? = some '-' && word ≠ "-"

/-- A word that may stand where a value is expected. -/
def value? (word : String) : Option String := if isOption word then none else some word

/-- The accessor among the words of a query, which is given at most once. The first `--` ends the options:
it is dropped, and every word after it is a value. -/
def splitAccessor? : List String → Option (List String × Option String)
  | [] => some ([], none)
  | "--" :: rest => some (rest, none)
  | "--from" :: accessor :: rest => do
    let (values, none) ← splitAccessor? rest | none
    return (values, some (← value? accessor))
  | word :: rest => do
    let (values, accessor) ← splitAccessor? rest
    match Text.stripStart "--from=".toList word.toList, accessor with
    | none, _ => return ((← value? word) :: values, accessor)
    | some given, none => return (values, some (String.ofList given))
    | some _, some _ => none

/-- Only calls have an accessor. -/
def ofArgs? : List String → Option Query
  | [] => none
  | command :: rest => do
    match command, ← splitAccessor? rest with
    | "dump", ([cls], none) => return .dump cls
    | "subtype", ([a, b], none) => return .subtype a b
    | "cast", ([a, b], none) => return .cast a b
    | "lca", ([a, b], none) => return .leastCommonAncestor a b
    | "call", (cls :: method :: args, accessor) => return .call cls method args accessor
    | "encode", ([cls], none) => return .encode cls
    | _, _ => none

/-- Words with one space between them; an empty word keeps its space. -/
def line (words : List String) : String := " ".intercalate words

def dumpMethod (arena : Arena) (m : Method) : String :=
  let thrown := if m.throws.isEmpty then "" else " throws " ++ ", ".intercalate (arena.typeNames m.throws)
  "  " ++ line [m.flags.text, arena.typeName m.returns, arena.signature m.toProcedure] ++ thrown

def dumpClass (l : Loader) (id : ClassId) : Run (List String) := do
  let superType ← l.superType id
  let interfaces ← l.interfaces id
  let members ← l.memberClasses id
  let fields ← l.fields id
  let constructors ← l.constructors id
  let methods ← l.methods id
  let arena ← Run.arena
  let record := arena.get id
  return [line [record.flags.text, record.kind.text, "class", arena.fullName id]] ++
    superType.toList.map (fun type => "  extends " ++ arena.typeName type) ++
    (if interfaces.isEmpty then [] else ["  implements " ++ ", ".intercalate (arena.typeNames interfaces)]) ++
    members.map (fun member => "  class " ++ arena.fullName member) ++
    fields.map (fun f => "  " ++ line [f.flags.text, arena.typeName f.type, f.name]) ++
    constructors.map (fun c => "  " ++ line [c.flags.text, arena.signature c.toProcedure]) ++
    methods.map (dumpMethod arena)

def boolText (b : Bool) : String := if b then "true" else "false"

/-- The lines of the answer. A failed search for the method of a call is told with the call. -/
def answer (engine : Engine) : Query → Run (Except String (List String))
  | .dump cls => do
    let id ← engine.classNamed cls
    engine.compileAll
    engine.require (engine.loader.ensureAllMembers id)
    return .ok (← dumpClass engine.loader id)
  | .subtype a b => do
    let a ← engine.typeNamed a
    let b ← engine.typeNamed b
    return .ok [boolText (← engine.loader.isSubtype a b)]
  | .cast a b => do
    let a ← engine.typeNamed a
    let b ← engine.typeNamed b
    let implicit ← engine.loader.isImplicitCastValid a b
    let explicit ← engine.loader.isCastValid a b
    return .ok ["implicit: " ++ boolText implicit ++ ", explicit: " ++ boolText explicit]
  | .leastCommonAncestor a b => do
    let a ← engine.typeNamed a
    let b ← engine.typeNamed b
    return .ok [← Run.typeName (← engine.loader.leastCommonAncestor a b)]
  | .call cls method args accessor => do
    let container := Ty.cls (← engine.classNamed cls)
    let args ← args.mapM engine.typeNamed
    let accessor ← accessor.mapM engine.classNamed
    engine.compileAll
    match ← (engine.require (engine.loader.findMethod container method args accessor)).outcome with
    | .ok m =>
      let arena ← Run.arena
      return .ok [line [m.flags.text, arena.typeName m.returns,
        qualify (arena.typeName m.container) (arena.signature m.toProcedure)]]
    | .error e => return .error ("resolving " ++ qualify cls method ++ ": " ++ e.message)
  | .encode cls => do
    let id ← engine.classNamed cls
    engine.compileAll
    return .ok [← engine.loader.encode id]

end Query

structure Report where
  exitCode : Nat
  output : String := ""
  errors : String := ""
  deriving DecidableEq, Repr

namespace Report

def success (lines : List String) : Report :=
  { exitCode := 0, output := String.join (lines.map (· ++ "\n")) }

def failure (message : String) : Report := { exitCode := 1, errors := "error: " ++ message ++ "\n" }

end Report

/-- The report on a query, unless the depth of the engine does not suffice. -/
def Query.report? (engine : Engine) (query : Query) (w : World) : Option Report := do
  let (outcome, _) ← (query.answer engine).run w
  return match outcome with
    | .ok (.ok lines) => .success lines
    | .ok (.error message) => .failure message
    | .error e => .failure e.message

end ClassUniverse
