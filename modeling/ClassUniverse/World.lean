import ClassUniverse.Arena
import ClassUniverse.Config
import ClassUniverse.ImportTable
import ClassUniverse.Layers
import ClassUniverse.Schedule
import ClassUniverse.Universe

/-! Everything that a session can change. The session has one table of declared classes and one layered
cache in front of everything else; further ones may be made beside them. -/
namespace ClassUniverse

abbrev Table := Assoc String Named

inductive Slot where
  | session
  | extra (index : Nat)
  deriving DecidableEq, Repr, Inhabited

inductive MemoKey where
  | membersOf (id : ClassId)
  | extra (index : Nat)
  deriving DecidableEq, Repr

inductive ImportKey where
  | unit (job : JobId)
  | extra (index : Nat)
  deriving DecidableEq, Repr

structure World where
  config : Config := {}
  arena : Arena := {}
  /-- The root class, once it has been looked up. -/
  root : Option ClassId := none
  classPath : ClassPath := {}
  sources : SourceSet := {}
  tables : Assoc Slot Table := .empty
  caches : Assoc Slot Layers := .empty
  memos : Assoc MemoKey Memo := .empty
  imports : Assoc ImportKey ImportTable := .empty
  schedule : Schedule := {}
  declarations : Assoc ClassId ClassDecl := .empty
  notes : List String := []
  deriving Repr, Inhabited

namespace World

def table (w : World) (slot : Slot) : Table := w.tables.getD slot .empty

def cache (w : World) (slot : Slot) : Layers := w.caches.getD slot {}

def system (w : World) : Layers := w.cache .session

def memo (w : World) (key : MemoKey) : Memo := w.memos.getD key .empty

def importTable (w : World) (key : ImportKey) : ImportTable := w.imports.getD key {}

/-- Once the root class is known only that class is the root; before, the name decides. -/
def isRoot (w : World) (id : ClassId) : Bool :=
  match w.root with
  | some root => root == id
  | none => (w.arena.get id).kind.isTopLevel && w.arena.fullName id == w.config.rootClass

def isArrayInterface (w : World) (id : ClassId) : Bool :=
  w.config.arrayInterfaces.contains (w.arena.fullName id)

def hasStage (w : World) (id : ClassId) (stage : Stage) : Bool := (w.arena.get id).stages.has stage

def reached (w : World) : Goal → Bool
  | .typesInitialized job => w.schedule.initialized.contains job
  | .reach id stage => w.hasStage id stage

/-- Packages of the classes in a table, and the packages around them. -/
def tableHasPackage (w : World) (slot : Slot) (name : String) : Bool :=
  (w.table slot).values.any fun named =>
    match named.class?.bind fun id => (w.arena.get id).package with
    | some package => (package :: package.enclosings).any fun p => p.fullName == name
    | none => false

def ofUniverse (config : Config) (declared : Universe) : World where
  config
  classPath := .ofList declared.classFiles
  sources := .ofList declared.sources

end World

end ClassUniverse
