import ClassUniverse.Import
import ClassUniverse.Loaded

/-! Resolvers: ways to find what a name stands for, put together from a few parts. -/
namespace ClassUniverse

inductive Resolver where
  | table (slot : Slot)
  | nowhere
  /-- The second is asked only when the first does not know the very name. -/
  | orElse (first second : Resolver)
  /-- The class path. -/
  | loaded
  /-- Sources, with the class path behind them. -/
  | sourced
  | cached (slot : Slot) (rememberMisses : Bool) (inner : Resolver)
  | memo (key : MemoKey) (rememberMisses : Bool) (inner : Resolver)
  | membersOf (id : ClassId)
  | inPackage (package : Package)
  | imports (key : ImportKey)
  deriving Repr, Inhabited

namespace Resolver

def firstOf (resolvers : List Resolver) : Resolver := resolvers.foldr .orElse .nowhere

/-- Resolvers of short names know no packages. -/
def packageExists : Resolver → String → Run Bool
  | .table slot, name => return (← get).tableHasPackage slot name
  | .orElse first second, name => do if ← first.packageExists name then return true else second.packageExists name
  | .loaded, name => return (← get).classPath.packageExists name
  | .sourced, name => do
    let w ← get
    return w.sources.packageExists name || w.classPath.packageExists name
  | .cached slot _ inner, name => Cache.packageExists slot inner.packageExists name
  | _, _ => return false

def find (l : Loader) : Resolver → String → Run Named
  | .table slot, name => do
    match ((← get).table slot).find? name with
    | some named => return named
    | none => throw (.notFound name)
  | .nowhere, name => throw (.notFound name)
  | .orElse first second, name => do
    match ← (first.find l name).outcome with
    | .ok named => return named
    | .error e => if e.isNotFoundFor name then second.find l name else throw e
  | .loaded, name => l.findLoaded name
  | .sourced, name => l.findSourced name
  | .cached slot rememberMisses inner, name =>
    Cache.find slot ⟨inner.find l, inner.packageExists⟩ rememberMisses name
  | .memo key rememberMisses inner, name => Memo.find key (inner.find l) rememberMisses name
  | .membersOf id, name => return .cls (← l.memberClass id name none)
  | .inPackage package, name => l.findInPackage package name none
  | .imports key, name => ImportTable.find l key name

/-- Declared classes, then sources and the class path. -/
def session : Resolver := firstOf [.table .session, .sourced]

/-- The session's cache in front of everything. -/
def system (config : Config) : Resolver := .cached .session config.cacheNotFound session

end Resolver

namespace Loader

/-- Marks all stages of a class and of its member classes. -/
def completeNest : (steps : Nat) → ClassId → Run Unit
  | 0, _ => Run.exhausted
  | steps + 1, id => do
    Run.update id (·.markStages Stage.all)
    (← Run.record id).members.forM (completeNest steps)

/-- A stage of a class from a source is produced by its goal; only canonical signatures need no work. -/
def checkScheduled (id : ClassId) (stage : Stage) : Run Unit := do
  let record ← Run.record id
  if record.stages.has stage then return ()
  else if stage = .signaturesResolved && record.stages.has .membersAdded && record.signaturesCanonical then
    Run.mark id stage
  else throw (.missingDependency (.reach id stage))

def complete (l : Loader) (id : ClassId) (stage : Stage) : Option Completion → Run Unit
  | none | some .decoded => Run.mark id stage
  | some .scheduled => checkScheduled id stage
  | some .assembled => completeNest l.depth id
  | some (.derived file) => file.derive l id stage

/-- The stages before it come first. -/
def ensureStage (l : Loader) (id : ClassId) (stage : Stage) : Run Unit := do
  unless (← get).hasStage id stage do
    stage.prerequisites.forM (l.ensure id)
    l.complete id stage (← Run.record id).completion

/-- A loader that nests at most `depth` look-ups and completions. Each level is made when it is used, so
that depth costs nothing by itself. -/
def ofDepth : (depth : Nat) → Loader
  | 0 => ⟨0, fun _ => Run.exhausted, fun _ _ => Run.exhausted⟩
  | depth + 1 =>
    { depth
      find := fun name => do (Resolver.system (← get).config).find (ofDepth depth) name
      ensure := fun id stage => (ofDepth depth).ensureStage id stage }

end Loader

end ClassUniverse
