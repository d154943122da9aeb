import ClassUniverse.Run

/-! Look-ups through the layered caches and the memos of a world. Both stand in front of something that
answers when they do not know a name. -/
namespace ClassUniverse

structure Backing where
  find : String → Run Named
  packageExists : String → Run Bool

namespace Cache

/-- Whatever is answered is remembered in the top layer. Below a package that does not exist there are no
packages. -/
def packageExists (slot : Slot) (backing : String → Run Bool) (name : String) : Run Bool := do
  let layers := (← get).cache slot
  match layers.knownPackage name with
  | some known => return known
  | none =>
    let present ←
      if (containerName? name).bind layers.knownPackage = some false then pure false
      else backing name
    Run.modifyCache slot (·.setPackage name present)
    return present

/-- A class cannot have the name of a package. -/
def install (slot : Slot) (backing : String → Run Bool) (name : String) (named : Named) : Run Unit := do
  if let .cls id := named then
    if ← packageExists slot backing name then
      throw (.typePackageClash name (← Run.record id).position)
  Run.modifyCache slot (·.insert name named)

def installEverywhere (slot : Slot) (backing : String → Run Bool) (name : String) (named : Named) :
    Run Unit := do
  install slot backing name named
  Run.modifyCache slot (·.insertBelow name named)

/-- Installs a class given with the classes around it. A top-level class brings its package along, a member
class under its source name the class around it. -/
def addNest (slot : Slot) (backing : String → Run Bool) : (name : String) → (nest : List ClassId) → Run Unit
  | _, [] => return ()
  | name, id :: around => do
    install slot backing name (.cls id)
    let w ← get
    let record := w.arena.get id
    match record.kind, record.package, containerName? name with
    | .topLevel, some package, container =>
      Run.modifyCache slot (·.addPackage package)
      if container = some package.fullName then
        Run.modifyCache slot (·.insert package.fullName (.package package))
    | .memberOf _, _, some container =>
      if name = w.arena.fullName id && ((w.cache slot).check container).isNone then
        addNest slot backing container around
    | _, _, _ => return ()

def addNamed (slot : Slot) (backing : String → Run Bool) (name : String) : Named → Run Unit
  | .cls id => do addNest slot backing name ((← Run.arena).nest id)
  | .package package => do
    install slot backing name (.package package)
    Run.modifyCache slot (·.addPackage package)

/-- An entity that the backing installed itself is not installed again. -/
def find (slot : Slot) (backing : Backing) (rememberMisses : Bool) (name : String) : Run Named := do
  match ((← get).cache slot).lookup name with
  | some (.found named) => return named
  | some .missing => throw (.notFound name)
  | none =>
    match ← (backing.find name).outcome with
    | .ok named =>
      if ((← get).cache slot).check name ≠ some named then addNamed slot backing.packageExists name named
      return named
    | .error e =>
      if e.isNotFoundFor name && rememberMisses then Run.modifyCache slot (·.insertMiss name)
      throw e

def fork (slot : Slot) : Run Unit := Run.modifyCache slot Layers.fork

def commit (slot : Slot) : Run Unit := do
  match ((← get).cache slot).commit? with
  | some layers => Run.modifyCache slot fun _ => layers
  | none => Run.fault .noForkedLayer

def discard (slot : Slot) : Run Unit := do
  match ((← get).cache slot).discard? with
  | some layers => Run.modifyCache slot fun _ => layers
  | none => Run.fault .noForkedLayer

end Cache

namespace Memo

def find (key : MemoKey) (backing : String → Run Named) (rememberMisses : Bool) (name : String) : Run Named := do
  match ((← get).memo key).find? name with
  | some (.found named) => return named
  | some .missing => throw (.notFound name)
  | none =>
    match ← (backing name).outcome with
    | .ok named =>
      Run.modifyMemo key (·.insert name (.found named))
      return named
    | .error e =>
      if e.isNotFoundFor name && rememberMisses then Run.modifyMemo key (·.insert name .missing)
      throw e

def check (key : MemoKey) (name : String) : Run (Option Named) :=
  return (((← get).memo key).find? name).bind Entry.named?

def install (key : MemoKey) (name : String) (named : Named) : Run Unit :=
  Run.modifyMemo key (·.insert name (.found named))

end Memo

namespace System

def knowsPackage (name : String) : Run Bool := do
  let w ← get
  return w.tableHasPackage .session name || w.sources.packageExists name || w.classPath.packageExists name

def packageExists (name : String) : Run Bool := Cache.packageExists .session knowsPackage name

def addNamed (name : String) (named : Named) : Run Unit := Cache.addNamed .session knowsPackage name named

end System

end ClassUniverse
