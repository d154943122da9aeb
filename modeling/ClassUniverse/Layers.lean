import ClassUniverse.Assoc
import ClassUniverse.Ty

/-! Caches of names in layers. The top layer takes all changes; a forked layer keeps a log of what it
added, to be replayed below when it is committed. -/
namespace ClassUniverse

inductive Entry where
  | found (named : Named)
  | missing
  deriving DecidableEq, Repr, Inhabited

def Entry.named? : Entry → Option Named
  | .found named => some named
  | .missing => none

structure Layer where
  cache : Assoc String Entry := .empty
  /-- Packages known to exist or not to exist. -/
  packages : Assoc String Bool := .empty
  added : List (String × Named) := []
  deriving Repr, Inhabited

namespace Layer

def put (layer : Layer) (name : String) (entry : Entry) : Layer :=
  { layer with cache := layer.cache.insert name entry }

def record (layer : Layer) (name : String) (named : Named) : Layer :=
  { layer.put name (.found named) with added := layer.added ++ [(name, named)] }

def setPackage (layer : Layer) (name : String) (present : Bool) : Layer :=
  { layer with packages := layer.packages.insert name present }

def holds (layer : Layer) (name : String) (named : Named) : Bool := layer.cache.find? name == some (.found named)

end Layer

structure Layers where
  base : Layer := {}
  /-- Forked layers, the top one first. -/
  overlays : List Layer := []
  deriving Repr, Inhabited

namespace Layers

def depth (layers : Layers) : Nat := layers.overlays.length + 1

def toList (layers : Layers) : List Layer := layers.overlays ++ [layers.base]

def lookup (layers : Layers) (name : String) : Option Entry :=
  layers.toList.findSome? fun layer => layer.cache.find? name

def check (layers : Layers) (name : String) : Option Named := (layers.lookup name).bind Entry.named?

def knownPackage (layers : Layers) (name : String) : Option Bool :=
  layers.toList.findSome? fun layer => layer.packages.find? name

def top (layers : Layers) : Layer := layers.overlays.head?.getD layers.base

def modifyTop (layers : Layers) (change : Layer → Layer) : Layers :=
  match layers.overlays with
  | [] => { layers with base := change layers.base }
  | layer :: rest => { layers with overlays := change layer :: rest }

/-- Only forked layers log what they add. -/
def insert (layers : Layers) (name : String) (named : Named) : Layers :=
  match layers.overlays with
  | [] => { layers with base := layers.base.put name (.found named) }
  | layer :: rest => { layers with overlays := layer.record name named :: rest }

def insertMiss (layers : Layers) (name : String) : Layers := layers.modifyTop (·.put name .missing)

def insertAll (layers : Layers) (entries : List (String × Named)) : Layers :=
  entries.foldl (fun (layers : Layers) entry => layers.insert entry.1 entry.2) layers

/-- Below the top layer, which has the entry already. -/
def insertBelow (layers : Layers) (name : String) (named : Named) : Layers :=
  match layers.overlays with
  | [] => layers
  | layer :: rest =>
    { base := layers.base.put name (.found named)
      overlays := layer :: rest.map (·.record name named) }

def holdsEverywhere (layers : Layers) (name : String) (named : Named) : Bool :=
  layers.toList.all (·.holds name named)

def setPackage (layers : Layers) (name : String) (present : Bool) : Layers :=
  layers.modifyTop (·.setPackage name present)

/-- The package exists, and so do all packages around it. -/
def addPackage (layers : Layers) (package : Package) : Layers :=
  (package :: package.enclosings).foldl (fun (layers : Layers) p => layers.setPackage p.fullName true) layers

def fork (layers : Layers) : Layers := { layers with overlays := {} :: layers.overlays }

/-- Replays the log below and keeps the packages that exist; misses are forgotten. -/
def commit? (layers : Layers) : Option Layers :=
  match layers.overlays with
  | [] => none
  | layer :: rest =>
    let below : Layers := { layers with overlays := rest }.insertAll layer.added
    let present := layer.packages.entries.filter (·.2)
    some (present.foldl (fun (layers : Layers) entry => layers.setPackage entry.1 true) below)

def discard? (layers : Layers) : Option Layers :=
  match layers.overlays with
  | [] => none
  | _ :: rest => some { layers with overlays := rest }

def clearAdded (layers : Layers) : Layers := layers.modifyTop fun layer => { layer with added := [] }

end Layers

/-- Remembered look-ups of a resolver without layers. -/
abbrev Memo := Assoc String Entry

end ClassUniverse
