import ClassUniverse.Assoc
import ClassUniverse.Position
import ClassUniverse.Ty

/-! The imports of one compilation unit. Imported classes stay names until a short name is looked up, so
that a table can be made without loading anything. -/
namespace ClassUniverse

structure ImportTable where
  package : Option Package := none
  position : Option Position := none
  classes : List String := []
  packages : List String := []
  defaults : List String := []
  /-- Imported classes by short name: the full name and what it stands for. -/
  imported : Assoc String (String × Named) := .empty
  materialized : Bool := false
  memo : Assoc String Named := .empty
  deriving Repr, Inhabited

namespace ImportTable

def addClass (table : ImportTable) (name : String) : ImportTable :=
  { table with classes := table.classes ++ [name], materialized := false }

def addPackage (table : ImportTable) (name : String) : ImportTable :=
  if table.packages.contains name then table else { table with packages := table.packages ++ [name] }

def onDemand? (written : String) : Option String :=
  match written.toList.reverse with
  | '*' :: '.' :: rest => some (String.ofList rest.reverse)
  | _ => none

def add (table : ImportTable) (written : String) : ImportTable :=
  match onDemand? written with
  | some package => table.addPackage package
  | none => table.addClass written

/-- Packages to search for a short name: the unit's own, the defaults, then the imports on demand. -/
def searched (table : ImportTable) : List String :=
  (table.package.map Package.fullName).toList ++ table.defaults ++ table.packages

def remember (table : ImportTable) (name : String) (named : Named) : ImportTable :=
  { table with memo := table.memo.insert name named }

end ImportTable

end ClassUniverse
