import ClassUniverse.Access

/-! Short names as a compilation unit, a package or a class sees them. -/
namespace ClassUniverse

namespace ImportTable

/-- Looks up the imported classes that are not known yet. Two imports with one short name must mean the same
thing. -/
def lookUpClasses (l : Loader) (key : ImportKey) : List String → Run Unit
  | [] => return ()
  | full :: rest => do
    let short := shortName full
    let table := (← get).importTable key
    if (table.imported.find? short).map (·.1) = some full then lookUpClasses l key rest
    else
      let named ← l.find full
      match ((← get).importTable key).imported.find? short with
      | some (previous, other) =>
        if other ≠ named then throw (.importConflict full previous table.position)
      | none => pure ()
      Run.modifyImports key fun table => { table with imported := table.imported.insert short (full, named) }
      lookUpClasses l key rest

def materialize (l : Loader) (key : ImportKey) : Run Unit := do
  let table := (← get).importTable key
  unless table.materialized do
    lookUpClasses l key table.classes
    Run.modifyImports key fun table => { table with materialized := true }

/-- A class must be visible from the package of the unit; packages always are. -/
def isVisible (table : ImportTable) (arena : Arena) : Named → Bool
  | .cls id => arena.classVisible id table.package
  | .package _ => true

def searchPackages (l : Loader) (table : ImportTable) (name : String) : List String → Run (Option Named)
  | [] => return none
  | package :: rest => do
    let full := qualify package name
    match ← (l.find full).outcome with
    | .ok named =>
      if table.isVisible (← Run.arena) named then return some named else searchPackages l table name rest
    | .error e => if e.isNotFoundFor full then searchPackages l table name rest else throw e

/-- A short name is an imported class, or is found in the packages searched, or stands for itself. -/
def searchShort (l : Loader) (key : ImportKey) (name : String) : Run Named := do
  materialize l key
  let table := (← get).importTable key
  match table.imported.find? name with
  | some (_, named) => return named
  | none =>
    match ← searchPackages l table name table.searched with
    | some named => return named
    | none =>
      let named ← l.find name
      if table.isVisible (← Run.arena) named then return named else throw (.notFound name)

/-- Answers for short names are remembered. -/
def find (l : Loader) (key : ImportKey) (name : String) : Run Named := do
  if !isShortName name then l.find name
  else
    match ((← get).importTable key).memo.find? name with
    | some named => return named
    | none =>
      let named ← searchShort l key name
      Run.modifyImports key (·.remember name named)
      return named

end ImportTable

/-- What is not a class of the package is taken for a package inside it. -/
def Loader.findInPackage (l : Loader) (package : Package) (name : String) (accessor : Option ClassId) :
    Run Named := do
  unless isShortName name do Run.fault (.qualifiedName name)
  let full := qualify package.fullName name
  match ← (l.find full).outcome with
  | .ok (.cls id) =>
    if let some accessor := accessor then
      unless ← l.classAccessible id accessor do
        throw (.inaccessible (← Run.fullName id) (← Run.fullName accessor))
    return .cls id
  | .ok named => return named
  | .error e => if e.isNotFoundFor full then return .package ⟨full⟩ else throw e

end ClassUniverse
