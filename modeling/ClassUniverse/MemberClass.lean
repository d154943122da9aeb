import ClassUniverse.Access
import ClassUniverse.Cache

/-! Member classes by short name, declared or inherited. -/
namespace ClassUniverse

namespace Loader

/-- A hit counts only if it is a member of the very class. -/
def memberOnly (id : ClassId) (found : Option Named) : Run (Option ClassId) := do
  let arena ← Run.arena
  return (found.bind Named.class?).filter fun member => (arena.get member).kind = .memberOf id

/-- The member class that `id` itself declares: one that is cached under its source or its binary name,
else one in the list of members, else, unless the class comes from a source, one on the class path. -/
def declaredMember (l : Loader) (name : String) (id : ClassId) : Run (Option ClassId) := do
  let w ← get
  let binary := (w.arena.binaryName? id).map fun outer => outer ++ "$" ++ name
  let cached := (w.system.check (qualify (w.arena.fullName id) name)).orElse fun _ => binary.bind w.system.check
  if cached.isSome then memberOnly id cached
  else
    match ← l.memberClassNamed id name with
    | some member => memberOnly id (some (.cls member))
    | none =>
      match binary, (← Run.record id).job with
      | some binary, none =>
        match ← (l.find binary).outcome with
        | .ok named => memberOnly id (some named)
        | .error e => if e.isNotFound then return none else throw e
      | _, _ => return none

/-- What a class declares, if the accessor may see it. -/
def visibleMember (l : Loader) (declared : ClassId → Run (Option ClassId)) (accessor : Option ClassId)
    (id : ClassId) : Run (Option ClassId) := do
  match ← declared id, accessor with
  | some member, some accessor =>
    if ← l.classAccessible member accessor then return some member
    let arena ← Run.arena
    throw (.inaccessible ("member class " ++ arena.fullName member) (arena.fullName accessor))
  | found, _ => return found

end Loader

/-- Member classes met in the supertypes of a class. -/
structure Inherited where
  members : List ClassId := []
  /-- The last member that the accessor may not see. -/
  refused : Option Error := none

namespace Inherited

def add (found : Inherited) (member : ClassId) : Inherited :=
  if found.members.contains member then found else { found with members := found.members ++ [member] }

/-- A search answers with the classes it has visited, also when it fails. -/
abbrev Search := (visited : List ClassId) → ClassId → Run (Except Error ClassId × List ClassId)

/-- Members that are missing or refused do not end the search. -/
def collect (search : Search) : List ClassId → Inherited → (visited : List ClassId) →
    Run (Except Error Inherited × List ClassId)
  | [], found, visited => return (.ok found, visited)
  | id :: rest, found, visited => do
    match ← search visited id with
    | (.ok member, visited) => collect search rest (found.add member) visited
    | (.error e, visited) =>
      match e with
      | .inaccessible .. => collect search rest { found with refused := some e } visited
      | .noSuchMember .. | .notFound _ => collect search rest found visited
      | _ => return (.error e, visited)

/-- One member is the answer; several are ambiguous. -/
def decide (found : Inherited) (name : String) (id : ClassId) : Run (Except Error ClassId) := do
  let arena ← Run.arena
  match found.members with
  | [] => return .error (found.refused.getD (.noSuchMember .memberClass name (arena.fullName id)))
  | [member] => return .ok member
  | members =>
    let containers := (members.filterMap arena.outer?).map arena.fullName
    return .error (.ambiguous name containers (arena.get id).position)

end Inherited

namespace Loader

/-- Depth first through the supertypes of classes that do not declare the name themselves. No class is
visited twice. -/
def searchMember (l : Loader) (name : String) (visible : ClassId → Run (Option ClassId)) :
    (steps : Nat) → Inherited.Search
  | 0, _, _ => Run.exhausted
  | steps + 1, visited, id => do
    if visited.contains id then
      return (.error (.noSuchMember .memberClass name (← Run.fullName id)), visited)
    let visited := id :: visited
    match ← (visible id).outcome with
    | .error e => return (.error e, visited)
    | .ok (some member) => return (.ok member, visited)
    | .ok none =>
      match ← (l.supertypes id).outcome with
      | .error e => return (.error e, visited)
      | .ok supers =>
        match ← Inherited.collect (searchMember l name visible steps) (supers.filterMap Ty.class?) {} visited with
        | (.error e, visited) => return (.error e, visited)
        | (.ok found, visited) => return (← found.decide name id, visited)

/-- Without an accessor nothing is refused. -/
def memberClass (l : Loader) (id : ClassId) (name : String) (accessor : Option ClassId) : Run ClassId := do
  unless isShortName name do Run.fault (.qualifiedName name)
  let visible := l.visibleMember (l.declaredMember name) accessor
  match ← l.searchMember name visible l.depth [] id with
  | (.ok member, _) => return member
  | (.error e, _) => throw e

/-- Look-ups without an accessor are remembered. -/
def rememberedMember (l : Loader) (id : ClassId) (name : String) : Run Named :=
  Memo.find (.membersOf id) (fun name => return .cls (← l.memberClass id name none)) false name

def findMemberClass (l : Loader) (id : ClassId) (name : String) (accessor : Option ClassId) : Run ClassId := do
  match accessor with
  | some _ => l.memberClass id name accessor
  | none =>
    match ← l.rememberedMember id name with
    | .cls member => return member
    | .package _ => throw (.noSuchMember .memberClass name (← Run.fullName id))

end Loader

end ClassUniverse
