import ClassUniverse.Proofs.Discarding

/-! A layered cache in front of something that never changes its mind. What such a cache remembers as absent is
absent, however the cache came to be as it is. -/
namespace ClassUniverse

open Run

/-- What a name stands for, and which packages there are. -/
structure Inner where
  find : String → Except Error Named
  packageExists : String → Bool
  /-- A package lies only in packages. -/
  closed : ∀ name container, containerName? name = some container → packageExists name → packageExists container

namespace Inner

def answer : Except Error α → Run α
  | .ok a => return a
  | .error e => throw e

def backing (inner : Inner) : Backing where
  find name := answer (inner.find name)
  packageExists name := return inner.packageExists name

end Inner

namespace Cache

/-- Calls on a layered cache. -/
inductive Call where
  | install (name : String) (named : Named)
  | addNamed (name : String) (named : Named)
  | addPackage (package : Package)
  | packageExists (name : String)
  | find (name : String)
  deriving DecidableEq, Repr

inductive Reply where
  | done
  | present (present : Bool)
  | named (named : Named)
  deriving DecidableEq, Repr

variable (slot : Slot) (inner : Inner) (rememberMisses : Bool)

def Call.run : Call → Run Reply
  | install name named => do
    Cache.install slot inner.backing.packageExists name named
    return .done
  | addNamed name named => do
    Cache.addNamed slot inner.backing.packageExists name named
    return .done
  | addPackage package => do
    modifyCache slot (·.addPackage package)
    return .done
  | packageExists name => return .present (← Cache.packageExists slot inner.backing.packageExists name)
  | find name => return .named (← Cache.find slot inner.backing rememberMisses name)

/-- Calls one after another; each fork is closed in turn. -/
inductive Calls where
  | done
  | call (call : Call) (rest : Calls)
  | forked (inside : Calls) (kept : Bool) (rest : Calls)
  deriving DecidableEq, Repr

/-- What the calls answer in turn. A failed call does not end the sequence. -/
def Calls.run : Calls → Run (List (Except Error Reply))
  | done => return []
  | call first rest => do
    let reply ← (first.run slot inner rememberMisses).outcome
    let replies ← rest.run
    return reply :: replies
  | forked inside kept rest => do
    fork slot
    let within ← inside.run
    close slot kept
    let replies ← rest.run
    return within ++ replies

/-- All that can be done to a layered cache from outside. -/
inductive Operation : {α : Type} → Run α → Prop where
  | call (call : Call) : Operation (call.run slot inner rememberMisses)
  | installEverywhere (name : String) (named : Named) :
      Operation (Cache.installEverywhere slot inner.backing.packageExists name named)
  | insertAll (entries : List (String × Named)) : Operation (modifyCache slot (·.insertAll entries))
  | clearAdded : Operation (modifyCache slot (·.clearAdded))
  | fork : Operation (fork slot)
  | commit : Operation (commit slot)
  | discard : Operation (discard slot)

/-- A fresh cache and all that has ever been done to it, whatever else happened in between. -/
inductive Reached : World → Prop where
  | fresh {w : World} (empty : w.cache slot = {}) : Reached w
  | operation {x : Run α} {w after : World} {result : Except Error α} (earlier : Reached w)
      (operation : Operation slot inner rememberMisses x) (ran : x.on w = some (result, after)) : Reached after
  | elsewhere {w after : World} (earlier : Reached w) (same : after.cache slot = w.cache slot) : Reached after

end Cache

/-- What the layer remembers as absent is absent. -/
structure Layer.Honest (inner : Inner) (layer : Layer) : Prop where
  misses : ∀ name, layer.cache.find? name = some .missing → inner.find name = .error (.notFound name)
  absences : ∀ name, layer.packages.find? name = some false → inner.packageExists name = false

namespace Layer.Honest

variable {inner : Inner} {layer : Layer}

theorem empty : Honest inner {} := ⟨nofun, nofun⟩

theorem put (honest : layer.Honest inner) (name : String) (named : Named) : (layer.put name (.found named)).Honest inner where
  misses query missing := by
    rw [Layer.put, Assoc.find?_insert] at missing
    split at missing
    · cases missing
    · exact honest.misses query missing
  absences := honest.absences

theorem record (honest : layer.Honest inner) (name : String) (named : Named) : (layer.record name named).Honest inner :=
  ⟨(honest.put name named).misses, honest.absences⟩

theorem putMissing (honest : layer.Honest inner) (absent : inner.find name = .error (.notFound name)) :
    (layer.put name .missing).Honest inner where
  misses query missing := by
    rw [Layer.put, Assoc.find?_insert] at missing
    split at missing
    · simp_all
    · exact honest.misses query missing
  absences := honest.absences

theorem setPackage (honest : layer.Honest inner)
    (absent : present = false → inner.packageExists name = false) : (layer.setPackage name present).Honest inner where
  misses := honest.misses
  absences query known := by
    rw [Layer.setPackage, Assoc.find?_insert] at known
    split at known
    · simp_all
    · exact honest.absences query known

end Layer.Honest

namespace Layers

def Honest (inner : Inner) (layers : Layers) : Prop := layers.Every (·.Honest inner)

variable {inner : Inner} {layers : Layers}

theorem mem_toList : layer ∈ layers.toList ↔ layer ∈ layers.overlays ∨ layer = layers.base := by
  simp [toList]

namespace Honest

theorem empty : Honest inner {} := by
  intro layer member
  rw [List.mem_singleton.mp member]
  exact .empty

variable (honest : layers.Honest inner)
include honest

theorem insert (name : String) (named : Named) : (layers.insert name named).Honest inner :=
  Every.insert honest (honest.top.put name named) (honest.top.record name named)

theorem setPackage (absent : present = false → inner.packageExists name = false) :
    (layers.setPackage name present).Honest inner := honest.modifyTop (honest.top.setPackage absent)

theorem insertMiss (absent : inner.find name = .error (.notFound name)) :
    (layers.insertMiss name).Honest inner := honest.modifyTop (honest.top.putMissing absent)

theorem setPackages (names : List String) : (layers.setPackages names).Honest inner :=
  setPackages_keeps honest fun _ _ _ honest => honest.setPackage nofun

theorem addPackage (package : Package) : (layers.addPackage package).Honest inner :=
  layers.addPackage_eq package ▸ honest.setPackages package.names

theorem insertAll (entries : List (String × Named)) : (layers.insertAll entries).Honest inner :=
  insertAll_keeps honest fun _ entry _ honest => honest.insert entry.1 entry.2

theorem insertBelow (name : String) (named : Named) : (layers.insertBelow name named).Honest inner := by
  obtain ⟨base, overlays⟩ := layers
  cases overlays with
  | nil => exact honest
  | cons top rest =>
    intro layer member
    have kept := fun layer member => honest layer (mem_toList.mpr member)
    rw [mem_toList] at member
    simp only [Layers.insertBelow, List.mem_cons, List.mem_map] at member
    rcases member with (rfl | ⟨before, listed, rfl⟩) | rfl
    · exact kept layer (by simp)
    · exact (kept before (by simp [listed])).record name named
    · exact (kept base (by simp)).put name named

theorem fork : layers.fork.Honest inner := Every.fork honest .empty

theorem discard (discarded : layers.discard? = some after) : after.Honest inner :=
  Every.discard honest discarded

theorem commit (committed : layers.commit? = some after) : after.Honest inner := by
  obtain ⟨below, discarded, rfl⟩ := of_commit? committed
  exact ((honest.discard discarded).insertAll _).setPackages _

theorem clearAdded : layers.clearAdded.Honest inner := honest.modifyTop ⟨honest.top.misses, honest.top.absences⟩

theorem miss (missing : layers.lookup name = some .missing) : inner.find name = .error (.notFound name) := by
  obtain ⟨layer, member, hit⟩ := List.exists_of_findSome?_eq_some missing
  exact (honest layer member).misses name hit

theorem absence (known : layers.knownPackage name = some false) : inner.packageExists name = false := by
  obtain ⟨layer, member, hit⟩ := List.exists_of_findSome?_eq_some known
  exact (honest layer member).absences name hit

theorem absenceBelow (known : (containerName? name).bind layers.knownPackage = some false) :
    inner.packageExists name = false := by
  obtain ⟨container, inside, absent⟩ := Option.bind_eq_some_iff.mp known
  have missing := honest.absence absent
  cases present : inner.packageExists name with
  | false => rfl
  | true => rw [inner.closed name container inside present] at missing; cases missing

end Honest

end Layers

end ClassUniverse
