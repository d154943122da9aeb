import ClassUniverse.Proofs.Layers
import Mathlib.Data.List.Induction

/-! Forked layers. As long as a forked layer logs all it holds, committing it changes no answer. -/
namespace ClassUniverse

theorem Assoc.mem_of_find? [DecidableEq κ] {m : Assoc κ α} (hit : m.find? key = some value) :
    (key, value) ∈ m.entries := by
  obtain ⟨entries⟩ := m
  unfold find? at hit
  induction entries with
  | nil => cases hit
  | cons entry rest ih =>
    rw [List.lookup_cons] at hit
    split at hit
    · rename_i same
      cases hit
      rw [eq_of_beq same]
      exact List.mem_cons_self
    · exact List.mem_cons_of_mem _ (ih hit)

/-- What the layer holds is the last that it has logged. -/
def Layer.Logged (layer : Layer) : Prop :=
  ∀ name, layer.cache.find? name = (layer.added.reverse.lookup name).map .found

theorem Layer.Logged.record {layer : Layer} (logged : layer.Logged) (name : String) (named : Named) :
    (layer.record name named).Logged := by
  intro query
  simp only [Layer.record, put, Assoc.find?_insert, List.reverse_append, List.reverse_singleton, List.singleton_append,
    List.lookup_cons]
  by_cases same : query = name
  · simp [same]
  · have apart : (query == name) = false := beq_eq_false_iff_ne.mpr same
    simp only [same, if_false, apart]
    exact logged query

namespace Layers

variable {layers : Layers}

/-- Forked layers log what they hold, and the packages that are known to exist satisfy `P`. -/
structure Sound (P : String → Prop) (layers : Layers) : Prop where
  logged : ∀ layer ∈ layers.overlays, layer.Logged
  packages : layers.Every fun layer => ∀ entry ∈ layer.packages.entries, entry.2 = true → P entry.1

namespace Sound

theorem empty : Sound P {} := ⟨by simp, by simp [Every, toList, Assoc.empty]⟩

variable (sound : layers.Sound P)
include sound

theorem known (known : layers.knownPackage name = some true) : P name := by
  obtain ⟨layer, member, hit⟩ := List.exists_of_findSome?_eq_some known
  exact sound.packages layer member _ (Assoc.mem_of_find? hit) rfl

theorem insert (name : String) (named : Named) : (layers.insert name named).Sound P := by
  refine ⟨?_, Every.insert sound.packages sound.packages.top sound.packages.top⟩
  obtain ⟨base, overlays⟩ := layers
  cases overlays with
  | nil => simp [Layers.insert]
  | cons top rest =>
    obtain ⟨here, below⟩ := List.forall_mem_cons.mp sound.logged
    exact List.forall_mem_cons.mpr ⟨here.record name named, below⟩

theorem setPackage (right : present = true → P name) : (layers.setPackage name present).Sound P := by
  constructor
  · obtain ⟨base, overlays⟩ := layers
    cases overlays with
    | nil => simp [Layers.setPackage, modifyTop]
    | cons top rest =>
      obtain ⟨here, below⟩ := List.forall_mem_cons.mp sound.logged
      exact List.forall_mem_cons.mpr ⟨here, below⟩
  · refine sound.packages.modifyTop fun entry member held => ?_
    simp only [Layer.setPackage, Assoc.insert, List.mem_cons] at member
    rcases member with rfl | before
    · exact right held
    · exact sound.packages.top entry (List.mem_filter.mp before).1 held

theorem setPackages (right : ∀ name ∈ names, P name) : (layers.setPackages names).Sound P :=
  setPackages_keeps sound fun _ name listed sound => sound.setPackage fun _ => right name listed

theorem addPackage (right : P package.fullName)
    (around : ∀ outer ∈ package.enclosings, P outer.fullName) : (layers.addPackage package).Sound P := by
  rw [addPackage_eq]
  refine sound.setPackages fun name member => ?_
  obtain ⟨other, listed, rfl⟩ := List.mem_map.mp member
  rcases List.mem_cons.mp listed with rfl | outer
  · exact right
  · exact around other outer

theorem fork : layers.fork.Sound P :=
  ⟨List.forall_mem_cons.mpr ⟨fun _ => rfl, sound.logged⟩, Every.fork sound.packages (by simp [Assoc.empty])⟩

theorem insertAll (entries : List (String × Named)) : (layers.insertAll entries).Sound P :=
  insertAll_keeps sound fun _ entry _ sound => sound.insert entry.1 entry.2

end Sound

@[simp] theorem lookup_fork (layers : Layers) (name : String) : layers.fork.lookup name = layers.lookup name := by
  simp [lookup, fork, toList, List.findSome?_cons]

@[simp] theorem check_fork (layers : Layers) (name : String) : layers.fork.check name = layers.check name := by
  simp [check]

theorem lookup_insertAll (layers : Layers) (entries : List (String × Named)) (name : String) :
    (layers.insertAll entries).lookup name = ((entries.reverse.lookup name).map .found).or (layers.lookup name) := by
  unfold insertAll
  induction entries using List.reverseRecOn with
  | nil => simp
  | append_singleton entries entry ih =>
    rw [List.foldl_append, List.foldl_cons, List.foldl_nil, lookup_insert, ih, List.reverse_concat]
    obtain ⟨key, named⟩ := entry
    by_cases same : name = key
    · simp [same]
    · have apart : (name == key) = false := beq_eq_false_iff_ne.mpr same
      simp only [same, if_false, List.lookup_cons, apart]

section Commit

variable {top : Layer}

theorem lookup_commit (forked : layers.overlays = top :: rest) (logged : top.Logged)
    (committed : layers.commit? = some after) (name : String) : after.lookup name = layers.lookup name := by
  rw [commit?_eq forked] at committed
  cases committed
  rw [lookup_setPackages, lookup_insertAll, ← logged name]
  obtain ⟨base, overlays⟩ := layers
  cases forked
  simp only [lookup, toList, List.cons_append, List.findSome?_cons]
  cases top.cache.find? name <;> rfl

theorem Sound.commit (sound : layers.Sound P) (committed : layers.commit? = some after) : after.Sound P := by
  obtain ⟨below, discarded, rfl⟩ := of_commit? committed
  obtain ⟨top, rfl⟩ := eq_of_discard? discarded
  have lower : below.Sound P := ⟨(List.forall_mem_cons.mp sound.logged).2, sound.packages.discard discarded⟩
  refine (lower.insertAll _).setPackages fun name member => ?_
  obtain ⟨entry, present, rfl⟩ := List.mem_map.mp member
  obtain ⟨listed, held⟩ := List.mem_filter.mp present
  exact sound.packages.top entry listed held

end Commit

/-- Only the top layer may differ. -/
def SameBelow (layers after : Layers) : Prop := after.toList.tail = layers.toList.tail

namespace SameBelow

theorem refl (layers : Layers) : layers.SameBelow layers := rfl

theorem trans (first : layers.SameBelow middle) (second : middle.SameBelow after) :
    layers.SameBelow after := Eq.trans second first

theorem modifyTop (layers : Layers) (change : Layer → Layer) : layers.SameBelow (layers.modifyTop change) := by
  rw [SameBelow, toList_modifyTop, List.tail_cons]

theorem insert (layers : Layers) (name : String) (named : Named) : layers.SameBelow (layers.insert name named) := by
  obtain ⟨top, whole, -, -⟩ := layers.toList_insert name named
  rw [SameBelow, whole, List.tail_cons]

theorem setPackages (layers : Layers) (names : List String) : layers.SameBelow (layers.setPackages names) :=
  setPackages_keeps (refl layers) fun _ _ _ same => same.trans (modifyTop _ _)

theorem addPackage (layers : Layers) (package : Package) : layers.SameBelow (layers.addPackage package) :=
  layers.addPackage_eq package ▸ setPackages layers package.names

theorem insertAll (layers : Layers) (entries : List (String × Named)) : layers.SameBelow (layers.insertAll entries) :=
  insertAll_keeps (refl layers) fun _ entry _ same => same.trans (insert _ entry.1 entry.2)

variable (below : layers.fork.SameBelow after)
include below

theorem forked : ∃ top, after = { base := layers.base, overlays := top :: layers.overlays } := by
  obtain ⟨base, overlays⟩ := after
  cases overlays with
  | nil =>
    have short : ([] : List Layer) = layers.overlays ++ [layers.base] := below
    simp at short
  | cons top rest =>
    have same : rest ++ [base] = layers.overlays ++ [layers.base] := below
    obtain ⟨rfl, last⟩ := List.append_inj' same rfl
    cases last
    exact ⟨top, rfl⟩

theorem discard : after.discard? = some layers := by
  obtain ⟨top, rfl⟩ := below.forked
  rfl

theorem commit (committed : after.commit? = some last) : layers.SameBelow last := by
  obtain ⟨top, rfl⟩ := below.forked
  rw [commit?_eq rfl] at committed
  cases committed
  exact (insertAll _ _).trans (setPackages _ _)

theorem committed (sound : after.Sound P) : ∃ last, after.commit? = some last ∧ last.Sound P ∧ layers.SameBelow last ∧
      ∀ name, last.lookup name = after.lookup name := by
  obtain ⟨top, whole⟩ := below.forked
  have forked : after.overlays = top :: layers.overlays := by rw [whole]
  have committed := commit?_eq forked
  have logged := sound.logged top (by simp [forked])
  exact ⟨_, committed, sound.commit committed, below.commit committed, lookup_commit forked logged committed⟩

end SameBelow

end Layers

end ClassUniverse
