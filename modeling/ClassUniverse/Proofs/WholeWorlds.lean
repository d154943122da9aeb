import ClassUniverse.Inheritance
import ClassUniverse.Proofs.Answers
import ClassUniverse.Proofs.ClassPaths
import ClassUniverse.Proofs.LayerSteps

/-! Worlds in which every class that is mentioned exists, be it around another one, as a supertype, as the root class or
in anything that look-ups remember. A class that was read from a document is told by the name of that document. -/
namespace ClassUniverse

open Run

/-- The document that a class file holds for a version of the compiler, if it is of use. -/
def ClassFile.document? (file : ClassFile) (version : Version) : Option Metadata :=
  if file.compatibility version = .incompatible then none
  else ((file.metadata? version).bind Metadata.parse?).filter fun m => m.name == file.name

/-- A class file of that name holds a document. -/
def Universe.documents (u : Universe) (version : Version) (name : String) : Bool :=
  u.classFiles.any fun file => file.name == name && (file.document? version).isSome

theorem Universe.documents_of_listed {u : Universe} (listed : file ∈ u.classFiles)
    (held : (file.document? version).isSome) : u.documents version file.name :=
  List.any_eq_true.mpr ⟨file, listed, by simpa using held⟩

/-! ## Caches -/

/-- A layer holds no other classes, nor has it logged any. -/
structure Layer.Only (layer : Layer) (good : ClassId → Prop) : Prop where
  cached : ∀ name id, layer.cache.find? name = some (.found (.cls id)) → good id
  logged : ∀ name id, (name, .cls id) ∈ layer.added → good id

def Layers.Only (layers : Layers) (good : ClassId → Prop) : Prop := layers.Every (·.Only good)

namespace Layer.Only

variable {layer : Layer}

theorem empty : ({} : Layer).Only good := ⟨nofun, nofun⟩

theorem put (only : layer.Only good) (new : ∀ id, entry = .found (.cls id) → good id) :
    (layer.put name entry).Only good := by
  refine ⟨fun other id hit => ?_, only.logged⟩
  rw [Layer.put, Assoc.find?_insert] at hit
  split at hit
  · exact new id (Option.some.inj hit)
  · exact only.cached other id hit

theorem record (only : layer.Only good) (new : ∀ id, named = .cls id → good id) :
    (layer.record name named).Only good := by
  have stored : (layer.put name (.found named)).Only good := only.put fun id same => new id (Entry.found.inj same)
  refine ⟨stored.cached, fun other id member => ?_⟩
  rcases List.mem_append.mp member with before | last
  · exact only.logged other id before
  · exact new id (Prod.mk.inj (List.mem_singleton.mp last)).2.symm

end Layer.Only

namespace Layers.Only

variable {layers : Layers}

variable (only : layers.Only good)
include only

theorem mono (weaker : ∀ id, good id → better id) : layers.Only better := by
  intro layer member
  obtain ⟨cached, logged⟩ := only layer member
  exact ⟨fun name id hit => weaker id (cached name id hit), fun name id listed => weaker id (logged name id listed)⟩

theorem lookup {id : ClassId} (hit : layers.lookup name = some (.found (.cls id))) : good id := by
  obtain ⟨layer, member, here⟩ := List.exists_of_findSome?_eq_some hit
  exact (only layer member).cached name id here

theorem check {id : ClassId} (hit : layers.check name = some (.cls id)) : good id := by
  obtain ⟨entry, found, same⟩ := Option.bind_eq_some_iff.mp hit
  cases entry with
  | missing => cases same
  | found named =>
    cases same
    exact only.lookup found

theorem insertMiss : (layers.insertMiss name).Only good :=
  only.modifyTop (only.top.put nofun)

theorem setPackage (present : Bool) : (layers.setPackage name present).Only good :=
  only.modifyTop ⟨only.top.cached, only.top.logged⟩

theorem setPackages (names : List String) : (layers.setPackages names).Only good :=
  setPackages_keeps (P := (·.Only good)) only fun _ _ _ only => only.setPackage true

theorem addPackage (package : Package) : (layers.addPackage package).Only good :=
  layers.addPackage_eq package ▸ only.setPackages package.names

theorem insert (new : ∀ id, named = .cls id → good id) : (layers.insert name named).Only good :=
  Every.insert only (only.top.put fun id same => new id (Entry.found.inj same)) (only.top.record new)

theorem insertAll (new : ∀ name id, (name, .cls id) ∈ entries → good id) : (layers.insertAll entries).Only good :=
  insertAll_keeps (P := (·.Only good)) only fun _ entry listed only => only.insert fun id same => new entry.1 id (same ▸ listed)

theorem ask (known : String → Bool) : (layers.ask known name).Only good := by
  unfold Layers.ask
  split
  · exact only
  · exact only.setPackage _

theorem bring (package : Package) (container : Option String) : (layers.bring package container).Only good := by
  unfold Layers.bring
  split
  · exact (only.addPackage package).insert nofun
  · exact only.addPackage package

omit only in
/-- The classes around a class that exists exist. -/
theorem addNamed {arena : Arena} (nested : arena.Nested) (new : ∀ id, named = .cls id → id.index < arena.size)
    (known : String → Bool) (only : layers.Only fun id => id.index < arena.size) :
    (layers.addNamed known arena name named).2.Only fun id => id.index < arena.size := by
  cases named with
  | cls id =>
    refine addNamed_keeps (P := (·.Only fun id => id.index < arena.size)) (F := fun _ id => id.index < arena.size)
      (fun _ _ only => only.ask known) (fun _ _ _ only inside _ => (only.ask known).insert fun _ same => ?_)
      (fun _ _ _ package container only _ _ => only.bring package container)
      (fun _ id outer _ inside encloses _ _ _ => Nat.lt_trans (nested id inside outer encloses) inside) (new id rfl) only
    exact Named.cls.inj same ▸ inside
  | package package =>
    have stored : (layers.insert name (.package package)).Only _ := only.insert nofun
    exact stored.addPackage package

theorem fork : layers.fork.Only good := Every.fork only .empty

theorem discard (dropped : layers.discard? = some after) : after.Only good := Every.discard only dropped

theorem commit (kept : layers.commit? = some after) : after.Only good := by
  obtain ⟨below, dropped, rfl⟩ := of_commit? kept
  exact ((only.discard dropped).insertAll only.top.logged).setPackages _

end Layers.Only

/-! ## Worlds -/

/-- Every class that is mentioned exists, and only classes of these names are read from documents. -/
structure World.Whole (D : String → Prop) (w : World) : Prop where
  documents : ∀ {name file}, w.classPath.find? name = some file → (file.document? w.config.version).isSome → D file.name
  nested : w.arena.Nested
  supertypes : ∀ id, ∀ above ∈ w.arena.parents id, w.Has above
  decoded : ∀ id, (w.arena.get id).completion = some .decoded → ∃ name ∈ (w.arena.get id).fileName, D name
  root : ∀ id, w.root = some id → w.Has id
  cached : w.system.Only w.Has
  tabled : ∀ name id, (w.table .session).find? name = some (.cls id) → w.Has id
  memos : ∀ key name id, (w.memo key).find? name = some (.found (.cls id)) → w.Has id
  imports : ∀ key, (w.importTable key).Inside w.arena.size

abbrev WholeKept (D : String → Prop) : World → World → Prop := Kept (World.Whole D) World.Keeps

namespace World.Whole

variable {w : World}

theorem ofUniverse {config : Config}
    (documents : ∀ file ∈ u.classFiles, (file.document? config.version).isSome → D file.name) :
    (World.ofUniverse config u).Whole D where
  documents found := by
    obtain ⟨_, _, hit⟩ := List.exists_of_findSome?_eq_some found
    exact documents _ (ClassPath.mem_of_find?_ofList hit).1
  nested id inside := absurd inside (Nat.not_lt_zero _)
  supertypes id above member := by
    cases member
  decoded id waiting := by
    cases waiting
  root _ := nofun
  cached layer member := by
    obtain rfl := List.mem_singleton.mp member
    exact .empty
  tabled _ _ := nofun
  memos _ _ _ := nofun
  imports _ := ⟨nofun, nofun⟩

theorem withArena (whole : w.Whole D) {arena : Arena} (kept : w.arena.Keeps arena) (nested : arena.Nested)
    (supertypes : ∀ id, ∀ above ∈ arena.parents id, above.index < arena.size)
    (decoded : ∀ id, (arena.get id).completion = some .decoded → ∃ name ∈ (arena.get id).fileName, D name) :
    ({ w with arena } : World).Whole D := by
  refine { whole with
    nested, supertypes, decoded, root := ?_, cached := ?_, tabled := ?_, memos := ?_, imports := ?_ }
  · exact fun id found => kept.inside (whole.root id found)
  · exact whole.cached.mono fun id has => kept.inside has
  · exact fun name id found => kept.inside (whole.tabled name id found)
  · exact fun key name id found => kept.inside (whole.memos key name id found)
  · intro key
    have known := whole.imports key
    exact ⟨fun short full id found => kept.inside (known.imported short full id found),
      fun name id found => kept.inside (known.memo name id found)⟩

section Frames

variable (whole : w.Whole D)
include whole

theorem withMemo (key : MemoKey) {memo : Memo}
    (found : ∀ name id, memo.find? name = some (.found (.cls id)) → w.Has id) :
    ({ w with memos := w.memos.insert key memo } : World).Whole D := by
  refine { whole with memos := fun other name id hit => ?_ }
  simp only [World.memo, Assoc.getD, Assoc.find?_insert] at hit
  split at hit
  · exact found name id hit
  · exact whole.memos other name id hit

theorem withImports (key : ImportKey) {table : ImportTable} (found : table.Inside w.arena.size) :
    ({ w with imports := w.imports.insert key table } : World).Whole D := by
  refine { whole with imports := fun other => ?_ }
  simp only [importTable, Assoc.getD, Assoc.find?_insert]
  split
  · exact found
  · exact whole.imports other

theorem withTable (full : String) {id : ClassId} (has : w.Has id) :
    ({ w with tables := w.tables.insert .session ((w.table .session).insert full (.cls id)) } : World).Whole D := by
  refine { whole with tabled := fun name other hit => ?_ }
  simp only [World.table, Assoc.getD, Assoc.find?_insert, if_true, Option.getD_some] at hit
  split at hit
  · cases hit
    exact has
  · exact whole.tabled name other hit

theorem recached (same : w.Recaches after) (left : after.system = layers)
    (only : layers.Only w.Has) : after.Whole D := by
  rw [← left, same] at only
  rw [same]
  exact { whole with cached := only }

theorem withRoot {id : ClassId} (has : w.Has id) : ({ w with root := some id } : World).Whole D := by
  refine { whole with root := fun other hit => ?_ }
  cases hit
  exact has

end Frames

section Arenas

variable {id : ClassId}

theorem withRecord (whole : w.Whole D) (header : (change (w.arena.get id)).header = (w.arena.get id).header)
    (supertypes : ∀ above ∈ (change (w.arena.get id)).supertypes.filterMap Ty.class?, w.Has above)
    (decoded : (change (w.arena.get id)).completion = some .decoded → (w.arena.get id).completion = some .decoded) :
    ({ w with arena := w.arena.modify id change } : World).Whole D := by
  have kept : w.arena.Keeps (w.arena.modify id change) := .modify header
  have fileName : (change (w.arena.get id)).fileName = (w.arena.get id).fileName :=
    congrArg (fun header => header.2.2.2.2.2) header
  refine whole.withArena kept (whole.nested.keeps kept (by simp)) (fun other above member => ?_) fun other waiting => ?_
  · rw [Arena.size_modify]
    rw [Arena.parents, Arena.get_modify] at member
    split at member
    · exact supertypes above member
    · exact whole.supertypes other above member
  · rw [Arena.get_modify] at waiting ⊢
    split at waiting
    · rename_i both
      rw [if_pos both, fileName]
      exact whole.decoded id (decoded waiting)
    · rename_i apart
      rw [if_neg apart]
      exact whole.decoded other waiting

theorem withClass (whole : w.Whole D) {record : ClassRecord}
    (supertypes : ∀ above ∈ record.supertypes.filterMap Ty.class?, w.Has above)
    (around : ∀ outer, record.kind.outer? = some outer → w.Has outer)
    (decoded : record.completion = some .decoded → ∃ name ∈ record.fileName, D name) :
    ({ w with arena := (w.arena.add record).2 } : World).Whole D := by
  refine whole.withArena (.add w.arena record) (whole.nested.add around) (fun other above member => ?_)
    fun other waiting => ?_
  · rw [Arena.parents, Arena.get_add] at member
    split at member
    · exact (Arena.Keeps.add w.arena record).inside (supertypes above member)
    · exact (Arena.Keeps.add w.arena record).inside (whole.supertypes other above member)
  · rw [Arena.get_add] at waiting ⊢
    split at waiting
    · rename_i last
      rw [if_pos last]
      exact decoded waiting
    · rename_i apart
      rw [if_neg apart]
      exact whole.decoded other waiting

end Arenas

end World.Whole

end ClassUniverse
