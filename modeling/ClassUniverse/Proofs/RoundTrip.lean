import ClassUniverse.Proofs.Families
import ClassUniverse.Proofs.LibraryLoading
import ClassUniverse.Proofs.Stages

/-! Classes that are written into class files come back as they were: whatever is loaded from the files of a
family has the document that was put there. -/
namespace ClassUniverse

open Run

/-- The class file that a class is written into. -/
def Loader.classFile (l : Loader) (id : ClassId) : Run ClassFile := do
  let text ← l.encode id
  let w ← get
  return {
    name := (w.arena.binaryName? id).getD ""
    compilerVersion := some w.config.version.text
    encoded := .ofList [(w.config.version.name, text)] }

theorem World.ofUniverse_ready {config : Config} {filed : List Filed} :
    (ofUniverse config { classFiles := files }).Ready config (.ofList files) filed filed.length where
  configured := rfl
  stocked := rfl
  sources := rfl
  tables := rfl
  nested _ inside := absurd inside (Nat.not_lt_zero _)
  layers := .empty
  entries _ _ hit := nomatch hit
  agreed _ _ := rfl
  few := List.countP_le_length

namespace World

variable {config : Config} {path : ClassPath} {filed : List Filed} {w after : World} {c : Filed} {id : ClassId}

/-- What was loaded into an empty arena is all that its document says. -/
theorem Loaded.encodeClass (loaded : w.Loaded filed after) (blank : w.arena.size = 0)
    (library : Library config.version path filed) (shelved : after.Shelved config path filed) (listed : c ∈ filed)
    (answers : c.Answers name) (found : after.system.check name = some (.cls id)) (depth : Nat) :
    ((Loader.ofDepth (depth + 1)).encodeClass id).on after = some (.ok c.document, after) := by
  have shows_ := shelved.shows_of_check library listed answers found
  have nested : w.arena.Nested := fun _ inside => absurd inside (by simp [blank])
  obtain ⟨other, among, filled⟩ := loaded.filled nested id (by simp [blank]) shows_.inside
  have full : c.fullName = other.fullName := shows_.fullName.symm.trans filled.fullName
  cases library.distinct c listed other among c.fullName (.inl rfl) (.inl full)
  have encodable := Arena.encodableName?_of_fileName filled.fileName filled.nesting
  rw [Loader.encodeClass_described depth filled.described encodable, shelved.configured, ← library.versions c listed,
    filled.document]

end World

section RoundTrip

variable {w : World} {ids : List ClassId} (nested : w.arena.Nested) (family : w.arena.Family ids)
  (conventional : w.arena.Conventional ids)
include nested family conventional

theorem encodeClass_of_family {id : ClassId} (listed : id ∈ ids) (depth : Nat) :
    ((Loader.ofDepth (depth + 1)).encodeClass id).on w = some (.ok (w.arena.document w.config.version.text id), w) := by
  obtain ⟨binary, named, -⟩ := Arena.nests_of_family nested family conventional listed
  have encodable : w.arena.encodableName? id = some binary := by
    rcases family.kinds id listed with top | ⟨outer, -, member⟩
    · simp [Arena.encodableName?, top, named]
    · simp [Arena.encodableName?, member, named]
  have all := (ClassRecord.isComplete_iff _).mp (family.complete id listed)
  exact Loader.encodeClass_described depth ⟨all _, all _, all _⟩ encodable

theorem classFile_of_family {id : ClassId} (listed : id ∈ ids) (depth : Nat) :
    ((Loader.ofDepth (depth + 1)).classFile id).on w =
      some (.ok ((w.arena.document w.config.version.text id).file w.config.version), w) := by
  have encoded : ((Loader.ofDepth (depth + 1)).encode id).on w =
      some (.ok (w.arena.document w.config.version.text id).render, w) := by
    unfold Loader.encode
    rw [on_bind_ok (encodeClass_of_family nested family conventional listed depth)]
    rfl
  unfold Loader.classFile
  rw [on_bind_ok encoded]
  rfl

theorem mapM_classFile (depth : Nat) : (ids.mapM (Loader.ofDepth (depth + 1)).classFile).on w =
    some (.ok (w.arena.files w.config.version ids), w) := by
  have written (part : List ClassId) (among : ∀ id ∈ part, id ∈ ids) :
      (part.mapM (Loader.ofDepth (depth + 1)).classFile).on w =
        some (.ok (w.arena.files w.config.version part), w) := by
    induction part with
    | nil => rfl
    | cons id rest ih =>
      rw [List.mapM_cons, on_bind_ok (classFile_of_family nested family conventional (among id (by simp)) depth),
        on_bind_ok (ih fun other member => among other (by simp [member]))]
      rfl
  exact written ids fun _ listed => listed

/-- Classes that are closed under reference can be written into class files and loaded again, in any order, and
each comes back with the document that it had. -/
theorem reload_same_documents : ∃ bound, ∀ depth > bound, ∃ files,
    (ids.mapM (Loader.ofDepth depth).classFile).on w = some (.ok files, w) ∧
    ∀ order : List ClassId, (∀ id ∈ order, id ∈ ids) →
      (order.mapM fun id => (Loader.ofDepth depth).classForName (w.arena.fullName id)).Yields
        (.ofUniverse w.config { classFiles := files }) fun loaded after =>
          List.Forall₂ (fun old new => ∃ document,
            ((Loader.ofDepth depth).encodeClass old).on w = some (.ok document, w) ∧
            ((Loader.ofDepth depth).encodeClass new).on after = some (.ok document, after)) order loaded := by
  let filed := ids.map (w.arena.filed w.config.version)
  have library := Arena.library_of_family w.config.version nested family conventional
  refine ⟨(filed.length + 1) * reach filed, fun depth enough => ?_⟩
  obtain ⟨less, rfl⟩ : ∃ less, depth = less + 1 := ⟨depth - 1, by omega⟩
  refine ⟨_, mapM_classFile nested family conventional less, fun order among => ?_⟩
  have found (id : ClassId) (member : id ∈ order) (start : World)
      (ready : start.Ready w.config (.ofList (w.arena.files w.config.version ids)) filed filed.length) :=
    classForName_ready (Loader.ofDepth_serves library (less + 1)) enough (List.mem_map_of_mem (among id member))
      (.inl rfl) ready
  have all := yields_mapM order found (fun _ _ _ _ _ grown hit => grown.checked _ _ hit) World.ofUniverse_ready
  refine all.mono fun loaded after ⟨ready, grown, checked⟩ => ?_
  refine ((List.forall₂_and_left _ _).mpr ⟨among, checked⟩).imp fun old new ⟨listed, hit⟩ => ?_
  refine ⟨_, encodeClass_of_family nested family conventional listed less, ?_⟩
  exact grown.encodeClass rfl library ready.toShelved (List.mem_map_of_mem listed) (.inl rfl) hit less

end RoundTrip

/-- A class with a member class that extends it, and signatures that go back and forth between them. -/
theorem reload_same_documents_nest :
    let stages := Stage.all.foldl Stages.add .none
    let list := Ty.cls ⟨1⟩
    let node := Ty.cls ⟨2⟩
    let w : World := { arena := ⟨#[
      { name := "Object", package := some ⟨"java.lang"⟩, stages },
      { name := "List", package := some ⟨"p.q"⟩, superType := some (.cls ⟨0⟩), members := [⟨2⟩], stages,
        fields := [{ container := list, name := "nodes", type := .array (.array node) }],
        methods := [
          { container := list, name := "of", returns := list, formals := [.primitive .int, .array list],
            throws := [node] }] },
      { name := "Node", package := some ⟨"p.q"⟩, kind := .memberOf ⟨1⟩, superType := some list, stages,
        constructors := [{ container := node, name := "Node", formals := [list, .null] }] }]⟩ }
    let ids : List ClassId := [⟨0⟩, ⟨1⟩, ⟨2⟩]
    let order : List ClassId := [⟨2⟩, ⟨0⟩, ⟨2⟩, ⟨1⟩]
    (w.arena.Nested ∧ w.arena.Family ids ∧ w.arena.Conventional ids) ∧ ∃ depth files,
      (ids.mapM (Loader.ofDepth depth).classFile).on w = some (.ok files, w) ∧
      (order.mapM fun id => (Loader.ofDepth depth).classForName (w.arena.fullName id)).Yields
        (.ofUniverse w.config { classFiles := files }) fun loaded after =>
          List.Forall₂ (fun old new => ∃ document,
            ((Loader.ofDepth depth).encodeClass old).on w = some (.ok document, w) ∧
            ((Loader.ofDepth depth).encodeClass new).on after = some (.ok document, after)) order loaded := by
  intro stages list node w ids order
  have nested : w.arena.Nested := by decide +kernel
  have family : w.arena.Family ids := by constructor <;> decide +kernel
  have starts : ids.all fun id => (w.arena.fullName id).toList.head?.all fun c => !Text.isBlank c := by decide +kernel
  have conventional : w.arena.Conventional ids := by
    refine ⟨by decide +kernel, by decide +kernel, by decide +kernel, fun id listed c first => ?_⟩
    have start := List.all_eq_true.mp starts id listed
    rw [Option.mem_def.mp first] at start
    simpa using start
  obtain ⟨bound, reloads⟩ := reload_same_documents nested family conventional
  obtain ⟨files, written, loads⟩ := reloads (bound + 1) (Nat.lt_succ_self _)
  exact ⟨⟨nested, family, conventional⟩, bound + 1, files, written, loads order (by decide)⟩

/-- All classes are written into class files, and the named one cannot be loaded from them. -/
def Arena.loses (arena : Arena) (id : ClassId) : Bool :=
  ((arena.ids.mapM (Loader.ofDepth 20).classFile).on { arena }).any fun (written, _) =>
    written.toOption.any fun files =>
      (((Loader.ofDepth 20).classForName (arena.fullName id)).on (.ofUniverse {} { classFiles := files })).any
        fun (result, _) => !result.isOk

theorem Arena.of_loses {arena : Arena} {id : ClassId} (loses : arena.loses id) : ∃ files w e after,
    (arena.ids.mapM (Loader.ofDepth 20).classFile).on { arena } = some (.ok files, w) ∧
      ((Loader.ofDepth 20).classForName (arena.fullName id)).on (.ofUniverse {} { classFiles := files }) =
        some (.error e, after) := by
  obtain ⟨⟨written, w⟩, wrote, fails⟩ := (Option.any_eq_true _ _).mp loses
  obtain ⟨files, held, fails⟩ := (Option.any_eq_true _ _).mp fails
  obtain ⟨⟨result, after⟩, ran, failed⟩ := (Option.any_eq_true _ _).mp fails
  cases written with
  | error _ => cases held
  | ok _ =>
    cases held
    cases result with
    | ok _ => cases failed
    | error e => exact ⟨files, w, e, after, wrote, ran⟩

/-- Without the conventions on names a class may be lost, one way for each of them: its binary name is that of a
package, a name that starts with a blank is read without it, or the binary name does not spell the nest. -/
theorem reload_needs_conventional :
    let stages := Stage.all.foldl Stages.add .none
    let package : Arena := ⟨#[{ name := "C", members := [⟨1⟩], stages }, { name := "I", kind := .memberOf ⟨0⟩, stages },
      { name := "X", package := some ⟨"C$I"⟩, stages }]⟩
    let blank : Arena := ⟨#[
      { name := "A", package := some ⟨" p"⟩, stages,
        fields := [{ container := .cls ⟨0⟩, name := "f", type := .cls ⟨0⟩ }] }]⟩
    let renamed : Arena := ⟨#[{ name := "Z", stages },
      { name := "I", kind := .memberOf ⟨0⟩, fileName := some "O$I", stages }]⟩
    let Lost (arena : Arena) (id : ClassId) : Prop := (arena.Nested ∧ arena.Family arena.ids) ∧ id ∈ arena.ids ∧
      ∃ files w e after, (arena.ids.mapM (Loader.ofDepth 20).classFile).on { arena } = some (.ok files, w) ∧
        ((Loader.ofDepth 20).classForName (arena.fullName id)).on (.ofUniverse {} { classFiles := files }) =
          some (.error e, after)
    Lost package ⟨0⟩ ∧ Lost blank ⟨0⟩ ∧ Lost renamed ⟨1⟩ := by
  intro stages package blank renamed Lost
  have first : package.loses ⟨0⟩ := by decide +kernel
  have second : blank.loses ⟨0⟩ := by decide +kernel
  have third : renamed.loses ⟨1⟩ := by decide +kernel
  refine ⟨⟨⟨?_, ?_⟩, ?_, Arena.of_loses first⟩, ⟨⟨?_, ?_⟩, ?_, Arena.of_loses second⟩,
    ⟨⟨?_, ?_⟩, ?_, Arena.of_loses third⟩⟩
  · decide +kernel
  · constructor <;> decide +kernel
  · decide
  · decide +kernel
  · constructor <;> decide +kernel
  · decide
  · decide +kernel
  · constructor <;> decide +kernel
  · decide

end ClassUniverse
