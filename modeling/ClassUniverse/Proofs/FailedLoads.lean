import ClassUniverse.Proofs.Discarding
import ClassUniverse.Proofs.Documents
import ClassUniverse.Proofs.Stages
import Mathlib.Logic.Relation

/-! Loads that fail after they have begun. The layer is dropped with all that was cached in it, but the arena and
the root class stay as the load has left them. -/
namespace ClassUniverse

open Run Loader

variable {w : World} {l : Loader}

/-- What the stages of a class are about: its supertypes, and its members. -/
def ClassRecord.lineage (r : ClassRecord) : Option Ty × List Ty := (r.superType, r.interfaces)

def ClassRecord.body (r : ClassRecord) : List ClassId × List Field × List Method × List Constructor :=
  (r.members, r.fields, r.methods, r.constructors)

/-- No class file gives the class its supertypes when they are asked for. -/
def ClassRecord.Underived (r : ClassRecord) : Prop := ∀ file, r.completion ≠ some (.derived file)

/-- Nothing is left to be done for the class. -/
def ClassRecord.Finished (r : ClassRecord) : Prop := r.completion = none ∧ ∀ stage, r.stages.has stage

/-- What was known of a class stays. Only a class file that is behind it brings what was not known, and the stage to
which this belongs comes with it. -/
structure ClassRecord.Settles (r after : ClassRecord) : Prop where
  header : after.header = r.header
  completion : after.completion = r.completion ∨ after.Finished
  stages : ∀ stage, r.stages.has stage → after.stages.has stage
  gains : after.Finished ∨ ∀ stage, after.stages.has stage → r.stages.has stage ∨ r.MayGain stage
  lineage : r.Underived ∨ r.stages.has .supertypesResolved ∨ ¬ after.stages.has .supertypesResolved →
    after.lineage = r.lineage
  body : r.Underived ∨ r.stages.has .membersAdded ∧ r.stages.has .signaturesResolved ∨
    ¬ after.stages.has .membersAdded → after.body = r.body

theorem ClassRecord.signaturesCanonical_body {r after : ClassRecord} (same : after.body = r.body) :
    after.signaturesCanonical = r.signaturesCanonical := by
  simp only [body, Prod.mk.injEq] at same
  simp only [signaturesCanonical, same]

namespace ClassRecord.Settles

variable {r : ClassRecord}

theorem refl (r : ClassRecord) : r.Settles r :=
  ⟨rfl, .inl rfl, fun _ has => has, .inr fun _ => .inl, fun _ => rfl, fun _ => rfl⟩

theorem finished (settles : r.Settles after) (finished : r.Finished) : after.Finished :=
  settles.completion.elim (fun same => ⟨same.trans finished.1, fun stage => settles.stages stage (finished.2 stage)⟩) id

/-- A class comes to wait for goals or for a class file only when it is added. -/
theorem stays (settles : r.Settles after) {completion : Completion} (other : r.completion ≠ some completion) :
    after.completion ≠ some completion := by
  rcases settles.completion with same | finished
  · exact same ▸ other
  · simp [finished.1]

theorem gained (settles : r.Settles middle) (gain : middle.MayGain stage) : middle.Finished ∨ r.MayGain stage := by
  by_cases scheduled : r.completion = some .scheduled
  · rcases settles.completion with same | finished
    · rcases gain with free | ⟨rfl, added, canonical⟩
      · exact absurd (same.trans scheduled) free
      · have underived : r.Underived := fun file => by simp [scheduled]
        rw [signaturesCanonical_body (settles.body (.inl underived))] at canonical
        refine settles.gains.imp_right fun gains => .inr ⟨rfl, (gains _ added).resolve_right ?_, canonical⟩
        rintro (free | ⟨⟨⟩, _⟩)
        exact free scheduled
    · exact .inl finished
  · exact .inr (.inl scheduled)

theorem trans (first : r.Settles middle) (second : middle.Settles after) : r.Settles after where
  header := second.header.trans first.header
  completion := first.completion.elim (fun same => second.completion.imp_left (·.trans same)) (.inr ∘ second.finished)
  stages stage has := second.stages stage (first.stages stage has)
  gains := by
    by_cases done : after.Finished
    · exact .inl done
    have open_ : ¬ middle.Finished := mt second.finished done
    refine .inr fun stage has => ?_
    rcases second.gains.resolve_left done stage has with held | gain
    · exact first.gains.resolve_left open_ stage held
    · exact .inr ((first.gained gain).resolve_left open_)
  lineage known := by
    refine (second.lineage ?_).trans (first.lineage ?_)
    · exact known.imp (fun underived file => first.stays (underived file)) (Or.imp_left (first.stages _))
    · exact known.imp_right (Or.imp_right (mt (second.stages _)))
  body known := by
    refine (second.body ?_).trans (first.body ?_)
    · exact known.imp (fun underived file => first.stays (underived file)) (Or.imp_left (And.imp (first.stages _) (first.stages _)))
    · exact known.imp_right (Or.imp_right (mt (second.stages _)))

theorem markStage (gain : r.MayGain stage) : r.Settles (r.markStage stage) := by
  refine ⟨rfl, ?_, fun other has => ?_, .inr fun other has => ?_, fun _ => rfl, fun _ => rfl⟩
  · by_cases complete : (r.markStage stage).stages.isComplete
    · exact .inr ⟨if_pos complete, (isComplete_iff _).mp complete⟩
    · exact .inl (if_neg complete)
  · rw [has_markStage, has, Bool.true_or]
  · rw [has_markStage, Bool.or_eq_true, beq_iff_eq] at has
    rcases has with has | rfl
    · exact .inl has
    · exact .inr gain

theorem markStages (free : r.completion ≠ some .scheduled) (stages : List Stage) : r.Settles (r.markStages stages) := by
  induction stages generalizing r with
  | nil => exact .refl r
  | cons stage rest ih =>
    have first : r.Settles (r.markStage stage) := markStage (.inl free)
    exact first.trans (ih (first.stays free))

theorem markAll (r : ClassRecord) : (r.markStages Stage.all).Finished ∧ r.Settles (r.markStages Stage.all) := by
  have every (stage : Stage) : (r.markStages Stage.all).stages.has stage := by
    cases stage <;> simp [ClassRecord.markStages, Stage.all, has_markStage]
  have finished : (r.markStages Stage.all).Finished := ⟨if_pos ((isComplete_iff _).mpr every), every⟩
  refine ⟨finished, r.header_markStages _, .inr finished, fun stage _ => every stage, .inl finished, fun _ => ?_, fun _ => ?_⟩
  · simp only [ClassRecord.markStages, Stage.all, List.foldl]
    rfl
  · simp only [ClassRecord.markStages, Stage.all, List.foldl]
    rfl

section Derived

variable (earlier : r.Settles middle) (derived : ¬ r.Underived)
include earlier derived

/-- A class file brings what it brings with a number of stages. -/
theorem derive (next : ClassRecord) (header : next.header = middle.header) (completion : next.completion = middle.completion)
    (held : next.stages = middle.stages) (stages : List Stage)
    (lineage : r.stages.has .supertypesResolved ∨ ¬ (next.markStages stages).stages.has .supertypesResolved →
      (next.markStages stages).lineage = r.lineage)
    (body : r.stages.has .membersAdded ∧ r.stages.has .signaturesResolved ∨
      ¬ (next.markStages stages).stages.has .membersAdded → (next.markStages stages).body = r.body) :
    r.Settles (next.markStages stages) := by
  have free : r.completion ≠ some .scheduled := fun scheduled => derived fun file => by simp [scheduled]
  have marked : next.Settles (next.markStages stages) := markStages (completion ▸ earlier.stays free) stages
  exact {
    header := (marked.header.trans header).trans earlier.header
    completion := by
      rcases earlier.completion with same | finished
      · exact marked.completion.imp_left (·.trans (completion.trans same))
      · exact .inr (marked.finished ⟨completion.trans finished.1, fun stage => held ▸ finished.2 stage⟩)
    stages := fun stage has => marked.stages stage (held ▸ earlier.stages stage has)
    gains := .inr fun _ _ => .inr (.inl free)
    lineage := fun known => lineage (known.resolve_left derived)
    body := fun known => body (known.resolve_left derived) }

theorem derivedSupertypes (missing : ¬ r.stages.has .supertypesResolved) (superType : Option Ty)
    (interfaces : List Ty) : r.Settles ({ middle with superType, interfaces }.markStage .supertypesResolved) := by
  refine earlier.derive derived { middle with superType, interfaces } rfl rfl rfl [.supertypesResolved] (fun known => ?_)
    fun known => earlier.body (.inr ?_)
  · simp [missing, ClassRecord.markStages, has_markStage] at known
  · simpa [ClassRecord.markStages, has_markStage] using known

theorem derivedMembers (missing : ¬ (r.stages.has .membersAdded ∧ r.stages.has .signaturesResolved))
    (members : List ClassId) (fields : List Field) (methods : List Method) (constructors : List Constructor) :
    r.Settles ({ middle with members, fields, methods, constructors }.markStages
      [.membersAdded, .signaturesResolved]) := by
  refine earlier.derive derived { middle with members, fields, methods, constructors } rfl rfl rfl _
    (fun known => earlier.lineage (.inr ?_)) fun known => ?_
  · simpa [ClassRecord.markStages, has_markStage] using known
  · simp [missing, ClassRecord.markStages, has_markStage] at known

end Derived

end ClassRecord.Settles

/-- What was known of the classes, and the root class if it was known, are as they were. -/
structure World.Settles (w after : World) : Prop where
  config : after.config = w.config
  root : ∀ id, w.root = some id → after.root = some id
  size : w.arena.size ≤ after.arena.size
  records : ∀ id, id.index < w.arena.size → (w.arena.get id).Settles (after.arena.get id)

instance : WorldOrder World.Settles where
  refl _ := ⟨rfl, fun _ known => known, Nat.le_refl _, fun _ _ => .refl _⟩
  trans first second := {
    config := second.config.trans first.config
    root := fun id known => second.root id (first.root id known)
    size := Nat.le_trans first.size second.size
    records := fun id inside =>
      (first.records id inside).trans (second.records id (Nat.lt_of_lt_of_le inside first.size)) }

/-- The relation to an earlier world is kept. -/
def Since (R : World → World → Prop) (start w after : World) : Prop := R start w → R start after

instance {R : World → World → Prop} {start : World} : WorldOrder (Since R start) where
  refl _ := id
  trans first second := second ∘ first

theorem WorldOrder.since [WorldOrder R] (next : R w after) :
    Since R start w after := fun earlier => WorldOrder.trans earlier next

theorem Run.Within.sinceStart [WorldOrder R] {x : Run α} (kept : x.Within R) (start : World) :
    x.Within (Since R start) := kept.weaken fun _ _ => WorldOrder.since

theorem Metadata.declare_fresh (m : Metadata) (kind : ClassKind) (package : Option Package) (name : String)
    (w : World) : (m.declare kind package name).Ends w (fun id _ => w.arena.size ≤ id.index) (fun _ _ => True) := by
  refine ends_bind.mpr (ends_addClass.mpr ?_)
  have same (id : ClassId) : (do
      System.addNamed m.name (.cls id)
      let full ← Run.fullName id
      if full ≠ m.name then System.addNamed full (.cls id)
      return id : Run ClassId).Meets (fun other => other = id) (fun _ => True) := by
    refine meets_bind_last fun _ => meets_bind_last fun full => meets_ite ?_ (meets_pure rfl)
    exact meets_bind_last fun _ => meets_pure rfl
  refine (same ⟨w.arena.size⟩ _).mono ?_ (fun _ _ _ => trivial)
  rintro _ _ rfl
  exact Nat.le_refl _

namespace World.Settles

variable {start : World} {id : ClassId}

section Kept

variable (settles : w.Settles after)
include settles

theorem headers : w.arena.Keeps after.arena := ⟨settles.size, fun id inside => (settles.records id inside).header⟩

theorem stages (id : ClassId) (stage : Stage) (has : w.hasStage id stage) : after.hasStage id stage :=
  (settles.records id (Arena.inside_of_stage has)).stages stage has

theorem supertypes (id : ClassId) (has : w.hasStage id .supertypesResolved) :
    (after.arena.get id).supertypes = (w.arena.get id).supertypes := by
  have same := (settles.records id (Arena.inside_of_stage has)).lineage (.inr (.inl has))
  simp only [ClassRecord.lineage, Prod.mk.injEq] at same
  simp only [ClassRecord.supertypes, same]

theorem members (id : ClassId) (has : w.hasStage id .membersAdded) (resolved : w.hasStage id .signaturesResolved) :
    (after.arena.get id).members = (w.arena.get id).members :=
  congrArg Prod.fst ((settles.records id (Arena.inside_of_stage has)).body (.inr (.inl ⟨has, resolved⟩)))

end Kept

theorem of_same (config : after.config = w.config) (arena : after.arena = w.arena) (root : after.root = w.root) :
    w.Settles after where
  config := config
  root id known := root.trans known
  size := Nat.le_of_eq (by rw [arena])
  records id _ := by rw [arena]; exact .refl _

theorem modify (earlier : start.Settles w) (settles : id.index < start.arena.size →
      (start.arena.get id).Settles (w.arena.get id) → (start.arena.get id).Settles (change (w.arena.get id))) :
    start.Settles { w with arena := w.arena.modify id change } where
  __ := earlier
  size := by simpa using earlier.size
  records other inside := by
    rw [Arena.get_modify]
    split
    · rename_i both
      rw [both.1] at inside ⊢
      exact settles inside (earlier.records id inside)
    · exact earlier.records other inside

theorem markAll_within (id : ClassId) : (Run.update id (·.markStages Stage.all)).Within World.Settles :=
  within_modify fun w => modify (WorldOrder.refl w) fun _ earlier => earlier.trans (ClassRecord.Settles.markAll _).2

theorem free_caches (w : World) (caches : Assoc Slot Layers) : w.Settles { w with caches } := of_same rfl rfl rfl

theorem addNamed_within (name : String) (named : Named) : (System.addNamed name named).Within World.Settles :=
  System.addNamed_within free_caches name named

theorem addClass_within (record : ClassRecord) : (Run.addClass record).Within World.Settles := by
  refine fun w => ends_addClass.mpr ⟨rfl, fun _ known => known, by simp, fun id inside => ?_⟩
  rw [Arena.get_add, if_neg (Nat.ne_of_lt inside)]
  exact .refl _

theorem filled_within (sound : l.Tracks World.Settles) (m : Metadata) (kind : ClassKind) (package : Option Package)
    (name : String) : (do
      let id ← m.declare kind package name
      m.populate l id
      return id : Run ClassId).Within World.Settles := by
  refine within_of_worlds fun w => ?_
  have declared := (m.declare_respects (fun record _ => addClass_within record)
    (fun name id => addNamed_within name (.cls id)) kind package name).worlds w
  refine ends_bind.mpr (((m.declare_fresh kind package name w).and declared).mono (fun id middle ⟨outside, earlier⟩ => ?_)
    fun _ _ failed => failed.2)
  -- The class was added just now, so anything may be written into it.
  have written : (do m.populate l id; return id : Run ClassId).Within (Since World.Settles w) := by
    refine within_bind (m.populate_respects (sound.weaken fun _ _ => WorldOrder.since) fun _ _ _ _ _ _ => ?_) fun _ => within_pure _
    exact within_modify fun _ earlier => earlier.modify fun inside => absurd inside (Nat.not_lt_of_le outside)
  exact (written.worlds middle).mono (fun _ _ since => since earlier) fun _ _ since => since earlier

theorem derive_within (sound : l.Rooted (Since World.Settles start))
    (missing : ¬ start.hasStage id stage) (derived : id.index < start.arena.size → ¬ (start.arena.get id).Underived)
    (file : ClassFile) : (file.derive l id stage).Within (Since World.Settles start) := by
  refine ClassFile.derive_respects sound (fun same _ _ => ?_) (fun either _ _ _ _ => ?_) (fun _ => ?_) file
  · refine within_modify fun _ => (modify · fun inside earlier => ?_)
    exact earlier.derivedSupertypes (derived inside) (same ▸ missing) _ _
  · refine within_modify fun _ => (modify · fun inside earlier => ?_)
    refine earlier.derivedMembers (derived inside) (fun both => missing ?_) _ _ _ _
    exact either.elim (· ▸ both.1) (· ▸ both.2)
  · refine RawClass.deriveAllMembers_respects sound.toLoads (within_modify fun _ => (modify · fun inside earlier => ?_))
    have free : (start.arena.get id).completion ≠ some .scheduled := fun scheduled =>
      derived inside fun file => by simp [scheduled]
    exact earlier.trans (.markStage (.inl (earlier.stays free)))

theorem ensureStage_within (sound : l.Rooted World.Settles) (id : ClassId) (stage : Stage) :
    (l.ensureStage id stage).Within World.Settles := by
  refine fun w => ?_
  by_cases has : w.hasStage id stage
  · unfold ensureStage
    exact ends_bind.mpr (ends_get.mpr (ends_ite.mpr ⟨fun _ => ends_pure.mpr (WorldOrder.refl w), (absurd has ·)⟩))
  · have since : l.Rooted (Since World.Settles w) := sound.weaken fun _ _ => WorldOrder.since
    have nest := completeNest_respects (fun id => (markAll_within id).sinceStart w) l.depth id
    refine (ensureStage_steps since trivial (fun middle gain => ?_) (fun w _ => nest w) (fun middle file raw => ?_) w).mono
      (fun _ _ since => since (WorldOrder.refl w)) (fun _ _ failed => failed.imp_left fun since => since (WorldOrder.refl w))
    · exact ends_mark.mpr (WorldOrder.since (modify (WorldOrder.refl middle) fun _ _ => .markStage gain))
    by_cases derived : id.index < w.arena.size → ¬ (w.arena.get id).Underived
    · exact derive_within since has derived file middle
    · -- No class file is behind a class that had none behind it.
      obtain ⟨inside, underived⟩ := Classical.not_imp.mp derived
      have never (after : World) : Since World.Settles w middle after := fun earlier =>
        absurd raw ((earlier.records id inside).stays (not_not.mp underived file))
      exact ends_of_outcomes (fun _ after _ => never after) fun _ after _ => ⟨never after, fun _ _ => trivial⟩

theorem object_within (sound : l.Tracks World.Settles) : l.object.Within World.Settles := by
  refine within_of_worlds fun w => ?_
  refine ends_bind.mpr (ends_get.mpr ?_)
  split
  · exact ends_pure.mpr (WorldOrder.refl w)
  · rename_i unknown
    refine ends_bind.mpr (((sound.searches.classForName _).worlds w).mono (fun id middle earlier => ?_)
      (fun _ _ failed => failed))
    refine ends_bind.mpr (ends_modify.mpr (ends_pure.mpr ?_))
    exact { earlier with root := fun other known => by rw [unknown] at known; cases known }

theorem loadRelation : LoadRelation World.Settles :=
  .of_elsewhere (fun _ _ _ _ => of_same rfl rfl rfl) (fun _ => trivial)
    (fun _ _ => ends_modifyGet.mpr (of_same rfl rfl rfl)) (fun record _ => addClass_within record) filled_within
    object_within fun sound id stage _ => ensureStage_within sound id stage

end World.Settles

/-! ## Worlds that failed loads cannot harm -/

/-- The metadata in some class file was found to be of no use. -/
def World.FailedLoad (w after : World) : Prop := ∃ depth file name e,
  ((Loader.ofDepth depth).encodedClass file name).on w = some (.error e, after)

/-- Top-level and member classes that the class has as supertypes or as member classes. -/
def Arena.mentioned (arena : Arena) (id : ClassId) : List ClassId :=
  ((arena.get id).supertypes.filterMap Ty.class? ++ (arena.get id).members).filter fun other =>
    (arena.get other).kind.isTopLevel || (arena.get other).kind.isMember

/-- Names lead back to the classes that are called so: the root class, which is known, and whatever is mentioned by
the classes that the cache holds, all of which are complete. -/
structure World.Settled (w : World) : Prop where
  nested : w.arena.Nested
  root : ∃ id, w.root = some id ∧ w.system.check w.config.rootClass = some (.cls id)
  complete : ∀ name id, w.system.check name = some (.cls id) → (w.arena.get id).Described
  mentioned : ∀ name id, w.system.check name = some (.cls id) → ∀ other ∈ w.arena.mentioned id,
    other.index < w.arena.size ∧ w.system.check (w.arena.fullName other) = some (.cls other)

theorem Loader.find_held (held : w.system.check name = some named) (depth : Nat) :
    ((ofDepth (depth + 1)).find name).on w = some (.ok named, w) := by
  obtain ⟨entry, hit, same⟩ := Option.bind_eq_some_iff.mp held
  cases entry with
  | missing => cases same
  | found other =>
    cases same
    have here : (w.cache .session).lookup name = some (.found named) := hit
    change (do (Resolver.system (← get).config).find (ofDepth depth) name : Run Named).on w = _
    rw [on_get_bind]
    unfold Resolver.system Resolver.find Cache.find
    rw [on_get_bind, here]
    rfl

theorem World.FailedLoad.keeps (failed : w.FailedLoad after) : w.Settles after ∧ after.system = w.system := by
  obtain ⟨depth, file, name, e, ran⟩ := failed
  have related := Settles.loadRelation
  exact ⟨(related.encodedClass_within (related.ofDepth depth).toTracks file name).left ran,
    (Loader.encodedClass_failed depth file name w).error ran⟩

theorem World.failedLoads_keep (failed : Relation.ReflTransGen FailedLoad w after) :
    w.Settles after ∧ after.system = w.system := by
  induction failed with
  | refl => exact ⟨WorldOrder.refl _, rfl⟩
  | tail _ next ih =>
    obtain ⟨kept, layers⟩ := next.keeps
    exact ⟨WorldOrder.trans ih.1 kept, layers.trans ih.2⟩

/-- A class that was complete mentions the same classes later. -/
theorem World.Settles.mentioned (kept : w.Settles after) {id other : ClassId} (described : (w.arena.get id).Described)
    (mentioned : other ∈ after.arena.mentioned id) : other ∈ w.arena.mentioned id := by
  obtain ⟨supertypes, added, signatures⟩ := described
  simp only [Arena.mentioned, kept.supertypes id supertypes, kept.members id added signatures,
    List.mem_filter] at mentioned ⊢
  refine ⟨mentioned.1, ?_⟩
  by_cases present : other.index < w.arena.size
  · rw [← kept.headers.kind present]
    exact mentioned.2
  · -- An absent class has the kind of a top-level class.
    rw [Arena.get_absent _ (Nat.le_of_not_lt present)]
    rfl

/-- Where the root class is known and no class in the cache is waiting for a stage, loads that fail leave no trace:
the root class and all that the classes in the cache mention are still found by their names. -/
theorem failed_loads_leave_no_trace {w after : World} (settled : w.Settled)
    (failed : Relation.ReflTransGen World.FailedLoad w after) (depth : Nat) :
    (∃ root, after.root = some root ∧
      ((Loader.ofDepth (depth + 1)).find after.config.rootClass).on after = some (.ok (.cls root), after)) ∧
    ∀ name id, after.system.check name = some (.cls id) →
      ((Loader.ofDepth (depth + 1)).find name).on after = some (.ok (.cls id), after) ∧
      ∀ other ∈ after.arena.mentioned id,
        ((Loader.ofDepth (depth + 1)).find (after.arena.fullName other)).on after = some (.ok (.cls other), after) := by
  obtain ⟨kept, layers⟩ := World.failedLoads_keep failed
  constructor
  · obtain ⟨root, known, held⟩ := settled.root
    refine ⟨root, kept.root root known, Loader.find_held ?_ depth⟩
    rw [layers, kept.config, held]
  · intro name id held
    refine ⟨Loader.find_held held depth, fun other mentioned => Loader.find_held ?_ depth⟩
    rw [layers] at held
    have before := kept.mentioned (settled.complete name id held) mentioned
    obtain ⟨inside, found⟩ := settled.mentioned name id held other before
    rw [layers, kept.headers.fullName settled.nested inside, found]

/-- Metadata that mentions an absent class, met by a session that knows the root class and a nest. -/
theorem failed_loads_leave_no_trace_nest :
    let stages := Stage.all.foldl Stages.add .none
    let cached : Layers :=
      ((({} : Layers).insert "java.lang.Object" (.cls ⟨0⟩)).insert "p.A" (.cls ⟨1⟩)).insert "p.A.I" (.cls ⟨2⟩)
    let w : World := {
      arena := ⟨#[
        { name := "Object", package := some ⟨"java.lang"⟩, stages },
        { name := "A", package := some ⟨"p"⟩, superType := some (.cls ⟨0⟩), members := [⟨2⟩], stages },
        { name := "I", package := some ⟨"p"⟩, kind := .memberOf ⟨1⟩, superType := some (.cls ⟨1⟩), stages }]⟩
      root := some ⟨0⟩
      caches := Assoc.empty.insert .session cached }
    let document : Metadata := { version := "0.1.0", name := "p.B", superType := some "p.C" }
    let file : ClassFile := {
      name := "p.B", compilerVersion := some "0.1.0", encoded := .ofList [("jltc", document.render)] }
    w.Settled ∧ ∃ e after, ((Loader.ofDepth 20).encodedClass file "p.B").on w = some (.error e, after) ∧
      after.arena.size = 4 ∧ ((Loader.ofDepth 1).find "p.A.I").on after = some (.ok (.cls ⟨2⟩), after) := by
  intro stages cached w document file
  have held (name : String) (id : ClassId) (hit : w.system.check name = some (.cls id)) : id ∈ w.arena.ids := by
    have system : w.system = cached := rfl
    simp only [system, cached, Layers.check, Layers.lookup_insert] at hit
    split at hit
    · cases hit
      decide
    split at hit
    · cases hit
      decide
    split at hit
    · cases hit
      decide
    · cases hit
  have settled : w.Settled := {
    nested := by decide +kernel
    root := ⟨⟨0⟩, rfl, by decide +kernel⟩
    complete := by
      have all : ∀ id ∈ w.arena.ids, (w.arena.get id).Described := by decide +kernel
      exact fun name id hit => all id (held name id hit)
    mentioned := by
      have all : ∀ id ∈ w.arena.ids, ∀ other ∈ w.arena.mentioned id, other.index < w.arena.size ∧
        w.system.check (w.arena.fullName other) = some (.cls other) := by decide +kernel
      exact fun name id hit => all id (held name id hit) }
  obtain ⟨e, after, ran, size⟩ : ∃ e after, ((Loader.ofDepth 20).encodedClass file "p.B").on w =
      some (.error e, after) ∧ after.arena.size = 4 := by decide +kernel
  have failed : w.FailedLoad after := ⟨20, file, "p.B", e, ran⟩
  have found := (failed_loads_leave_no_trace settled (.single failed) 0).2 "p.A.I" ⟨2⟩
  refine ⟨settled, e, after, ran, size, (found ?_).1⟩
  rw [failed.keeps.2]
  decide +kernel

/-- The metadata of a class mentions a member that another class lacks. To look for it, the supertypes of that
class are derived while the layer is forked, and so the root class is found and remembered as such. The layer is
dropped, and the name of the root class leads to another class from then on, of which nothing is a subtype. -/
theorem failed_load_splits_root :
    let document : Metadata := { version := "0.1.0", name := "p.A", fields := [{ name := "x", type := "p.B.X" }] }
    let u : Universe := { classFiles := [
      { name := "java.lang.Object", raw := some { name := "java.lang.Object" } },
      { name := "p.B", raw := some { name := "p.B" } },
      { name := "p.A", compilerVersion := some "0.1.0", encoded := .ofList [("jltc", document.render)] }] }
    let w := Request.next (.ask (.classNamed "p.A")) 30 (.ofUniverse {} u)
    (Reachable {} u w ∧ w.system.overlays = [] ∧ w.root = some ⟨2⟩) ∧
      ∃ after, ((Loader.ofDepth 30).find "java.lang.Object").on w = some (.ok (.cls ⟨3⟩), after) := by
  intro document u w
  have reached : Reachable {} u w := (Leads.refl _).next (.ask (.classNamed "p.A")) 30 trivial
  have unforked : w.system.overlays.isEmpty := by decide +kernel
  exact ⟨⟨reached, List.isEmpty_iff.mp unforked, by decide +kernel⟩, by decide +kernel⟩

end ClassUniverse
