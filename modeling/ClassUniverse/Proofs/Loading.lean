import ClassUniverse.Proofs.Headers
import ClassUniverse.Proofs.RespectsLookup
import ClassUniverse.Resolver

/-! Loading and completing classes is made of a few steps. A relation between worlds that these respect is
respected by loaders of every depth. One that looks at nothing but the caches need only allow the calls on the
session's cache. -/
namespace ClassUniverse

open Run Loader

variable {goals : Goal → Prop}

namespace Cache

variable {R : World → World → Prop} {stage : Stage}

def close (slot : Slot) (kept : Bool) : Run Unit := if kept then commit slot else discard slot

/-- Runs a computation in a forked layer, which is then kept or dropped by what came out. -/
def forked (slot : Slot) (keep : Except Error α → Bool) (x : Run α) : Run α := do
  fork slot
  let result ← x.outcome
  close slot (keep result)
  match result with
  | .ok a => return a
  | .error e => throw e

theorem forked_within [WorldOrder R] (free : ∀ w caches, R w { w with caches })
    {x : Run α} (keep : Except Error α → Bool) (kept : x.Within R goals) : (forked slot keep x).Within R goals := by
  refine within_bind (within_modify fun w => free w _) fun _ => within_caught kept fun result asks => ?_
  refine within_bind (within_ite (commit_within free _) (discard_within free _)) fun _ => ?_
  split
  · exact within_pure _
  · exact within_raise (asks _ rfl)

end Cache

/-- Metadata is read in a forked layer, which is kept if that succeeds. -/
theorem Loader.encodedClass_eq (l : Loader) (file : ClassFile) (name : String) : l.encodedClass file name = (do
    let version := (← get).config.version
    if file.compatibility version = .incompatible then
      throw (.incompatibleVersion name version.name (file.compilerVersion.getD "unknown") version.text)
    else
      match file.metadata? version with
      | none => throw (.badEncoding name (.noMetadata version.name))
      | some text => Cache.forked .session Except.isOk (l.decode text file.name)) := by
  refine bind_congr fun w => ?_
  dsimp only
  split
  · rfl
  · cases file.metadata? w.config.version with
    | none => rfl
    | some text =>
      refine bind_congr fun _ => bind_congr fun result => ?_
      cases result <;> rfl

/-! ## What is written when a class is filled in -/

/-- A class of which nothing is known yet, and that is not built in place. -/
structure ClassRecord.Bare (r : ClassRecord) : Prop where
  stages : r.stages = .none
  unbuilt : r.completion ≠ some .assembled

/-- A class without members, all of whose stages are still to come. -/
structure ClassRecord.Shell (r : ClassRecord) : Prop extends r.Bare where
  fields : r.fields = []
  methods : r.methods = []
  constructors : r.constructors = []
  pending : r.completion ≠ none
  filed : ∀ completion, r.completion = some completion → completion.isFromClassFile → r.job = none

section Filling

variable {R : World → World → Prop} [WorldOrder R] {goals : Goal → Prop} {l : Loader} {id : ClassId}

section Documents

variable (sound : l.Tracks R goals)
include sound

theorem Metadata.types_respects (written : List String) : (Metadata.types l written).Within R goals :=
  within_mapM fun written _ => typeForName_within sound written

theorem Metadata.field_respects (container : Ty) (d : FieldDecl) : (field l container d).Within R goals :=
  within_bind (typeForName_within sound _) fun _ => within_pure _

theorem Metadata.method_respects (container : Ty) (d : MethodDecl) : (method l container d).Within R goals := by
  refine within_bind (typeForName_within sound _) fun _ => within_bind (types_respects sound _) fun _ => ?_
  exact within_bind (types_respects sound _) fun _ => within_pure _

theorem Metadata.constructor_respects (container : Ty) (name : String)
    (d : ConstructorDecl) : (constructor l container name d).Within R goals :=
  within_bind (types_respects sound _) fun _ => within_bind (types_respects sound _) fun _ => within_pure _

theorem Metadata.populate_respects
    (stored : ∀ superType interfaces fields methods constructors members, (update id fun record =>
      { record with superType, interfaces, fields, methods, constructors, members }.markStages
        [.supertypesResolved, .membersAdded, .signaturesResolved]).Within R goals)
    (m : Metadata) : (m.populate l id).Within R goals := by
  refine within_bind (within_optionMapM fun _ _ => typeForName_within sound _) fun superType => ?_
  refine within_bind (types_respects sound _) fun interfaces => ?_
  refine within_bind (within_mapM fun d _ => field_respects sound _ d) fun fields => ?_
  refine within_bind (within_mapM fun d _ => method_respects sound _ d) fun methods => ?_
  refine within_bind (within_record id) fun owner => ?_
  refine within_bind (within_mapM fun d _ => constructor_respects sound _ _ d) fun constructors => ?_
  exact within_bind (within_mapM fun name _ => sound.searches.classForName name) fun members => stored _ _ _ _ _ _

end Documents

theorem Metadata.declare_respects (added : ∀ record : ClassRecord, record.Shell → (addClass record).Within R goals)
    (named : ∀ name id, (System.addNamed name (.cls id)).Within R goals) (m : Metadata) (kind : ClassKind)
    (package : Option Package) (name : String) : (m.declare kind package name).Within R goals := by
  refine within_bind (added _ ⟨⟨rfl, nofun⟩, rfl, rfl, rfl, nofun, fun _ _ _ => rfl⟩) fun id => within_bind (named _ id) fun _ => ?_
  refine within_bind (within_fullName id) fun full => ?_
  exact within_ite (within_bind (named _ id) fun _ => within_pure _) (within_pure _)

theorem ClassFile.structure_respects (file : ClassFile) : file.structure?.Within R goals := by
  unfold structure?
  split
  · exact within_pure _
  · exact within_plain rfl

theorem RawClass.typeOf_respects (sound : l.Tracks R goals) (descriptor : Descriptor) : (typeOf l descriptor).Within R goals := by
  induction descriptor with
  | primitive kind => exact within_pure _
  | cls name => exact within_bind (sound.searches.classForName name) fun _ => within_pure _
  | array base ih => exact within_bind ih fun _ => within_pure _

theorem RawClass.parsed_respects (result : Except String α) : (parsed result).Within R goals := by
  cases result with
  | ok value => exact within_pure _
  | error text => exact within_plain rfl

theorem RawClass.deriveSupertypes_respects (sound : l.Rooted R goals)
    (stored : ∀ superType interfaces, (update id fun record =>
      { record with superType, interfaces }.markStage .supertypesResolved).Within R goals)
    (raw : RawClass) : (raw.deriveSupertypes l id).Within R goals := by
  have rest (superType : Option Ty) : (do
      let interfaces ← raw.interfaces.mapM fun name => Ty.cls <$> l.classForName (dotted name)
      update id fun record =>
        { record with superType, interfaces }.markStage .supertypesResolved : Run Unit).Within R goals := by
    refine within_bind (within_mapM fun name _ => within_map (sound.searches.classForName _)) fun interfaces => ?_
    exact stored superType interfaces
  refine within_bind (within_isRoot id) fun _ => within_ite (within_bind (within_pure _) rest) ?_
  split
  · exact within_bind (within_map (within_map (sound.searches.classForName _))) rest
  · exact within_bind (within_map (objectType_within sound)) rest

theorem RawClass.procedureOf_respects (sound : l.Tracks R goals) (name : String) (hidden : Nat) (raw : RawMember) :
    (procedureOf l id name hidden raw).Within R goals := by
  refine within_bind (parsed_respects _) fun parts => ?_
  obtain ⟨params, result⟩ := parts
  refine within_bind (within_mapM fun param _ => typeOf_respects sound param) fun _ => ?_
  refine within_bind (within_mapM fun e _ => within_map (sound.searches.classForName _)) fun _ => ?_
  refine within_ite (within_pure _) ?_
  exact within_bind (typeOf_respects sound result) fun _ => within_pure _

theorem RawClass.memberClassesOf_respects (sound : l.Tracks R goals) (raw : RawClass) :
    (raw.memberClassesOf l).Within R goals := by
  refine within_bind (within_mapM fun inner _ => sound.searches.classForName _) fun _ => ?_
  exact within_bind within_arena fun _ => within_pure _

theorem RawClass.fieldsOf_respects (sound : l.Tracks R goals) (raw : RawClass) (id : ClassId) :
    (raw.fieldsOf l id).Within R goals := by
  refine within_mapM fun field _ => within_bind (parsed_respects _) fun _ => ?_
  exact within_bind (typeOf_respects sound _) fun _ => within_bind (within_record id) fun _ => within_pure _

theorem RawClass.deriveMembers_respects (sound : l.Tracks R goals)
    (stored : ∀ members fields methods constructors, (update id fun record =>
      { record with members, fields, methods, constructors }.markStages [.membersAdded, .signaturesResolved]).Within R goals)
    (raw : RawClass) : (raw.deriveMembers l id).Within R goals := by
  refine within_bind (raw.memberClassesOf_respects sound) fun members => ?_
  refine within_bind (raw.fieldsOf_respects sound id) fun fields => within_bind (within_record id) fun record => ?_
  refine within_bind (within_mapM fun method _ => procedureOf_respects sound _ _ method) fun procedures => ?_
  exact stored _ _ _ _

theorem RawClass.deriveAllMembers_respects (sound : l.Loads R) (marked : (mark id .allMembersAdded).Within R) :
    (deriveAllMembers l id).Within R := by
  refine within_bind (sound.steps.interfaces id) fun _ => within_bind (sound.steps.superType id) fun _ => ?_
  exact within_bind (within_forM fun above _ => sound.ensure above _) fun _ => marked

theorem Loader.completeNest_respects (marked : ∀ id, (update id (·.markStages Stage.all)).Within R goals)
    (steps : Nat) (id : ClassId) : (completeNest steps id).Within R goals := by
  induction steps generalizing id with
  | zero => exact within_exhausted
  | succ steps ih =>
    refine within_bind (marked id) fun _ => within_bind (within_record id) fun record => ?_
    exact within_forM fun member _ => ih member

theorem ClassFile.derive_respects (sound : l.Rooted R goals)
    (supertypes : stage = .supertypesResolved → ∀ superType interfaces, (update id fun record =>
      { record with superType, interfaces }.markStage .supertypesResolved).Within R goals)
    (members : stage = .membersAdded ∨ stage = .signaturesResolved → ∀ members fields methods constructors,
      (update id fun record =>
        { record with members, fields, methods, constructors }.markStages [.membersAdded, .signaturesResolved]).Within
          R goals) (last : stage = .allMembersAdded → (RawClass.deriveAllMembers l id).Within R goals)
    (file : ClassFile) : (file.derive l id stage).Within R goals := by
  cases stage with
  | supertypesResolved =>
    exact within_bind file.structure_respects fun raw => raw.deriveSupertypes_respects sound (supertypes rfl)
  | membersAdded =>
    exact within_bind file.structure_respects fun raw => raw.deriveMembers_respects sound.toTracks (members (.inl rfl))
  | signaturesResolved =>
    exact within_bind file.structure_respects fun raw => raw.deriveMembers_respects sound.toTracks (members (.inr rfl))
  | allMembersAdded => exact last rfl

/-- The class may be brought to the stage without a goal: it does not wait for goals, or there is nothing left to be
resolved. -/
def ClassRecord.MayGain (r : ClassRecord) (stage : Stage) : Prop := r.completion ≠ some .scheduled ∨
  stage = .signaturesResolved ∧ r.stages.has .membersAdded ∧ r.signaturesCanonical

/-- The stages before it are ensured, then the class is completed up to it. -/
theorem Loader.ensureStage_steps (sound : l.Rooted R goals) (asked : goals (.reach id stage))
    (marked : ∀ w, (w.arena.get id).MayGain stage → (mark id stage).Ends w (fun _ after => R w after)
      (fun e after => R w after ∧ e.AsksFor goals))
    (nest : ∀ w, (w.arena.get id).completion = some .assembled → (completeNest l.depth id).Ends w
      (fun _ after => R w after) (fun e after => R w after ∧ e.AsksFor goals))
    (derived : ∀ (w : World) (file : ClassFile), (w.arena.get id).completion = some (.derived file) →
      (file.derive l id stage).Ends w (fun _ after => R w after) (fun e after => R w after ∧ e.AsksFor goals)) :
    (l.ensureStage id stage).Within R goals := by
  refine within_bind within_get fun w => within_ite (within_pure _) ?_
  refine within_bind (within_forM fun earlier before => sound.stage id earlier ?_) fun _ => ?_
  · rintro rfl
    cases stage <;> simp [Stage.prerequisites] at before
  refine fun w => ends_bind.mpr (ends_record.mpr ?_)
  cases pending : (w.arena.get id).completion with
  | none => exact marked w (.inl (by simp [pending]))
  | some completion =>
    cases completion with
    | decoded => exact marked w (.inl (by simp [pending]))
    | scheduled =>
      refine ends_bind.mpr (ends_record.mpr (ends_ite.mpr ⟨fun _ => ends_pure.mpr (WorldOrder.refl w), fun _ => ?_⟩))
      refine ends_ite.mpr ⟨fun short => marked w (.inr (by simpa [and_assoc] using short)), fun _ => ?_⟩
      refine ends_throw.mpr ⟨WorldOrder.refl w, fun goal missing => ?_⟩
      cases missing
      exact asked
    | assembled => exact nest w pending
    | derived file => exact derived w file pending

theorem Loader.ensureStage_respects (sound : l.Rooted R)
    (stored : ∀ id (change : ClassRecord → ClassRecord), (∀ r, (change r).header = r.header) →
      (update id change).Within R) (id : ClassId) (stage : Stage) : (l.ensureStage id stage).Within R := by
  have marked (stage : Stage) : (mark id stage).Within R := stored id _ fun _ => rfl
  have nest := completeNest_respects (fun id => stored id _ fun r => r.header_markStages _) l.depth id
  refine ensureStage_steps sound trivial (fun w _ => marked stage w) (fun w _ => nest w) fun w file _ => ?_
  refine ClassFile.derive_respects sound (fun _ _ _ => stored id _ fun _ => rfl)
    (fun _ _ _ _ _ => stored id _ fun _ => rfl) (fun _ => ?_) file w
  exact RawClass.deriveAllMembers_respects sound.toLoads (marked _)

theorem Resolver.sessionKnows_within (name : String) : (Resolver.session.packageExists name).Within R goals := by
  have read (test : World → Bool) : (do return test (← get) : Run Bool).Within R goals :=
    within_bind within_get fun _ => within_pure _
  refine within_bind (read _) fun _ => within_ite (within_pure _) ?_
  exact within_bind (read _) fun _ => within_ite (within_pure _) (within_pure _)

end Filling

/-! ## Loaders of every depth -/

/-- A relation that finding and reading a class respects, if filling it in does. Jobs may be asked for. -/
structure LoadSteps (R : World → World → Prop) (goals : Goal → Prop := fun _ => True) : Prop extends WorldOrder R where
  jobs : ∀ job, goals (.typesInitialized job)
  loaded : ∀ source, (loadSource source).Within R goals
  shell : ∀ record : ClassRecord, record.Shell → (addClass record).Within R goals
  addNamed : ∀ name named, (System.addNamed name named).Within R goals
  find : ∀ {backing : Backing}, (∀ name, (backing.find name).Within R goals) →
    (∀ name, (backing.packageExists name).Within R goals) → ∀ rememberMisses name,
    (Cache.find .session backing rememberMisses name).Within R goals
  forked : ∀ {x : Run ClassId} (keep : Except Error ClassId → Bool), x.Within R goals →
    (Cache.forked .session keep x).Within R goals
  /-- Metadata is written into a class that was added for it. -/
  filled : ∀ {l : Loader}, l.Tracks R goals → ∀ (m : Metadata) kind package name, (do
    let id ← m.declare kind package name
    m.populate l id
    return id : Run ClassId).Within R goals

namespace LoadSteps

variable {R : World → World → Prop} {goals : Goal → Prop} (related : LoadSteps R goals)
include related

theorem fromSource_within (source : SourceFile) (name : String) : (Run.fromSource source name).Within R goals := by
  have := related.toWorldOrder
  refine within_bind (related.loaded source) fun job => within_bind (within_check name) fun found => ?_
  split
  · exact within_pure _
  · refine within_bind within_get fun _ => within_ite (within_plain rfl) (within_raise fun goal missing => ?_)
    cases missing
    exact related.jobs job

section Decoding

variable {l : Loader} (sound : l.Tracks R goals)
include sound

theorem load_within (m : Metadata) : (m.load l).Within R goals := by
  have := related.toWorldOrder
  unfold Metadata.load
  split
  · exact related.filled sound m _ _ _
  · refine within_bind (sound.searches.classForName _) fun outer => within_bind (within_check _) fun found => ?_
    split
    · exact within_pure _
    · split
      · exact within_plain rfl
      · exact within_bind (within_record outer) fun _ => related.filled sound m _ _ _

theorem decode_within (text binary : String) : (l.decode text binary).Within R goals := by
  have := related.toWorldOrder
  unfold decode
  split
  · exact within_plain rfl
  · exact within_ite (related.load_within sound _) (within_plain rfl)

theorem encodedClass_within (file : ClassFile) (name : String) : (l.encodedClass file name).Within R goals := by
  have := related.toWorldOrder
  rw [encodedClass_eq]
  refine within_bind within_get fun w => within_ite (within_plain rfl) ?_
  split
  · exact within_plain rfl
  · exact related.forked _ (related.decode_within sound _ _)

theorem findOuter_within (cuts : List (List Char × List Char)) : (RawClass.findOuter l cuts).Within R goals := by
  have := related.toWorldOrder
  induction cuts with
  | nil => exact within_pure _
  | cons cut rest ih =>
    refine within_caught (sound.searches.classForName _) fun result asks => ?_
    split
    · exact within_pure _
    · exact within_ite ih (within_raise (asks _ rfl))

omit sound in
/-- A shell is added and installed, also under its source name if that differs. -/
theorem shell_within {record : ClassRecord} (fresh : record.Shell) (binary : String) (twice : String → Prop)
    [DecidablePred twice] : (do
    let id ← addClass record
    System.addNamed binary (.cls id)
    let full ← fullName id
    if twice full then System.addNamed full (.cls id)
    return id : Run ClassId).Within R goals := by
  have := related.toWorldOrder
  refine within_bind (related.shell _ fresh) fun id => within_bind (related.addNamed _ _) fun _ => ?_
  refine within_bind (within_fullName id) fun full => ?_
  exact within_ite (within_bind (related.addNamed _ _) fun _ => within_pure _) (within_pure _)

theorem rawDeclare_within (raw : RawClass) (file : ClassFile) : (raw.declare l file).Within R goals := by
  have := related.toWorldOrder
  refine within_bind (related.findOuter_within sound _) fun outer => ?_
  dsimp only
  split
  · refine within_bind (within_pure _) fun chosen => related.shell_within ?_ _ _
    exact ⟨⟨rfl, nofun⟩, rfl, rfl, rfl, nofun, fun _ _ _ => rfl⟩
  · refine within_bind (within_pure _) fun chosen => related.shell_within ?_ _ _
    exact ⟨⟨rfl, nofun⟩, rfl, rfl, rfl, nofun, fun _ _ _ => rfl⟩

theorem rawClass_within (file : ClassFile) : (l.rawClass file).Within R goals := by
  have := related.toWorldOrder
  refine within_bind (within_check _) fun found => ?_
  split
  · exact within_pure _
  · exact within_bind file.structure_respects fun raw => related.rawDeclare_within sound raw file

theorem classInFile_within (name : String) (file : ClassFile) : (l.classInFile name file).Within R goals := by
  have := related.toWorldOrder
  refine within_bind within_get fun w => ?_
  have raw (allowed : Bool) :
      (if allowed = true then l.rawClass file
        else fault (.noSuitableDefinition name w.config.version.name) : Run ClassId).Within R goals :=
    within_ite (related.rawClass_within sound file) (within_fault _ _)
  refine within_ite (raw _) (within_caught (related.encodedClass_within sound file name) fun result asks => ?_)
  split
  · exact within_pure _
  · split
    · exact raw _
    · exact raw _
    · exact within_raise (asks _ rfl)

theorem findLoaded_within (name : String) : (l.findLoaded name).Within R goals := by
  have := related.toWorldOrder
  refine within_bind within_get fun w => ?_
  split
  · exact within_bind (related.classInFile_within sound name _) fun _ => within_pure _
  · exact within_plain rfl

theorem findSourced_within (name : String) : (l.findSourced name).Within R goals := by
  have := related.toWorldOrder
  refine within_bind within_get fun w => ?_
  split
  · exact related.findLoaded_within sound name
  · dsimp only
    split
    · refine within_caught (related.encodedClass_within sound _ name) fun result asks => ?_
      split
      · exact within_pure _
      · exact related.fromSource_within _ name
      · exact within_raise (asks _ rfl)
    · exact related.fromSource_within _ name

theorem session_within (name : String) : (Resolver.session.find l name).Within R goals := by
  have := related.toWorldOrder
  have table : ((Resolver.table .session).find l name).Within R goals := by
    refine within_bind within_get fun w => ?_
    split
    · exact within_pure _
    · exact within_plain rfl
  have behind : ((Resolver.orElse .sourced .nowhere).find l name).Within R goals := by
    refine within_caught (related.findSourced_within sound name) fun result asks => ?_
    split
    · exact within_pure _
    · exact within_ite (within_plain rfl) (within_raise (asks _ rfl))
  refine within_caught table fun result asks => ?_
  split
  · exact within_pure _
  · exact within_ite behind (within_raise (asks _ rfl))

theorem system_within (config : Config) (name : String) : ((Resolver.system config).find l name).Within R goals :=
  by
  have := related.toWorldOrder
  exact related.find (related.session_within sound) Resolver.sessionKnows_within _ name

end Decoding

end LoadSteps

/-- A relation that each step of loading and completing respects. -/
structure RootRelation (R : World → World → Prop) (goals : Goal → Prop := fun _ => True) : Prop
    extends LoadSteps R goals where
  memos : ∀ w memos, R w { w with memos }
  root : ∀ {l : Loader}, l.Tracks R goals → l.object.Within R goals
  completed : ∀ {l : Loader}, l.Rooted R goals → ∀ id stage,
    (stage = .allMembersAdded → ∀ goal, goals goal) → (l.ensureStage id stage).Within R goals

/-- One that allows for what imports and packages remember. -/
structure LoadRelation (R : World → World → Prop) (goals : Goal → Prop := fun _ => True) : Prop
    extends RootRelation R goals where
  imports : ∀ w imports, R w { w with imports }
  packages : ∀ name, (System.packageExists name).Within R goals

theorem RootRelation.ofDepth (related : RootRelation R goals)
    (depth : Nat) : (Loader.ofDepth depth).Rooted R goals := by
  have := related.toWorldOrder
  have rooted {l : Loader} (sound : l.Loads R goals) : l.Rooted R goals := by
    have tracks : l.Tracks R goals := { sound with remembered := rememberedMember_within sound related.memos }
    exact { tracks with root := related.root tracks }
  induction depth with
  | zero => exact rooted ⟨fun _ => within_exhausted, fun _ _ _ => within_exhausted⟩
  | succ depth ih =>
    refine rooted ⟨fun name => ?_, fun id stage open_ => related.completed ih id stage open_⟩
    exact within_bind within_get fun w => related.system_within ih.toTracks w.config name

theorem LoadRelation.ofDepth (related : LoadRelation R goals)
    (depth : Nat) : (Loader.ofDepth depth).Respects R goals :=
  have := related.toWorldOrder
  have rooted := related.toRootRelation.ofDepth depth
  { rooted with imported := findImported_within rooted.toLoads related.imports, packages := related.packages }

/-- A relation that has no say in caches and tables need only allow that classes are added, filled in and completed. -/
theorem LoadRelation.of_elsewhere [order : WorldOrder R]
    (elsewhere : ∀ w caches memos imports, R w { w with caches, memos, imports })
    (jobs : ∀ job, goals (.typesInitialized job)) (loaded : ∀ source, (loadSource source).Within R goals)
    (shell : ∀ record : ClassRecord, record.Shell → (addClass record).Within R goals)
    (filled : ∀ {l : Loader}, l.Tracks R goals → ∀ (m : Metadata) kind package name, (do
      let id ← m.declare kind package name
      m.populate l id
      return id : Run ClassId).Within R goals)
    (root : ∀ {l : Loader}, l.Tracks R goals → l.object.Within R goals)
    (completed : ∀ {l : Loader}, l.Rooted R goals → ∀ id stage,
      (stage = .allMembersAdded → ∀ goal, goals goal) → (l.ensureStage id stage).Within R goals) :
    LoadRelation R goals := by
  have free (w : World) (caches : Assoc Slot Layers) : R w { w with caches } := elsewhere w caches w.memos w.imports
  exact { order with
    jobs, loaded, shell, filled, root, completed
    memos := fun w memos => elsewhere w w.caches memos w.imports
    imports := fun w => elsewhere w w.caches w.memos
    addNamed := System.addNamed_within free
    packages := System.packageExists_within free
    find := (within_fillsCache free .session).find
    forked := Cache.forked_within free }

/-- A relation about caches, imports and goals need only allow the calls on the session's cache and that sources are
loaded. -/
theorem RootRelation.of_frame [order : WorldOrder R]
    (elsewhere : ∀ {w after : World}, after.schedule = w.schedule → after.caches = w.caches → after.imports = w.imports →
      R w after) (loaded : ∀ source, (loadSource source).Within R)
    (addNamed : ∀ name named, (System.addNamed name named).Within R)
    (find : ∀ {backing : Backing}, (∀ name, (backing.find name).Within R) →
      (∀ name, (backing.packageExists name).Within R) → ∀ rememberMisses name,
      (Cache.find .session backing rememberMisses name).Within R)
    (forked : ∀ {x : Run ClassId} (keep : Except Error ClassId → Bool), x.Within R →
      (Cache.forked .session keep x).Within R) : RootRelation R := by
  have added (record : ClassRecord) : (addClass record).Within R := fun _ => ends_addClass.mpr (elsewhere rfl rfl rfl)
  have stored (id : ClassId) (change : ClassRecord → ClassRecord) : (update id change).Within R :=
    within_modify fun _ => elsewhere rfl rfl rfl
  exact { order with
    loaded, addNamed, find, forked
    jobs := fun _ => trivial
    memos := fun _ _ => elsewhere rfl rfl rfl
    shell := fun record _ => added record
    filled := fun sound m kind package name => by
      refine within_bind (m.declare_respects (fun record _ => added record) (fun name id => addNamed name (.cls id))
        kind package name) fun id => ?_
      exact within_bind (m.populate_respects sound fun _ _ _ _ _ _ => stored id _) fun _ => within_pure _
    root := fun sound => object_within sound fun _ _ => elsewhere rfl rfl rfl
    completed := fun sound id stage _ => ensureStage_respects sound (fun id change _ => stored id change) id stage }

/-- Caches may do what they like. -/
theorem RootRelation.of_caches [WorldOrder R]
    (elsewhere : ∀ {w after : World}, after.schedule = w.schedule → after.imports = w.imports → R w after)
    (loaded : ∀ source, (loadSource source).Within R) : RootRelation R := by
  have free (w : World) (caches : Assoc Slot Layers) : R w { w with caches } := elsewhere rfl rfl
  exact .of_frame (fun schedule _ => elsewhere schedule) loaded (System.addNamed_within free)
    (within_fillsCache free .session).find (Cache.forked_within free)

theorem LoadRelation.of_schedule [WorldOrder R]
    (elsewhere : ∀ {w after : World}, after.schedule = w.schedule → R w after)
    (loaded : ∀ source, (loadSource source).Within R) : LoadRelation R :=
  { RootRelation.of_caches (fun schedule _ => elsewhere schedule) loaded with
    imports := fun _ _ => elsewhere rfl
    packages := System.packageExists_within fun _ _ => elsewhere rfl }

/-- A relation about caches, and the calls on the session's cache that it must allow. -/
structure CacheRelation (R : World → World → Prop) : Prop extends WorldOrder R where
  elsewhere : ∀ {w after}, after.caches = w.caches → R w after
  packageExists : ∀ {backing : String → Run Bool}, (∀ name, (backing name).Within R) → ∀ name,
    (Cache.packageExists .session backing name).Within R
  addNamed : ∀ {backing : String → Run Bool}, (∀ name, (backing name).Within R) → ∀ name named,
    (Cache.addNamed .session backing name named).Within R
  find : ∀ {backing : Backing}, (∀ name, (backing.find name).Within R) →
    (∀ name, (backing.packageExists name).Within R) → ∀ rememberMisses name,
    (Cache.find .session backing rememberMisses name).Within R
  forked : ∀ {x : Run ClassId} (keep : Except Error ClassId → Bool), x.Within R →
    (Cache.forked .session keep x).Within R

namespace CacheRelation

variable {R : World → World → Prop} (related : CacheRelation R)
include related

theorem loadRelation : LoadRelation R :=
  have := related.toWorldOrder
  { RootRelation.of_frame (fun _ caches _ => related.elsewhere caches)
      (fun _ _ => ends_modifyGet.mpr (related.elsewhere rfl)) (related.addNamed within_composes.knowsPackage)
      related.find related.forked with
    imports := fun _ _ => related.elsewhere rfl
    packages := related.packageExists within_composes.knowsPackage }

end CacheRelation

end ClassUniverse
