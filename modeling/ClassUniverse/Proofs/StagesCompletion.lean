import ClassUniverse.Proofs.StagesLoading

/-! Classes that are completed on demand. A stage that was ensured is there, with all the stages before it. -/
namespace ClassUniverse

open Run Loader StagesKept ClassRecord

variable {w : World} {id : ClassId} {stage : Stage}

/-- The stages stay in order, and unless the computation fails the class is brought to the stage. -/
abbrev Run.Completes (x : Run Unit) (w : World) (id : ClassId) (stage : Stage) : Prop :=
  x.Gives World.StagesSound World.Grows w fun _ after => after.hasStage id stage

theorem StagesKept.update_marks (holds : w.StagesSound)
    (inside : id.index < w.arena.size) (advances : (w.arena.get id).Advances (change (w.arena.get id)))
    (marked : ∀ r : ClassRecord, (change r).stages.has stage) : (update id change).Completes w id stage :=
  ends_update.mpr ⟨of_modify (fun _ => advances) holds, by
    simpa [World.hasStage, Arena.get_modify_self _ inside] using marked _⟩

theorem World.Grows.inside {after : World} (grown : w.Grows after) (inside : id.index < w.arena.size) :
    id.index < after.arena.size := Nat.lt_of_lt_of_le inside grown.size

section Derivation

variable {l : Loader} {w : World} {id : ClassId} (holds : w.StagesSound) (inside : id.index < w.arena.size)
include holds inside

theorem RawClass.deriveSupertypes_completes (sound : l.Respects StagesKept) (raw : RawClass) :
    (raw.deriveSupertypes l id).Completes w id .supertypesResolved := by
  have stored (superType : Option Ty) (middle : World) (holds : middle.StagesSound) (grown : w.Grows middle) : (do
      let interfaces ← raw.interfaces.mapM fun name => Ty.cls <$> l.classForName (dotted name)
      update id fun record =>
        { record with superType, interfaces }.markStage .supertypesResolved : Run Unit).Completes middle id
        .supertypesResolved := by
    refine (within_mapM fun name _ => within_map (sound.toTracks.searches.classForName _)).andThen holds
      fun interfaces last holds further => ?_
    refine update_marks holds (further.inside (grown.inside inside)) ?_ fun r => ?_
    · exact (advances_supertypes _ superType interfaces).trans (advances_first rfl)
    · simp [has_markStage]
  refine gives_isRoot.mpr (gives_ite (fun _ => (within_pure _).andThen holds stored) fun _ => ?_)
  split
  · exact (within_map (within_map (sound.toTracks.searches.classForName _))).andThen holds stored
  · exact (within_map (objectType_within sound)).andThen holds stored

theorem RawClass.deriveMembers_completes (sound : l.Tracks StagesKept) (raw : RawClass)
    (marked : stage ∈ [Stage.membersAdded, .signaturesResolved]) : (raw.deriveMembers l id).Completes w id stage := by
  refine (raw.memberClassesOf_respects sound).andThen holds fun members first holds grown => ?_
  refine (raw.fieldsOf_respects sound id).andThenMeets (fieldsOf_canonical l raw id) holds
    fun fields second holds further fieldsKnown => ?_
  have inside := further.inside (grown.inside inside)
  refine gives_record.mpr ?_
  refine Within.andThenMeets (within_mapM fun method _ => procedureOf_respects sound _ _ method)
    (meets_mapM fun method _ => procedureOf_canonical l _ _ _ method) holds
    fun procedures last holds more known => ?_
  refine update_marks holds (more.inside inside) (advances_derived fieldsKnown ?methods ?constructors members) fun r => ?_
  case methods =>
    intro m member
    obtain ⟨⟨p, returns⟩, listed, built⟩ := List.mem_filterMap.mp member
    obtain ⟨returns, rfl, rfl⟩ := Option.map_eq_some_iff.mp built
    have both := known _ listed
    simp only [Method.isCanonical, Bool.and_eq_true]
    exact ⟨both.1, both.2 _ rfl⟩
  case constructors =>
    intro c member
    obtain ⟨⟨p, returns⟩, listed, built⟩ := List.mem_filterMap.mp member
    dsimp only at built
    split at built
    · cases built
      exact (known _ listed).1
    · cases built
  · simp only [List.mem_cons, List.not_mem_nil, or_false] at marked
    rcases marked with rfl | rfl <;> simp [markStages, has_markStage]

theorem StagesKept.mark_completes (ready : ∀ earlier ∈ stage.prerequisites, w.hasStage id earlier)
    (canonical : stage = .signaturesResolved → (w.arena.get id).signaturesCanonical) :
    (mark id stage).Completes w id stage :=
  update_marks holds inside (advances_markStage ready fun _ => canonical) fun r => by simp [has_markStage]

theorem RawClass.deriveAllMembers_completes (sound : l.Tracks StagesKept)
    (ready : ∀ earlier ∈ Stage.allMembersAdded.prerequisites, w.hasStage id earlier) :
    (RawClass.deriveAllMembers l id).Completes w id .allMembersAdded := by
  refine (sound.steps.interfaces id).andThen holds fun interfaces first holds grown => ?_
  refine (sound.steps.superType id).andThen holds fun superType second holds further => ?_
  refine (within_forM fun above _ => sound.ensure above _).andThen holds fun _ last holds more => ?_
  have since : w.Grows last := WorldOrder.trans (WorldOrder.trans grown further) more
  exact mark_completes holds (since.inside inside)
    (fun earlier member => since.stages id earlier (ready earlier member)) nofun

theorem ClassFile.derive_completes (sound : l.Respects StagesKept) (file : ClassFile) (stage : Stage)
    (ready : ∀ earlier ∈ stage.prerequisites, w.hasStage id earlier) :
    (file.derive l id stage).Completes w id stage := by
  cases stage with
  | supertypesResolved =>
    refine file.structure_respects.andThen holds fun raw middle holds grown => ?_
    exact raw.deriveSupertypes_completes holds (grown.inside inside) sound
  | membersAdded | signaturesResolved =>
    refine file.structure_respects.andThen holds fun raw middle holds grown => ?_
    exact raw.deriveMembers_completes holds (grown.inside inside) sound.toTracks (by decide)
  | allMembersAdded => exact RawClass.deriveAllMembers_completes holds inside sound.toTracks ready

theorem Loader.checkScheduled_completes : (checkScheduled id stage).Completes w id stage := by
  refine gives_record.mpr (gives_ite (fun has => gives_pure holds has) fun _ => ?_)
  refine gives_ite (fun short => ?_) fun _ => gives_throw _ holds
  simp only [Bool.and_eq_true, decide_eq_true_eq] at short
  obtain ⟨⟨rfl, added⟩, canonical⟩ := short
  exact mark_completes holds inside (fun earlier member => List.mem_singleton.mp member ▸ added) fun _ => canonical

theorem Loader.complete_completes (sound : l.Respects StagesKept)
    (ready : ∀ earlier ∈ stage.prerequisites, w.hasStage id earlier) :
    (l.complete id stage (w.arena.get id).completion).Completes w id stage := by
  have record := holds.records id inside
  cases left : (w.arena.get id).completion with
  | none =>
    refine mark_completes holds inside ready fun _ => record.canonical ?_
    exact (isComplete_iff _).mp (record.pending.mp left) _
  | some completion =>
    cases completion with
    | decoded => exact mark_completes holds inside ready fun _ => record.unsourced (record.filed _ left rfl)
    | scheduled => exact checkScheduled_completes holds inside
    | assembled => exact absurd left record.unbuilt
    | derived file => exact file.derive_completes holds inside sound stage ready

end Derivation

/-- Ensuring a stage keeps the stages in order and brings the class to it; nothing happens to a class that
does not exist. -/
structure Loader.StagesSound (l : Loader) : Prop extends l.Respects StagesKept where
  reaches : ∀ {id w} stage, w.StagesSound → id.index < w.arena.size → (l.ensure id stage).Completes w id stage
  absent : ∀ {id w} stage, w.arena.size ≤ id.index →
    (l.ensure id stage).Idle w

section Ensured

variable {l : Loader} {w : World} {id : ClassId}

theorem Loader.ensureEach_gives (sound : l.StagesSound) (stages : List Stage) (holds : w.StagesSound)
    (inside : id.index < w.arena.size) : (stages.forM (l.ensure id)).Gives World.StagesSound World.Grows w
      fun _ after => ∀ stage ∈ stages, after.hasStage id stage := by
  induction stages generalizing w with
  | nil => exact gives_pure holds (by simp)
  | cons stage rest ih =>
    refine (sound.reaches stage holds inside).bind fun _ middle holds grown reached => ?_
    refine (ih holds (grown.inside inside)).mono fun _ after _ further others other member => ?_
    rcases List.mem_cons.mp member with rfl | member
    · exact further.stages id other reached
    · exact others other member

theorem Loader.ensureStage_completes (sound : l.StagesSound) (stage : Stage) (holds : w.StagesSound)
    (inside : id.index < w.arena.size) : (l.ensureStage id stage).Completes w id stage := by
  refine gives_get.mpr (gives_ite (fun has => gives_pure holds has) fun _ => ?_)
  refine (ensureEach_gives sound _ holds inside).bind fun _ middle holds grown ready => gives_record.mpr ?_
  exact complete_completes holds (grown.inside inside) sound.toRespects ready

theorem Loader.ensureStage_absent (sound : l.StagesSound) (stage : Stage) (outside : w.arena.size ≤ id.index) :
    (l.ensureStage id stage).Idle w := by
  have each (stages : List Stage) : (stages.forM (l.ensure id)).Idle w :=
    (idle_sequences w).forM fun stage _ => sound.absent stage outside
  unfold ensureStage
  rw [Idle, ends_bind, ends_get]
  split
  · exact ends_pure.mpr rfl
  · refine idle_bind (each _) fun _ => ?_
    -- The empty record of an absent class has no completion left, and there is nothing to mark.
    rw [Idle, ends_bind, ends_record, Arena.get_absent _ outside]
    refine ends_mark.mpr ?_
    rw [Arena.modify_absent _ outside]

theorem Loader.ensureStage_within (sound : l.StagesSound) (id : ClassId) (stage : Stage) :
    (l.ensureStage id stage).Within StagesKept := by
  refine within_of_ends fun w holds => ?_
  by_cases inside : id.index < w.arena.size
  · refine Ends.mono (ensureStage_completes sound stage holds inside) ?_ ?_
    · exact fun _ _ reached => reached.1
    · exact fun _ _ failed => failed
  · refine (ensureStage_absent sound stage (Nat.le_of_not_lt inside)).mono ?_ ?_
    · rintro _ after rfl
      exact ⟨holds, WorldOrder.refl _⟩
    · exact fun _ _ => False.elim

end Ensured

theorem StagesKept.respects {l : Loader} (sound : l.Loads StagesKept) : l.Respects StagesKept :=
  sound.respects (fun _ _ => of_same rfl rfl rfl) (fun _ _ => of_same rfl rfl rfl) (fun _ _ => of_same rfl rfl rfl)
    free_caches

theorem Loader.ofDepth_stagesSound (depth : Nat) : (Loader.ofDepth depth).StagesSound := by
  induction depth with
  | zero =>
    have loads : (Loader.ofDepth 0).Loads StagesKept := ⟨fun _ => within_exhausted, fun _ _ _ => within_exhausted⟩
    exact { respects loads with
      reaches := fun _ _ _ => ends_exhausted.mpr trivial
      absent := fun _ _ => ends_exhausted.mpr trivial }
  | succ depth ih =>
    have loads : (Loader.ofDepth (depth + 1)).Loads StagesKept := by
      refine ⟨fun name => ?_, fun id stage _ => ensureStage_within ih id stage⟩
      exact within_bind within_get fun w => loadSteps.system_within ih.toTracks w.config name
    exact { respects loads with
      reaches := fun stage holds inside => ensureStage_completes ih stage holds inside
      absent := fun stage outside => ensureStage_absent ih stage outside }

end ClassUniverse
