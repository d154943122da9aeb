import ClassUniverse.Proofs.SourcePasses
import ClassUniverse.Proofs.StageInvariant

/-! Compiling everything in a session over sources. When it succeeds all jobs are initialized, all classes are
complete, and their hierarchy is well formed. -/
namespace ClassUniverse

open Run Loader

section Loop

/-- The classes before an index are complete, as far as they belong to jobs. -/
structure World.CompiledTo (w : World) (index : Nat) : Prop where
  bound : index ≤ w.arena.size
  complete : ∀ id : ClassId, id.index < index → (w.arena.get id).job.isSome → ∀ stage, w.hasStage id stage

variable {attempt : Attempt} {w : World}

theorem World.CompiledTo.later (compiled : w.CompiledTo index) (grown : w.Grows after) (kept : w.Keeps after) :
    after.CompiledTo index := by
  refine ⟨Nat.le_trans compiled.bound kept.size, fun id before jobbed stage => ?_⟩
  rw [Arena.Keeps.job kept (Nat.lt_of_lt_of_le before compiled.bound)] at jobbed
  exact grown.stages id stage (compiled.complete id before jobbed stage)

variable [WorldOrder G]

variable (laws : Discipline P G)
include laws

theorem reachAll_gives (sound : attempt.Sound P G) (id : ClassId) (stages : List Stage) (holds : P w)
    (at_ : w.AtClass) : (stages.forM fun stage => do
      unless ← attempt (.reach id stage) do
        throw (.cyclicDependency (.unreachable (.reach id stage))) : Run Unit).Gives P G w
        fun _ after => ∀ stage ∈ stages, after.hasStage id stage := by
  refine Leaves.gives (?_ : Leaves _ P G w _ fun _ _ => True)
  refine leaves_forM (fun {stage w _} grown has => ?_) (fun stage _ middle holds grown => ?_) holds
  · exact laws.reached grown (show w.reached (.reach id stage) from has)
  refine ((sound (.reach id stage) middle holds (laws.atClass grown at_)).bind fun reached _ holds _ done => ?_).leaves
  exact gives_ite (fun isReached => gives_pure holds (done isReached)) fun _ => gives_throw _ holds

theorem compileClass_gives (sound : attempt.Sound P G) (id : ClassId) (holds : P w) (at_ : w.AtClass) :
    (compileClass attempt id).Gives P G w
      fun _ after => (w.arena.get id).job.isSome → ∀ stage, after.hasStage id stage := by
  refine gives_record.mpr (gives_ite (fun _ => ?_) fun unjobbed => gives_pure holds fun jobbed => absurd jobbed unjobbed)
  refine (reachAll_gives laws sound id Stage.all holds at_).mono fun _ after _ _ every _ stage => every stage ?_
  cases stage <;> decide

/-- Classes that appear while others are compiled are compiled as well. -/
theorem compileClassesWithin_gives (sound : attempt.Sound P G)
    (grows : ∀ {w after}, G w after → w.Grows after ∧ w.Keeps after) (steps : Nat) (holds : P w) (at_ : w.AtClass)
    (compiled : w.CompiledTo index) : (compileClassesWithin attempt steps index).Gives P G w
      fun next after => after.CompiledTo next ∧ after.arena.size ≤ next := by
  induction steps generalizing w index with
  | zero => exact ends_exhausted.mpr trivial
  | succ steps ih =>
    refine gives_arena.mpr (gives_ite (fun more => ?_) fun done => gives_pure holds ⟨compiled, Nat.le_of_not_lt done⟩)
    refine (compileClass_gives laws sound ⟨index⟩ holds at_).bind fun _ middle holds grown complete => ?_
    obtain ⟨grownMiddle, keptMiddle⟩ := grows grown
    have earlier := compiled.later grownMiddle keptMiddle
    refine ih holds (laws.atClass grown at_) ⟨Nat.lt_of_lt_of_le more keptMiddle.size, fun id before jobbed stage => ?_⟩
    rcases Nat.lt_succ_iff_lt_or_eq.mp before with smaller | last
    · exact earlier.complete id smaller jobbed stage
    · have here : id = ⟨index⟩ := by cases id; simp_all
      subst here
      rw [Arena.Keeps.job keptMiddle more] at jobbed
      exact complete jobbed stage

/-- An attempt at a job brings it to its goal and loads no further jobs. -/
def Attempt.Initializes (attempt : Attempt) (P : World → Prop) (G : World → World → Prop) : Prop :=
  ∀ job w, P w → w.schedule.running = [] → (attempt (.typesInitialized job)).Gives P G w
    fun _ after => after.reached (.typesInitialized job) ∧ after.schedule.jobs = w.schedule.jobs

theorem attemptJobs_gives (jobs : attempt.Initializes P G) (holds : P w) (idle : w.schedule.running = []) :
    (attemptJobs attempt).Gives P G w
      fun _ after => ∀ job ∈ after.schedule.jobIds, after.reached (.typesInitialized job) := by
  have each (ids : List JobId) {w : World} (holds : P w) (idle : w.schedule.running = []) :
      (ids.forM fun job => discard (attempt (.typesInitialized job))).Gives P G w fun _ after =>
        (∀ job ∈ ids, after.reached (.typesInitialized job)) ∧ after.schedule.jobs = w.schedule.jobs := by
    induction ids generalizing w with
    | nil => exact gives_pure holds ⟨by simp, rfl⟩
    | cons job rest ih =>
      have once : (discard (attempt (.typesInitialized job))).Gives P G w
          fun _ after => after.reached (.typesInitialized job) ∧ after.schedule.jobs = w.schedule.jobs :=
        ends_map.mpr (jobs job w holds idle)
      refine once.bind fun _ middle holds grown first => ?_
      refine (ih holds ((laws.stacked grown).trans idle)).mono fun _ after _ later others => ?_
      refine ⟨fun other member => ?_, others.2.trans first.2⟩
      rcases List.mem_cons.mp member with rfl | member
      · exact laws.reached later first.1
      · exact others.1 other member
  refine gives_get.mpr ((each _ holds idle).mono fun _ after _ _ reached job member => reached.1 job ?_)
  rwa [Schedule.jobIds, ← reached.2]

/-- The loop ends only when nothing has appeared since all jobs were initialized. -/
theorem compileWithin_gives (sound : attempt.Sound P G) (jobs : attempt.Initializes P G)
    (grows : ∀ {w after}, G w after → w.Grows after ∧ w.Keeps after) (steps : Nat) (holds : P w)
    (idle : w.schedule.running = []) (compiled : w.CompiledTo index) :
    (compileWithin attempt steps index).Gives P G w fun _ after =>
      (∀ job ∈ after.schedule.jobIds, after.reached (.typesInitialized job)) ∧ after.CompiledTo after.arena.size := by
  induction steps generalizing w index with
  | zero => exact ends_exhausted.mpr trivial
  | succ steps ih =>
    refine (attemptJobs_gives laws jobs holds idle).bind fun _ middle holds grown initialized => gives_arena.mpr ?_
    have idle := (laws.stacked grown).trans idle
    have compiled := compiled.later (grows grown).1 (grows grown).2
    refine gives_ite (fun _ => ?_) fun done => ?_
    · have at_ : middle.AtClass := by simp [World.AtClass, idle]
      refine (compileClassesWithin_gives laws sound grows (steps + 1) holds at_ compiled).bind
        fun next last holds grown reached => ?_
      exact ih holds ((laws.stacked grown).trans idle) reached.1
    · have all : index = middle.arena.size := Nat.le_antisymm compiled.bound (Nat.le_of_not_lt done)
      exact gives_pure holds ⟨initialized, all ▸ compiled⟩

end Loop

section Discipline

theorem Schedule.jobs_addPrerequisite {s after : Schedule}
    (recorded : s.addPrerequisite? goal prerequisite = some after) : after.jobs = s.jobs := by
  unfold addPrerequisite? at recorded
  split at recorded
  · cases recorded
  · cases recorded
    rfl

theorem Discipline.both (laws : Discipline P G)
    (schedules : ∀ w schedule, schedule.jobs = w.schedule.jobs → Kept Q H w { w with schedule })
    (unwound : ∀ {w after goal}, H { w with schedule := { w.schedule with running := goal :: w.schedule.running } } after →
      H w { after with schedule := { after.schedule with running := after.schedule.running.tail } }) :
    Discipline (fun w => P w ∧ Q w) (Both G H) where
  reached grown := laws.reached grown.1
  stacked grown := laws.stacked grown.1
  running {w} goals holds := ⟨laws.running goals holds.1,
    (schedules w { w.schedule with running := goals } rfl holds.2).1⟩
  unwound grown := ⟨laws.unwound grown.1, unwound grown.2⟩
  counted goal w := (laws.counted goal w).both (schedules w _ rfl)
  concurrent goal other w := (laws.concurrent goal other w).both (schedules w _ rfl)
  required w recorded := (laws.required w recorded).both (schedules w _ (Schedule.jobs_addPrerequisite recorded))
  free holds := laws.free holds.1
  initialized job w := (laws.initialized job w).both (schedules w _ rfl)

/-- Every look-up and every pass keeps the invariant. -/
structure Loader.Preserves (l : Loader) (Q : World → Prop) (H : World → World → Prop) : Prop where
  lookups : l.Respects (Kept Q H)
  jobs : ∀ job, (initializeTypes job).Within (Kept Q H)
  supertypes : ∀ id, (l.resolveSupertypes id).Within (Kept Q H)
  members : ∀ id, (addMembers id).Within (Kept Q H)
  signatures : ∀ id, (l.resolveSignatures id).Within (Kept Q H)
  last : ∀ id, (mark id .allMembersAdded).Within (Kept Q H)

variable [WorldOrder H] {l : Loader}

section Passes

variable (preserves : l.Preserves Q H) (stages : l.Respects StagesKept)
  (laws : Discipline (fun w => w.StagesSound ∧ Q w) (Both World.Grows H))
include preserves stages laws

theorem Loader.Preserves.reachStage
    (attempts : attempt.Sound (fun w => w.StagesSound ∧ Q w) (Both World.Grows H)) {id : ClassId}
    (ordered : w.StagesSound) (holds : Q w) (at_ : w.AtClass) (fresh : ¬ w.hasStage id stage)
    (ready : ∀ earlier ∈ stage.prerequisites, w.hasStage id earlier) :
    (l.reachStage attempt id stage).Gives (fun w => w.StagesSound ∧ Q w) (Both World.Grows H) w
      fun _ after => after.hasStage id stage := by
  cases stage with
  | supertypesResolved => exact (resolveSupertypes_completes stages ordered).both (preserves.supertypes id) holds
  | membersAdded => exact (addMembers_completes ordered fresh).both (preserves.members id) holds
  | signaturesResolved =>
    exact (resolveSignatures_completes stages ordered (ready _ (by decide))).both (preserves.signatures id) holds
  | allMembersAdded =>
    refine laws.checkAllMembers_gives (stages.both preserves.lookups) attempts ⟨ordered, holds⟩ at_
      fun middle holds grown => ?_
    exact (markLast_completes ready holds.1 grown.1).both (preserves.last id) holds.2

theorem Loader.Preserves.declarationPass :
    (l.declarationPass).Sound (fun w => w.StagesSound ∧ Q w) (Both World.Grows H) where
  toJobsSound := declarationPass_jobs fun job => (initializeTypes_within job).both (preserves.jobs job)
  classes attempts _ _ _ holds at_ ready := declarationPass_gives holds fun fresh =>
    preserves.reachStage stages laws attempts holds.1 holds.2 at_ fresh ready

end Passes

/-- What loaders of every depth preserve holds wherever a session gets to. -/
theorem Leads.preserves (led : Leads u w after)
    (laws : Discipline (fun w => w.StagesSound ∧ Q w) (Both World.Grows H))
    (preserves : ∀ depth, (Loader.ofDepth depth).Preserves Q H)
    (loads : ∀ source ∈ u.sources, ∀ w, Kept Q H w { w with schedule := (w.schedule.load source).2 }) :
    Kept (fun w => (w.StagesSound ∧ Q w) ∧ w.AtClass) (Both World.Grows H) w after := by
  refine led.within fun request depth belongs => ?_
  have stages := (ofDepth_stagesSound depth).toRespects
  refine laws.request_within ((preserves depth).declarationPass stages laws)
    ((stages.both (preserves depth).lookups).also laws.atClass) (fun source listed w => ?_) request belongs
  exact (StagesKept.load w source).both (loads source listed w)

end Discipline

section Sources

variable (config : Config) (u : Universe)

/-- What compilation relies on: the stages are in order, and everything comes from sources. -/
def World.Compilable (w : World) : Prop := w.StagesSound ∧ w.FromSources config u

abbrev World.Advances : World → World → Prop := Both Grows Keeps

/-- No job is loaded or forgotten. -/
def SameJobs (w after : World) : Prop := after.schedule.jobs = w.schedule.jobs

instance : WorldOrder SameJobs where
  refl _ := rfl
  trans first second := second.trans first

theorem sources_discipline : Discipline (World.Compilable config u) World.Advances := by
  refine stages_discipline.both (fun w schedule same holds => ?_) id
  refine ⟨holds.withSchedule fun source member => holds.jobs source (same ▸ member), ?_⟩
  exact Arena.Keeps.refl w.arena

theorem jobs_discipline : Discipline (World.Compilable config u) (Both World.Grows (Both World.Keeps SameJobs)) := by
  refine stages_discipline.both (fun w schedule same holds => ?_) id
  refine ⟨holds.withSchedule fun source member => holds.jobs source (same ▸ member), ?_, same⟩
  exact Arena.Keeps.refl w.arena

theorem Loader.initializeTypes_sameJobs (job : JobId) : (initializeTypes job).Within SameJobs := by
  have elsewhere {w after : World} (same : after.schedule = w.schedule) : SameJobs w after := congrArg Schedule.jobs same
  exact initializeTypes_elsewhere elsewhere job

variable {config u}

theorem Loader.initializeTypes_sources (job : JobId) : (initializeTypes job).Within (SourcesKept config u) :=
  within_of_gives fun _ holds => initializeTypes_finds job holds

theorem attempt_initializes (l : Loader) (depth : Nat) :
    Attempt.Initializes (attemptWithin l.declarationPass depth) (World.Compilable config u) World.Advances := by
  have passes : (l.declarationPass).JobsSound (World.Compilable config u) (Both World.Grows (Both World.Keeps SameJobs)) :=
    declarationPass_jobs fun job =>
      (initializeTypes_within job).both ((initializeTypes_sources job).alongside (initializeTypes_sameJobs job))
  intro job w holds idle
  refine Ends.mono ((jobs_discipline config u).attemptWithin_job passes depth job holds (by simp [World.AtClass, idle])) ?_ ?_
  · rintro _ after ⟨⟨holds, grown, kept, same⟩, reached⟩
    exact ⟨⟨holds, grown, kept⟩, reached, same⟩
  · rintro _ after ⟨holds, grown, kept, _⟩
    exact ⟨holds, grown, kept⟩

variable {l : Loader}

theorem Loader.FromSources.preserves (sources : l.FromSources config u) (rooted : u.Rooted config) :
    l.Preserves (World.FromSources config u) World.Keeps where
  lookups := sources.respects rooted
  jobs := initializeTypes_sources
  supertypes _ := within_of_gives fun _ holds => resolveSupertypes_finds rooted sources holds
  members id := addMembers_within fun _ _ _ => update_sources (fun r => .withMembers r _ _ _ .membersAdded nofun) id
  signatures id := resolveSignatures_within (sources.respects rooted) fun _ _ _ =>
    update_sources (fun r => .withMembers r _ _ _ .signaturesResolved nofun) id
  last _ := within_of_gives fun _ holds => mark_finds holds _ nofun

end Sources

end ClassUniverse
