import ClassUniverse.Proofs.WholePasses
import ClassUniverse.Proofs.LastStage

/-! Sessions bring the supertypes of a class to the last stage before the class. The pass for that stage does without
a supertype only if it is being brought there further out, and then the class is above itself. -/
namespace ClassUniverse

open Run Loader Relation

variable {need : Goal} {stage : Stage} {above : ClassId}

variable {config : Config} {u : Universe} {D : String → Prop} {w : World} {id : ClassId}

/-- Only goals of classes come to wait, and for the last stage of a class only that of a class below it. -/
def World.MayAwait (w : World) (goal need : Goal) : Prop :=
  (∃ id stage, goal = .reach id stage) ∧ ∀ id, need = .reach id .allMembersAdded →
    ∃ child, goal = .reach child .allMembersAdded ∧ TransGen w.Above child id

theorem World.MayAwait.of_early (early : need.Early) : w.MayAwait (.reach id stage) need := by
  refine ⟨⟨id, stage, rfl⟩, ?_⟩
  rintro other rfl
  exact early.elim

theorem World.MayAwait.of_above (held : w.Above id above) (lacks : w.MayLack above need) :
    w.MayAwait (.reach id .allMembersAdded) need :=
  ⟨⟨id, _, rfl⟩, fun other same => ⟨id, rfl, .head' held (lacks other same)⟩⟩

/-! ## Goals that wait -/

namespace World.Ranked

theorem withSchedule {schedule : Schedule} (staged : StagesKept w { w with schedule })
    (extended : w.schedule.Extends schedule)
    (awaited : ∀ goal need, schedule.Waits goal need → w.schedule.Waits goal need ∨ w.MayAwait goal need) :
    RankedKept D w { w with schedule } := by
  intro ranked
  obtain ⟨staged, grows⟩ := staged ranked.staged
  have grown : w.Progress { w with schedule } := ⟨grows, Arena.Keeps.refl w.arena, fun _ _ => rfl, extended⟩
  refine ⟨⟨staged, { ranked.whole with }, fun id last => ?_, fun goal id waits => ?_⟩, grown⟩
  · exact grown.finished (ranked.known last).1 (ranked.known last).2
  · obtain ⟨child, same, path⟩ := (awaited _ _ waits).elim (ranked.awaited goal id) fun allowed => allowed.2 id rfl
    exact ⟨child, same, TransGen.mono grown.above _ _ path⟩

/-- All that comes to wait for the last stage of a class is the last stage of a class below. -/
theorem chain (ranked : w.Ranked D) (path : ReflTransGen w.schedule.Waits need (.reach id .allMembersAdded)) :
    ∃ child, need = .reach child .allMembersAdded ∧ ReflTransGen w.Above child id := by
  induction path using ReflTransGen.head_induction_on with
  | refl => exact ⟨id, rfl, .refl⟩
  | head waits _ ih =>
    obtain ⟨middle, rfl, rest⟩ := ih
    obtain ⟨child, rfl, path⟩ := ranked.awaited _ _ waits
    exact ⟨child, rfl, path.to_reflTransGen.trans rest⟩

end World.Ranked

theorem ranked_regime : Regime (World.Ranked D) World.Progress World.MayAwait fun w goal => w.reached goal where
  extended grown := grown.waits
  known _ reached := reached
  lasting grown reached := stages_discipline.reached grown.grows reached
  running goals ranked := {
    staged := stages_discipline.running goals ranked.staged
    whole := { ranked.whole with }
    finished := ranked.finished
    awaited := ranked.awaited }
  unwound grown := ⟨stages_discipline.unwound grown.grows, grown.headers, grown.supertypes, .unwound grown.waits⟩
  readied {_ goal} _ reached := by cases goal <;> exact reached
  counted goal w := World.Ranked.withSchedule (stages_discipline.counted goal w) ⟨rfl, fun _ _ waits => waits⟩ fun _ _ => .inl
  concurrent {w goal other} allowed := by
    refine World.Ranked.withSchedule (stages_discipline.concurrent goal other w) (.addConcurrent _ _ _) fun _ _ waits => ?_
    refine (Schedule.waits_addConcurrent.mp waits).imp_right ?_
    rintro ⟨rfl, rfl⟩
    exact allowed
  required {w goal other schedule} allowed added := by
    obtain ⟨id, stage, rfl⟩ := allowed.1
    refine World.Ranked.withSchedule (stages_discipline.required w added) (.addPrerequisite added) fun _ _ waits => ?_
    refine ((Schedule.waits_addPrerequisite added).mp waits).imp_right ?_
    rintro ⟨rfl, rfl⟩
    exact allowed
  initialized job w :=
    World.Ranked.withSchedule (stages_discipline.initialized job w) ⟨rfl, fun _ _ waits => waits⟩ fun _ _ => .inl
  settled job w := by
    simp only [World.reached, Schedule.setInitialized]
    split <;> simp_all

/-! ## Passes -/

theorem Loader.initializeTypes_freezes (job : JobId) : (initializeTypes job).Within World.Freezes := by
  have settled {w after : World} (settled : w.Settles after) : w.Freezes after :=
    fun id has => ⟨settled.stages id _ has, settled.supertypes id has⟩
  exact initializeTypes_respects
    (fun record _ => (World.Settles.addClass_within record).weaken fun _ _ => settled)
    (fun name id => (World.Settles.addNamed_within name _).weaken fun _ _ => settled)
    (fun _ _ => settled (.of_same rfl rfl rfl)) (fun _ _ => settled (.of_same rfl rfl rfl))
    (fun _ _ => World.Freezes.update_within (fun _ has => has) fun _ => rfl) (fun _ _ => settled (.of_same rfl rfl rfl)) job

/-- Supertypes are stored only for a class whose supertypes were not known at the start. -/
theorem Loader.reachStage_freezes {l : Loader} (sound : l.Respects World.Freezes) (attempt : Attempt)
    (early : stage ≠ .allMembersAdded) (fresh : ¬ w.hasStage id stage) :
    (l.reachStage attempt id stage).Ends w (fun _ after => w.Freezes after) (fun _ after => w.Freezes after) := by
  have marked (stage : Stage) (r : ClassRecord) (has : r.stages.has .supertypesResolved) :
      (r.markStage stage).stages.has .supertypesResolved := by
    rw [ClassRecord.has_markStage, has, Bool.true_or]
  have stored (same : stage = .supertypesResolved) (superType : Option Ty) (interfaces : List Ty) :
      (update id fun record => { record with superType, interfaces }).Within (Since World.Freezes w) := by
    refine within_modify fun middle earlier other has => ?_
    have apart : other ≠ id := by
      rintro rfl
      exact fresh (same ▸ has)
    rw [World.hasStage, Arena.get_modify, if_neg fun both => apart both.1]
    exact earlier other has
  have since : (l.reachStage attempt id stage).Within (Since World.Freezes w) := by
    refine reachStage_within (sound.weaken fun _ _ => WorldOrder.since) attempt early (fun same => ⟨stored same, ?_⟩) fun _ _ _ => ?_
    · exact Within.sinceStart (World.Freezes.update_within (marked _) fun _ => rfl) w
    · refine Within.sinceStart (World.Freezes.update_within (fun _ has => ?_) fun _ => ?_) w
      · exact marked stage _ has
      · rfl
  exact (since.worlds w).mono (fun _ _ kept => kept (WorldOrder.refl w)) (fun _ _ kept => kept (WorldOrder.refl w))

theorem Loader.initializeTypes_ranked (job : JobId) : (initializeTypes job).Within (RankedKept D) Goal.Early :=
  .ranked (initializeTypes_within job) (initializeTypes_whole job) (initializeTypes_freezes job)
    (initializeTypes_elsewhere World.rests_of_schedule job) (initializeTypes_early job)

section Passes

variable {depth : Nat} {attempt : Attempt}

theorem Loader.reachStage_ranked (attempt : Attempt) (early : stage ≠ .allMembersAdded) (ranked : w.Ranked D)
    (fresh : ¬ w.hasStage id stage) (ready : ∀ earlier ∈ stage.prerequisites, w.hasStage id earlier) :
    ((Loader.ofDepth depth).reachStage attempt id stage).Leaves (World.Ranked D) World.Progress w
      (fun _ after => after.hasStage id stage) fun e _ => e.AsksFor Goal.Early := by
  have stored (change : ClassRecord → ClassRecord) : (update id change).Within World.Rests :=
    within_modify fun _ => World.rests_of_schedule rfl
  have rests : ((Loader.ofDepth depth).reachStage attempt id stage).Within World.Rests :=
    reachStage_within (ofDepth_rests depth) attempt early (fun _ => ⟨fun _ _ => stored _, stored _⟩) fun _ _ _ => stored _
  exact ranked.leaves
    (earlyStage_completes (ofDepth_stagesSound depth).toRespects attempt ranked.staged early fresh ready)
    (reachStage_whole (ofDepth_whole depth) attempt early id)
    (reachStage_freezes (ofDepth_freezes depth) attempt early fresh) rests
    (reachStage_early (ofDepth_early depth) attempt early id)

variable (patient : attempt.Patient (World.Ranked D) World.Progress (.waiting World.MayAwait fun w goal => w.reached goal))
include patient

section Innermost

variable (ranked : w.Ranked D) (chained : w.schedule.Chained) (innermost : w.schedule.current? = some
  (.reach id .allMembersAdded))
include ranked chained innermost

/-- A supertype is brought to the last stage, unless that waits for the class itself. -/
theorem Loader.requireAbove_leaves (held : w.Above id above) :
    (Engine.requireOrStale ⟨Loader.ofDepth depth, attempt⟩ () ((Loader.ofDepth depth).ensureAllMembers above)).Leaves
      (World.Ranked D) World.Progress w
      (fun _ after => after.hasStage above .allMembersAdded ∨ TransGen after.Above id id)
      fun e after => e.AsksFor (after.MayAwait (.reach id .allMembersAdded)) := by
  have lasting {middle after : World} {need : Goal} (grown : middle.Progress after)
      (lacks : middle.MayLack above need) : after.MayLack above need := lacks.lasts grown
  have allowed {middle : World} {need : Goal} (grown : w.Progress middle) (lacks : middle.MayLack above need)
      (current : Goal) (running : current ∈ middle.schedule.current?) : middle.MayAwait current need := by
    rw [grown.waits.current, innermost] at running
    obtain rfl := Option.some.inj running
    exact .of_above (grown.above id above held) lacks
  have asks (middle : World) (ranked : middle.Ranked D) (grown : w.Progress middle) :=
    ensureLast_reachesLast depth ranked (ranked.whole.supertypes id above (grown.above id above held).2)
  refine (ranked_regime.driveWithin_leaves patient @lasting @allowed asks (some ()) _ [] ranked chained
    (WorldOrder.refl w)).mono (fun _ after ranked grown reached => ?_) (fun e after _ grown lacking need missing => ?_)
  · refine reached.imp_right ?_
    rintro ⟨-, need, producing, lacks⟩
    -- The goal that is missed is being run further out, so it waits for this one.
    have path := (grown.waits.chained chained).reaches producing (grown.waits.current.trans innermost)
    obtain ⟨child, rfl, back⟩ := ranked.chain path
    exact .head' (grown.above id above held) ((lacks child rfl).trans back)
  · exact .of_above (grown.above id above held) (lacking need missing).1

theorem Loader.checkAllMembers_ranked 
    (ready : ∀ earlier ∈ Stage.allMembersAdded.prerequisites, w.hasStage id earlier) :
    ((Loader.ofDepth depth).checkAllMembers attempt id).Leaves (World.Ranked D) World.Progress w
      (fun _ after => after.hasStage id .allMembersAdded)
      fun e after => e.AsksFor (after.MayAwait (.reach id .allMembersAdded)) := by
  have resolved := ready .supertypesResolved (by decide)
  have first : ((w.arena.parents id).forM fun above =>
      Engine.requireOrStale ⟨Loader.ofDepth depth, attempt⟩ () ((Loader.ofDepth depth).ensureAllMembers above)).Leaves
      (World.Ranked D) World.Progress w
      (fun _ after => ∀ above ∈ w.arena.parents id, after.hasStage above .allMembersAdded ∨ TransGen after.Above id id)
      fun e after => e.AsksFor (after.MayAwait (.reach id .allMembersAdded)) := by
    refine leaves_forM (fun grown done => ?_) (fun above member middle ranked grown => ?_) ranked
    · exact done.imp (grown.grows.stages _ _) (TransGen.mono grown.above _ _)
    · exact requireAbove_leaves patient ranked (grown.waits.chained chained) (grown.waits.current.trans innermost)
        (grown.above id above ⟨resolved, member⟩)
  refine (ranked.reads resolved depth (·.supertypes)).bind ?_
  rintro _ w _ _ ⟨rfl, rfl⟩
  refine first.bind fun _ middle ranked grown done => ?_
  refine (((checkConformance_within (ofDepth_early_ranked depth) id).asking ranked).mono (fun _ _ _ _ known => known)
    (fun _ _ _ _ asks need missing => .of_early (asks need missing))).bind fun _ last ranked later _ => ?_
  have since := WorldOrder.trans grown later
  refine ranked.mark_leaves (fun earlier member => since.grows.stages id _ (ready earlier member)) (.inr ?_)
  by_cases cyclic : TransGen last.Above id id
  · exact .inl cyclic
  · refine .inr fun above member => ?_
    rw [since.parents resolved] at member
    refine ((done above member).imp (later.grows.stages _ _) (TransGen.mono later.above _ _)).resolve_right cyclic

end Innermost

theorem Loader.declarationPass_ranked : (Loader.ofDepth depth).declarationPass.Patient attempt (World.Ranked D)
    World.Progress (.waiting World.MayAwait fun w goal => w.reached goal) := by
  intro goal w ranked ⟨chained, innermost⟩ prepared
  cases goal with
  | typesInitialized job =>
    have kept : (initializeTypes job).Leaves (World.Ranked D) World.Progress w (fun _ _ => True)
        fun e after => e.AsksFor (after.MayAwait (.typesInitialized job)) := by
      refine (Ends.and ((initializeTypes_ranked job).asking ranked) (initializeTypes_settles job w)).mono
        (fun _ _ both => both.1) (fun e after failed => ⟨failed.1.1, fun need missing => ?_⟩)
      rw [failed.2] at missing
      cases missing
    exact kept.bind fun _ _ ranked _ _ => leaves_pure ranked fun named => (Goal.not_ofClass job named).elim
  | reach id stage =>
    have ready (earlier : Stage) (member : earlier ∈ stage.prerequisites) : w.hasStage id earlier :=
      prepared (.reach id earlier) (List.mem_map_of_mem member)
    have reached : ¬ w.hasStage id stage → ((Loader.ofDepth depth).reachStage attempt id stage).Leaves
        (World.Ranked D) World.Progress w (fun _ after => after.hasStage id stage)
        fun e after => e.AsksFor (after.MayAwait (.reach id stage)) := by
      intro fresh
      by_cases last : stage = .allMembersAdded
      · subst last
        exact checkAllMembers_ranked patient ranked chained innermost ready
      · exact (reachStage_ranked attempt last ranked fresh ready).mono (fun _ _ _ _ has => has)
          (fun _ _ _ _ asks need missing => .of_early (asks need missing))
    refine leaves_get.mpr (leaves_ite (fun has => leaves_pure ranked fun _ => has) fun fresh => ?_)
    exact (reached fresh).bind fun _ _ ranked _ has => leaves_pure ranked fun _ => has

end Passes

/-! ## Sessions -/

theorem Engine.attempt_ranked (depth : Nat) : (Engine.ofDepth depth).attempt.Patient (World.Ranked D)
    World.Progress (.waiting World.MayAwait fun w goal => w.reached goal) :=
  ranked_regime.lawful.attemptWithin_patient (fun _ => declarationPass_ranked) depth

/-- No goal is being run. -/
def World.Idle (w : World) : Prop := w.schedule.running = []

theorem World.Idle.chained (idle : w.Idle) : w.schedule.Chained := by
  rw [Schedule.Chained, idle]
  exact .nil

theorem World.Idle.calls (idle : w.Idle) (goal : Goal) : w.schedule.Calls goal := by
  intro current running
  rw [Schedule.current?, idle] at running
  cases running

theorem World.Progress.idle {after : World} (grown : w.Progress after) (idle : w.Idle) : after.Idle :=
  grown.grows.running.trans idle

theorem Request.run_ranked (request : Request) (depth : Nat) :
    (request.run (.ofDepth depth)).Within (Kept (fun w => w.Ranked D ∧ w.Idle) World.Progress) := by
  have idle {α : Type} {x : Run α} {good : α → World → Prop} {bad : Error → World → Prop} {w : World} (idle : w.Idle)
      (leaves : x.Leaves (World.Ranked D) World.Progress w good bad) : x.Ends w
        (fun _ after => (after.Ranked D ∧ after.Idle) ∧ w.Progress after)
        (fun _ after => (after.Ranked D ∧ after.Idle) ∧ w.Progress after) :=
    Ends.mono leaves (fun _ _ reached => ⟨⟨reached.1.1, reached.1.2.idle idle⟩, reached.1.2⟩)
      (fun _ _ failed => ⟨⟨failed.1.1, failed.1.2.idle idle⟩, failed.1.2⟩)
  cases request with
  | ask question => exact (question.ask_within (ofDepth_ranked depth)).also World.Progress.idle
  | require question =>
    refine within_of_ends fun w ⟨ranked, still⟩ => ?_
    have asks (middle : World) (ranked : middle.Ranked D) (_ : w.Progress middle) :
        (question.ask (Loader.ofDepth depth)).Leaves (World.Ranked D) World.Progress middle (fun _ _ => True)
          fun e _ => ∀ need, e.missingGoal? = some need → True :=
      ((question.ask_within (ofDepth_ranked depth)).asking ranked).mono (fun _ _ _ _ known => known)
        (fun _ _ _ _ asks => asks)
    have alone {middle : World} {need : Goal} (grown : w.Progress middle) (_ : True) (current : Goal)
        (running : current ∈ middle.schedule.current?) : middle.MayAwait current need := by
      rw [Schedule.current?, grown.idle still] at running
      cases running
    exact idle still (ranked_regime.driveWithin_leaves (Engine.attempt_ranked depth) (fun _ lacks => lacks) @alone asks
      none _ [] ranked still.chained (WorldOrder.refl w))
  | compileAll =>
    refine compileWithin_within (fun goal => within_of_ends fun w ⟨ranked, still⟩ => ?_) _ _
    exact idle still (Engine.attempt_ranked depth goal w ranked ⟨still.chained, still.calls goal⟩)
  | load source =>
    have loaded (w : World) : Kept (fun w => w.Ranked D ∧ w.Idle) World.Progress w
        { w with schedule := (w.schedule.load source).2 } := by
      refine Kept.also (World.Ranked.withSchedule (StagesKept.load w source) (.load w.schedule source) ?_)
        World.Progress.idle
      exact fun goal need waits => .inl (((World.Rests.load w source).waits goal need).mp waits)
    have loads : (loadSource source).Within (Kept (fun w => w.Ranked D ∧ w.Idle) World.Progress) :=
      fun w => ends_modifyGet.mpr (loaded w)
    exact within_discard loads

theorem World.ranked_ofUniverse (config : Config) (u : Universe) :
    (ofUniverse config u).Ranked (u.documents config.version ·) where
  staged := stagesSound_ofUniverse config u
  whole := .ofUniverse fun _ => Universe.documents_of_listed
  finished id last := absurd (Arena.inside_of_stage last) (Nat.not_lt_zero _)
  awaited goal id waits := by
    have none : Goal.reach id .allMembersAdded ∉ goal.prerequisites := by
      cases goal with
      | typesInitialized job => simp [Goal.prerequisites]
      | reach other stage => cases stage <;> simp [Goal.prerequisites, Stage.prerequisites]
    rcases waits with first | together
    · exact absurd ((List.mem_append.mp first).resolve_right List.not_mem_nil) none
    · cases together

theorem Reachable.ranked (reached : Reachable config u w) : w.Ranked (u.documents config.version ·) := by
  have kept : Kept (fun w => w.Ranked (u.documents config.version ·) ∧ w.Idle) World.Progress (.ofUniverse config u) w :=
    Leads.within reached fun request depth _ => request.run_ranked depth
  exact (kept ⟨World.ranked_ofUniverse config u, rfl⟩).1.1

/-- However a session came to a world: a class has the last stage only if its superclass and its interfaces have it,
unless it is above itself, or comes from a class file that holds a document. -/
theorem last_stage_is_inherited (reached : Reachable config u w) (last : w.hasStage id .allMembersAdded)
    (undocumented : ¬ (w.arena.get id).fileName.any (u.documents config.version)) (acyclic : ¬ w.arena.Inherits id id) :
    ∀ above ∈ w.arena.parents id, w.hasStage above .allMembersAdded := by
  rcases reached.ranked.finished id last with documented | cyclic | every
  · exact absurd ((Option.any_eq_true _ _).mpr documented) undocumented
  · exact absurd (TransGen.mono (fun _ _ held => held.2) _ _ cyclic) acyclic
  · exact every

/-- A class from a source, with a superclass from a class file without a document and an interface from its own
source. -/
theorem last_stage_is_inherited_mixed :
    let u : Universe := {
      sources := [{ path := "A.java", package := some "p", classes := [
        { name := "A", superclass := some "B", interfaces := ["I"] }, { name := "I", flags := .ofList [.interface] }] }]
      classFiles := [
        { name := "java.lang.Object", raw := some { name := "java.lang.Object" } },
        { name := "p.B", raw := some { name := "p.B", superclass := some "java.lang.Object" } }] }
    let found := Request.next (.require (.classNamed "p.A")) 60 (.ofUniverse {} u)
    let w := Request.next .compileAll 60 found
    (w.hasStage ⟨0⟩ .allMembersAdded ∧ w.arena.parents ⟨0⟩ = [⟨2⟩, ⟨1⟩] ∧ ¬ found.hasStage ⟨0⟩ .supertypesResolved) ∧
      ∀ above ∈ w.arena.parents ⟨0⟩, w.hasStage above .allMembersAdded := by
  intro u found w
  have first : Reachable {} u found := (Leads.refl _).next (.require (.classNamed "p.A")) 60 trivial
  have reached : Reachable {} u w := first.next .compileAll 60 trivial
  have ⟨shown, undocumented, childless⟩ :
      (w.hasStage ⟨0⟩ .allMembersAdded ∧ w.arena.parents ⟨0⟩ = [⟨2⟩, ⟨1⟩] ∧ ¬ found.hasStage ⟨0⟩ .supertypesResolved) ∧
      ¬ (w.arena.get ⟨0⟩).fileName.any (u.documents ({} : Config).version) ∧
      ∀ child ∈ w.arena.ids, (⟨0⟩ : ClassId) ∉ w.arena.parents child := by decide +kernel
  exact ⟨shown, last_stage_is_inherited reached shown.1 undocumented (Arena.not_inherits_of_childless childless)⟩

/-- The document of a class names its superclass, which is never asked for its own members. -/
theorem last_stage_of_document :
    let document : Metadata := { version := "0.1.0", name := "p.D", superType := some "p.R" }
    let u : Universe := { classFiles := [
      { name := "java.lang.Object", raw := some { name := "java.lang.Object" } },
      { name := "p.R", raw := some { name := "p.R", superclass := some "java.lang.Object" } },
      { name := "p.D", compilerVersion := some "0.1.0", encoded := .ofList [("jltc", document.render)] }] }
    let found := Request.next (.require (.classNamed "p.D")) 30 (.ofUniverse {} u)
    let w := Request.next (.require (.ensure ⟨0⟩ .allMembersAdded)) 30 found
    Reachable {} u w ∧ w.hasStage ⟨0⟩ .allMembersAdded ∧ ¬ w.arena.Inherits ⟨0⟩ ⟨0⟩ ∧
      w.arena.parents ⟨0⟩ = [⟨1⟩] ∧ ¬ w.hasStage ⟨1⟩ .allMembersAdded := by
  intro document u found w
  have first : Reachable {} u found := (Leads.refl _).next (.require (.classNamed "p.D")) 30 trivial
  have ⟨last, childless, rest⟩ : w.hasStage ⟨0⟩ .allMembersAdded ∧
      (∀ child ∈ w.arena.ids, (⟨0⟩ : ClassId) ∉ w.arena.parents child) ∧
      w.arena.parents ⟨0⟩ = [⟨1⟩] ∧ ¬ w.hasStage ⟨1⟩ .allMembersAdded := by decide +kernel
  exact ⟨first.next (.require (.ensure ⟨0⟩ .allMembersAdded)) 30 trivial, last,
    Arena.not_inherits_of_childless childless, rest⟩

end ClassUniverse
