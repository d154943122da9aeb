import ClassUniverse.Proofs.MissingGoals
import ClassUniverse.Script

/-! The goals being run form a stack. A pass that keeps to the calls a scheduler offers finds its own goal on top
whenever it looks, and no goal is ever on the stack twice. Nothing is said of a pass that changes the stack itself. -/
namespace ClassUniverse

open Run

/-- The schedule stays as it is, apart from sources that are loaded. -/
def World.OnlyLoads (w after : World) : Prop := ∃ jobs, after.schedule = { w.schedule with jobs }

instance : WorldOrder World.OnlyLoads where
  refl w := ⟨w.schedule.jobs, rfl⟩
  trans := by
    rintro w middle after ⟨_, first⟩ ⟨jobs, second⟩
    exact ⟨jobs, by rw [second, first]⟩

theorem World.OnlyLoads.of_same {w after : World} (same : after.schedule = w.schedule) : w.OnlyLoads after :=
  ⟨w.schedule.jobs, same⟩

/-- The same goals are being run. -/
def World.SameStack (w after : World) : Prop := after.schedule.running = w.schedule.running

instance : WorldOrder World.SameStack where
  refl _ := rfl
  trans first second := second.trans first

namespace Run

theorem addConcurrent_stack (goal other : Goal) : (addConcurrent goal other).Within World.SameStack :=
  within_modify fun _ => rfl

theorem addPrerequisite_stack (goal other : Goal) : (addPrerequisite goal other).Within World.SameStack :=
  addPrerequisite_within fun added => (Schedule.Extends.addPrerequisite added).running

end Run

/-- What a pass does. Its own work has nothing to do with goals; whatever has goes through the calls of a scheduler. -/
inductive Task : Type → Type 1 where
  | own (x : Run α) (aside : x.Within World.OnlyLoads) : Task α
  | addPrerequisite (goal other : Goal) : Task Unit
  | addConcurrent (goal other : Goal) : Task Unit
  | attempt (goal : Goal) : Task Bool
  | require (task : Task α) : Task α
  | requireOrStale (stale : α) (task : Task α) : Task α
  | bind (task : Task β) (next : β → Task α) : Task α
  | caught (task : Task α) : Task (Except Error α)

/-- The task that produces each goal. -/
abbrev Runner := Goal → Task Bool

namespace Run

/-- Calls the observer when the computation is over, whatever came of it. -/
def afterwards (x : Run α) (observer : Run Unit) : Run α := do
  let result ← x.outcome
  observer
  match result with
  | .ok a => return a
  | .error e => throw e

theorem afterwards_pure (x : Run α) : x.afterwards (pure ()) = x := by
  funext w
  change (x.afterwards (pure ())).on w = x.on w
  unfold afterwards
  rw [on_bind, on_outcome]
  cases x.on w with
  | none => rfl
  | some p => obtain ⟨_ | _, after⟩ := p <;> rfl

end Run

/-- Performs a task. The observer is called whenever an attempt or a requirement of it is over. -/
def Task.run (engine : Engine) (observer : Run Unit) : Task α → Run α
  | own x _ => x
  | addPrerequisite goal other => Run.addPrerequisite goal other
  | addConcurrent goal other => Run.addConcurrent goal other
  | attempt goal => (engine.attempt goal).afterwards observer
  | require task => (engine.require (task.run engine observer)).afterwards observer
  | requireOrStale stale task => (engine.requireOrStale stale (task.run engine observer)).afterwards observer
  | bind task next => do (next (← task.run engine observer)).run engine observer
  | caught task => (task.run engine observer).outcome

def Runner.pass (runner : Runner) (l : Loader) : Pass := fun attempt goal => (runner goal).run ⟨l, attempt⟩ (pure ())

namespace Run

/-- Raises the alarm unless the goal is the innermost one and no goal is being run twice. -/
def watch (alarm : Run Unit) (goal : Goal) : Run Unit := do
  let schedule := (← get).schedule
  unless schedule.current? = some goal ∧ schedule.running.Nodup do alarm

end Run

/-- The runner's pass under watch: at the start of each run, and after every attempt or requirement made in it. -/
def Runner.watched (runner : Runner) (alarm : Run Unit) (l : Loader) : Pass := fun attempt goal => do
  watch alarm goal
  (runner goal).run ⟨l, attempt⟩ (watch alarm goal)

namespace Run

variable {x : Run α}

/-- Attempts under watch. While a goal is on the stack, there is also a look at it once it is put there, after every
attempt at another goal, and before it is taken off. -/
def watchedWithin (alarm : Run Unit) (runner : Runner) (l : Loader) : (depth : Nat) → Attempt
  | 0, _ => exhausted
  | depth + 1, goal => do
    let w ← get
    if w.reached goal then return true
    if w.schedule.isProducing goal then return false
    modifySchedule fun s => { s with running := goal :: s.running }
    let result ← (do
      watch alarm goal
      (produce (runner.watched alarm l)
        (fun need => (watchedWithin alarm runner l depth need).afterwards (watch alarm goal)) goal).afterwards
          (watch alarm goal) : Run Bool).outcome
    modifySchedule fun s => { s with running := s.running.tail }
    match result with
    | .ok reached => return reached
    | .error e => throw e

/-! ## Two computations on one stack -/

/-- Where exactly these goals are being run, both come to the same and leave the stack as it is. -/
def Agree (stack : List Goal) (x y : Run α) : Prop := ∀ w, w.schedule.running = stack → x.on w = y.on w ∧
  y.Ends w (fun _ after => after.schedule.running = stack) (fun _ after => after.schedule.running = stack)

section Rules

theorem agree_kept (kept : x.Within World.SameStack) : x.Agree stack x := by
  intro w here
  refine ⟨rfl, (kept.worlds w).mono (fun _ _ same => ?_) fun _ _ same => ?_⟩
  · exact same.trans here
  · exact same.trans here

theorem agree_exhausted : (exhausted : Run α).Agree stack exhausted := agree_kept within_exhausted

theorem agree_pure (a : α) : (pure a : Run α).Agree stack (pure a) := agree_kept (within_pure a)

theorem agree_throw (e : Error) : (throw e : Run α).Agree stack (throw e) := agree_kept (within_throw e)

theorem agree_bind {f g : α → Run β} (first : x.Agree stack y) (rest : ∀ a, (f a).Agree stack (g a)) :
    (x >>= f).Agree stack (y >>= g) := by
  intro w here
  obtain ⟨same, kept⟩ := first w here
  refine ⟨?_, ends_bind.mpr (kept.mono (fun a middle there => (rest a middle there).2) fun _ _ there => there)⟩
  rw [on_bind, on_bind, same]
  cases ran : y.on w with
  | none => rfl
  | some p =>
    obtain ⟨result, middle⟩ := p
    cases result with
    | ok a => exact (rest a middle (kept.answer ran)).1
    | error e => rfl

theorem agree_outcome (agree : x.Agree stack y) : x.outcome.Agree stack y.outcome := by
  intro w here
  obtain ⟨same, kept⟩ := agree w here
  exact ⟨by rw [on_outcome, on_outcome, same], ends_outcome.mpr kept⟩

theorem agree_ite [Decidable p] (first : p → x.Agree stack x')
    (second : ¬ p → y.Agree stack y') : (if p then x else y).Agree stack (if p then x' else y') := by
  split
  · exact first ‹_›
  · exact second ‹_›

theorem agree_read {f g : World → Run α} (next : ∀ w, w.schedule.running = stack → (f w).Agree stack (g w)) :
    (get >>= f).Agree stack (get >>= g) := by
  intro w here
  rw [on_get_bind, on_get_bind, ends_bind, ends_get]
  exact next w here w here

theorem agree_afterwards (agree : x.Agree stack y)
    (quiet : observer.Agree stack other) : (x.afterwards observer).Agree stack (y.afterwards other) := by
  refine agree_bind (agree_outcome agree) fun result => agree_bind quiet fun _ => ?_
  split
  · exact agree_pure _
  · exact agree_throw _

theorem Agree.observed (agree : x.Agree stack y)
    (quiet : observer.Agree stack (pure ())) : (x.afterwards observer).Agree stack y := by
  have both := agree_afterwards agree quiet
  rwa [afterwards_pure] at both

theorem Agree.preceded (agree : x.Agree stack y)
    (quiet : observer.Agree stack (pure ())) : (do observer; x : Run α).Agree stack y := by
  have both := agree_bind quiet fun _ => agree
  rwa [pure_bind] at both

theorem agree_allOf (each : ∀ a, (test a).Agree stack (other a)) (items : List α) :
    (allOf test items).Agree stack (allOf other items) := by
  induction items with
  | nil => exact agree_pure _
  | cons a rest ih => exact agree_bind (each a) fun _ => agree_ite (fun _ => ih) fun _ => agree_pure _

/-- No alarm while the goal is on top of a stack without repetitions. -/
theorem agree_watch (alarm : Run Unit) (distinct : (goal :: stack).Nodup) :
    (watch alarm goal).Agree (goal :: stack) (pure ()) := by
  intro w here
  have calm : w.schedule.current? = some goal ∧ w.schedule.running.Nodup := by
    rw [Schedule.current?, here]
    exact ⟨rfl, distinct⟩
  refine ⟨?_, ends_pure.mpr here⟩
  unfold watch
  rw [on_get_bind, if_pos calm]

/-- What happens on a larger stack leaves the smaller one as it was. -/
theorem agree_stacked {f : Except Error α → Run β}
    (agree : x.Agree (goal :: stack) y) (rest : ∀ result, (f result).Agree stack (f result)) : (do
      modifySchedule fun s => { s with running := goal :: s.running }
      let result ← x.outcome
      modifySchedule fun s => { s with running := s.running.tail }
      f result : Run β).Agree stack (do
      modifySchedule fun s => { s with running := goal :: s.running }
      let result ← y.outcome
      modifySchedule fun s => { s with running := s.running.tail }
      f result) := by
  intro w here
  obtain ⟨same, kept⟩ := agree { w with schedule := { w.schedule with running := goal :: w.schedule.running } }
    (congrArg (goal :: ·) here)
  have popped (result : Except Error α) (middle : World) (there : middle.schedule.running = goal :: stack) :
      (do modifySchedule fun s => { s with running := s.running.tail }
          f result : Run β).Ends middle (fun _ after => after.schedule.running = stack)
        (fun _ after => after.schedule.running = stack) := by
    rw [ends_bind, ends_modifySchedule]
    exact (rest result _ (congrArg List.tail there)).2
  constructor
  · rw [on_bind_ok (x := modifySchedule _) rfl, on_bind_ok (x := modifySchedule _) rfl, on_bind, on_bind, on_outcome,
      on_outcome]
    rw [same]
  · rw [ends_bind, ends_modifySchedule, ends_bind, ends_outcome]
    exact kept.mono (fun a middle => popped (.ok a) middle) fun e middle => popped (.error e) middle

end Rules

/-! ## Attempts that agree -/

section Attempts

variable {attempt other : Attempt} (attempts : ∀ goal, (attempt goal).Agree stack (other goal))
include attempts

theorem pursue_agree (attempted : List Goal) (goal : Goal) :
    (pursue attempt attempted goal).Agree stack (pursue other attempted goal) := by
  have tried : (do if ← attempt goal then return true else throw (.missingDependency goal) : Run Bool).Agree stack
      (do if ← other goal then return true else throw (.missingDependency goal)) :=
    agree_bind (attempts goal) fun _ => agree_ite (fun _ => agree_pure _) fun _ => agree_throw _
  refine agree_read fun w _ => agree_ite (fun _ => ?_) fun _ => agree_ite (fun _ => agree_throw _) fun _ => ?_
  · split
    · exact agree_bind (agree_kept (addConcurrent_stack _ _)) fun _ => agree_pure _
    · exact agree_pure _
  · split
    · exact agree_bind (agree_kept (addPrerequisite_stack _ _)) fun _ => tried
    · exact tried

theorem driveWithin_agree (stale : Option α) (agree : x.Agree stack y) (steps : Nat) (attempted : List Goal) :
    (driveWithin attempt stale x steps attempted).Agree stack (driveWithin other stale y steps attempted) := by
  induction steps generalizing attempted with
  | zero => exact agree_exhausted
  | succ steps ih =>
    refine agree_bind (agree_outcome agree) fun result => ?_
    split
    · exact agree_pure _
    · refine agree_bind (pursue_agree attempts attempted _) fun _ => agree_ite (fun _ => ih _) fun _ => ?_
      split
      · exact agree_pure _
      · exact agree_throw _
    · exact agree_throw _

theorem runPass_agree {pass : Pass} (passes : (pass attempt goal).Agree stack (strict other goal))
    (runs : Nat) : (runPass pass attempt goal runs).Agree stack (runPass strict other goal runs) := by
  induction runs with
  | zero => exact agree_exhausted
  | succ runs ih =>
    refine agree_bind (agree_outcome (agree_bind (agree_kept (countRun_within fun _ => rfl)) fun _ => passes)) fun result => ?_
    split
    · split
      · exact agree_bind (agree_kept (within_modify fun _ => rfl)) fun _ => agree_pure _
      · exact agree_pure _
    · exact agree_pure _
    · refine agree_read fun w _ => agree_ite (fun _ => ?_) fun _ => ?_
      · exact agree_bind (agree_kept (addConcurrent_stack _ _)) fun _ => agree_pure _
      · refine agree_bind (agree_kept (addPrerequisite_stack _ _)) fun _ => agree_bind (attempts _) fun _ => ?_
        exact agree_ite (fun _ => ih) fun _ => agree_pure _
    · exact agree_throw _

theorem produce_agree {pass : Pass} (passes : (pass attempt goal).Agree stack (strict other goal)) :
    (produce pass attempt goal).Agree stack (produce strict other goal) :=
  agree_read fun _ _ => agree_bind (agree_allOf attempts _) fun _ =>
    agree_ite (fun _ => runPass_agree attempts passes _) fun _ => agree_pure _

end Attempts

end Run

theorem Task.run_agree {attempt other : Attempt} (l : Loader)
    (attempts : ∀ goal, (attempt goal).Agree stack (other goal)) (observers : observer.Agree stack quiet) (task : Task α) :
    (task.run ⟨l, attempt⟩ observer).Agree stack (task.run ⟨l, other⟩ quiet) := by
  induction task with
  | own x aside =>
    refine agree_kept (aside.weaken fun _ _ loads => ?_)
    obtain ⟨jobs, schedule⟩ := loads
    rw [World.SameStack, schedule]
  | addPrerequisite goal need => exact agree_kept (addPrerequisite_stack goal need)
  | addConcurrent goal need => exact agree_kept (addConcurrent_stack goal need)
  | attempt goal => exact agree_afterwards (attempts goal) observers
  | require task ih => exact agree_afterwards (driveWithin_agree attempts none ih _ _) observers
  | requireOrStale stale task ih => exact agree_afterwards (driveWithin_agree attempts (some stale) ih _ _) observers
  | bind task next ih further => exact agree_bind ih further
  | caught task ih => exact agree_outcome ih

/-- The alarm makes no difference: it is never raised. -/
theorem Run.watchedWithin_agree (alarm : Run Unit) (runner : Runner) (l : Loader) (depth : Nat) (goal : Goal)
    (distinct : stack.Nodup) :
    (watchedWithin alarm runner l depth goal).Agree stack (attemptWithin (runner.pass l) depth goal) := by
  induction depth generalizing goal stack with
  | zero => exact agree_exhausted
  | succ depth ih =>
    refine agree_read fun w here => agree_ite (fun _ => agree_pure _) fun _ => ?_
    refine agree_ite (fun _ => agree_pure _) fun idle => ?_
    have fresh : goal ∉ stack := by simpa [Schedule.isProducing, here] using idle
    have larger : (goal :: stack).Nodup := List.nodup_cons.mpr ⟨fresh, distinct⟩
    have quiet := agree_watch alarm larger
    have attempts (need : Goal) := (ih need larger).observed quiet
    have passes : (runner.watched alarm l _ goal).Agree (goal :: stack) (runner.pass l _ goal) :=
      (Task.run_agree l attempts quiet (runner goal)).preceded quiet
    refine agree_stacked (((produce_agree attempts passes).observed quiet).preceded quiet) fun result => ?_
    split
    · exact agree_pure _
    · exact agree_throw _

/-! ## Passes that are runners -/

theorem Loader.ofDepth_onlyLoads (depth : Nat) : (Loader.ofDepth depth).Respects World.OnlyLoads := by
  have loaded (source : SourceFile) : (loadSource source).Within World.OnlyLoads := by
    refine fun w => ends_modifyGet.mpr ?_
    dsimp only [Schedule.load]
    split
    · exact .of_same rfl
    · exact ⟨_, rfl⟩
  exact (LoadRelation.of_schedule World.OnlyLoads.of_same loaded).ofDepth depth

theorem Run.demand_aside (goal : Goal) : (demand goal).Within World.OnlyLoads :=
  within_bind within_get fun _ => within_ite (within_pure _) (within_throw _)

theorem Run.note_aside (text : String) : (note text).Within World.OnlyLoads := within_modify fun _ => .of_same rfl

theorem Run.markGoal_aside (goal : Goal) : (markGoal goal).Within World.OnlyLoads := by
  cases goal with
  | typesInitialized job => exact within_pure _
  | reach id stage => exact within_modify fun _ => .of_same rfl

theorem Loader.ensureGoal_aside (depth : Nat) (goal : Goal) :
    ((Loader.ofDepth depth).ensureGoal goal).Within World.OnlyLoads := by
  cases goal with
  | typesInitialized job => exact within_pure _
  | reach id stage => exact (ofDepth_onlyLoads depth).ensure id stage

/-- What a list of actions does, as a task. -/
def Script.task (depth : Nat) : List Action → Task Bool
  | [] => .own (pure true) (within_pure _)
  | .need goal :: rest => (Task.own (demand goal) (demand_aside goal)).bind fun _ => task depth rest
  | .insist goal :: _ => .own (throw (.missingDependency goal)) (within_throw _)
  | .require goal :: rest => (Task.own (demand goal) (demand_aside goal)).require.bind fun _ => task depth rest
  | .peek goal :: rest =>
    (Task.requireOrStale false (.own (demand goal) (demand_aside goal))).bind fun fresh =>
      (Task.own (note ((if fresh then "fresh " else "stale ") ++ goal.text)) (note_aside _)).bind fun _ => task depth rest
  | .mark goal :: rest => (Task.own (markGoal goal) (markGoal_aside goal)).bind fun _ => task depth rest
  | .ensure goal :: rest =>
    (Task.own ((Loader.ofDepth depth).ensureGoal goal) (Loader.ensureGoal_aside depth goal)).bind fun _ => task depth rest
  | .fail text :: _ => .own (fault (.reported text)) (within_fault _ _)
  | .stuck :: _ => .own (pure false) (within_pure _)
  | .current :: rest =>
    (Task.own currentText (within_bind within_get fun _ => within_pure _)).bind fun text =>
      (Task.own (note ("current " ++ text)) (note_aside _)).bind fun _ => task depth rest

def Script.runner (script : Script) (depth : Nat) : Runner := fun goal =>
  (Task.own (note ("run " ++ goal.text)) (note_aside _)).bind fun _ => task depth (script.getD goal [])

theorem Script.perform_eq (depth : Nat) (attempt : Attempt) (actions : List Action) :
    perform ⟨.ofDepth depth, attempt⟩ actions = (Script.task depth actions).run ⟨.ofDepth depth, attempt⟩ (pure ()) := by
  have dropped (x f : Run Bool) : (discard x >>= fun _ => f) = x >>= fun _ => f := by
    have mapped : discard x = (fun _ => PUnit.unit) <$> x := rfl
    rw [mapped, bind_map_left]
  induction actions with
  | nil => rfl
  | cons action rest ih =>
    cases action <;> simp only [perform, task, Task.run, afterwards_pure, dropped, ih] <;> rfl

theorem Script.pass_eq (script : Script) (depth : Nat) :
    script.pass (.ofDepth depth) = (script.runner depth).pass (.ofDepth depth) := by
  funext attempt goal
  exact congrArg (note ("run " ++ goal.text) >>= fun _ => ·) (perform_eq depth attempt _)

theorem Run.update_aside (id : ClassId) (f : ClassRecord → ClassRecord) : (update id f).Within World.OnlyLoads :=
  within_modify fun _ => .of_same rfl

/-- Does the same for one item after the other. -/
def Task.each (task : α → Task Unit) : List α → Task Unit
  | [] => .own (pure ()) (within_pure _)
  | a :: rest => (task a).bind fun _ => each task rest

theorem Task.each_run (engine : Engine) (observer : Run Unit) (task : α → Task Unit) (items : List α) :
    (Task.each task items).run engine observer = items.forM fun a => (task a).run engine observer := by
  induction items with
  | nil => rfl
  | cons a rest ih =>
    simp only [Task.each, Task.run, ih]
    rfl

namespace Loader

/-- The last stage of a class: the supertypes come first. -/
def membersTask (depth : Nat) (id : ClassId) : Task Unit :=
  let l := Loader.ofDepth depth
  have sound := ofDepth_onlyLoads depth
  (Task.own (l.supertypes id) (sound.steps.supertypes id)).bind fun supers =>
    (Task.each (fun above => .requireOrStale () (.own (l.ensureAllMembers above) (sound.ensure above _)))
      (supers.filterMap Ty.class?)).bind fun _ =>
    (Task.own (l.checkConformance id) (checkConformance_within sound id)).bind fun _ =>
    .own (mark id .allMembersAdded) (update_aside id _)

def stageTask (depth : Nat) (id : ClassId) (stage : Stage) : Task Unit :=
  if last : stage = .allMembersAdded then membersTask depth id
  else .own ((Loader.ofDepth depth).reachStage (fun _ => pure false) id stage)
    (reachStage_within (ofDepth_onlyLoads depth) _ last (fun _ => ⟨fun _ _ => update_aside id _, update_aside id _⟩)
      fun _ _ _ => update_aside id _)

def declarationRunner (depth : Nat) : Runner
  | .typesInitialized job =>
    (Task.own (initializeTypes job) (initializeTypes_elsewhere World.OnlyLoads.of_same job)).bind fun _ =>
      .own (pure true) (within_pure _)
  | .reach id stage =>
    (Task.own get within_get).bind fun w =>
    (if w.hasStage id stage then Task.own (pure ()) (within_pure _) else stageTask depth id stage).bind fun _ =>
      .own (pure true) (within_pure _)

theorem reachStage_eq (depth : Nat) (attempt : Attempt) (id : ClassId) (stage : Stage) :
    (Loader.ofDepth depth).reachStage attempt id stage = (stageTask depth id stage).run ⟨.ofDepth depth, attempt⟩ (pure ()) := by
  cases stage with
  | allMembersAdded =>
    simp only [reachStage, checkAllMembers, stageTask, membersTask, Task.run, Task.each_run, afterwards_pure, dite_true]
  | _ => rfl

theorem declarationPass_eq (depth : Nat) :
    (Loader.ofDepth depth).declarationPass = (declarationRunner depth).pass (.ofDepth depth) := by
  funext attempt goal
  cases goal with
  | typesInitialized job => rfl
  | reach id stage =>
    refine congrArg (get >>= ·) (funext fun w => ?_)
    by_cases has : w.hasStage id stage
    · simp [has, Task.run]
    · simp [has, Task.run, reachStage_eq]

end Loader

/-- Whatever a runner does through the calls of a scheduler: an attempt leaves the stack as it found it, whatever comes
of it and at whatever depth, and no alarm is raised in any nesting of attempts and requirements. So each goal is on the
stack once, and it is the current one whenever its runner is started or goes on. -/
theorem goal_stack_discipline :
    (∀ (runner : Runner) (l : Loader) (depth : Nat) (w : World), w.schedule.running.Nodup →
      (∀ goal result after, (attemptWithin (runner.pass l) depth goal).on w = some (result, after) →
        after.schedule.running = w.schedule.running) ∧
      ∀ (alarm : Run Unit) (α : Type) (task : Task α),
        (task.run ⟨l, watchedWithin alarm runner l depth⟩ (pure ())).on w =
          (task.run ⟨l, attemptWithin (runner.pass l) depth⟩ (pure ())).on w) ∧
    ∀ depth, (∀ script : Script, ∃ runner : Runner, script.pass (.ofDepth depth) = runner.pass (.ofDepth depth)) ∧
      ∃ runner : Runner, (Loader.ofDepth depth).declarationPass = runner.pass (.ofDepth depth) := by
  refine ⟨fun runner l depth w distinct => ⟨fun goal result after ran => ?_, fun alarm α task => ?_⟩, fun depth =>
    ⟨fun script => ⟨_, script.pass_eq depth⟩, _, Loader.declarationPass_eq depth⟩⟩
  · have kept := (watchedWithin_agree (pure ()) runner l depth goal distinct w rfl).2
    cases result with
    | ok reached => exact kept.answer ran
    | error e => exact kept.error ran
  · have attempts (goal : Goal) := watchedWithin_agree alarm runner l depth goal distinct
    exact (Task.run_agree l attempts (agree_pure ()) task w rfl).1

/-- The third job fails while the first waits for the second and the second for the third, after it has looked at the
first. All of them are run for a fourth. -/
theorem goal_stack_discipline_failure :
    let job (index : Nat) : Goal := .typesInitialized ⟨index⟩
    let script : Script := .ofList
      [(job 0, [.need (job 1)]), (job 1, [.require (job 2)]), (job 2, [.peek (job 0), .current, .fail "broken"])]
    let w : World := { schedule := { running := [job 3] } }
    let failure : Except Error Bool := .error (.semantic (.reported "broken") none)
    w.schedule.running.Nodup ∧ ∃ after,
      ((Engine.scripted script 20).attempt (job 0)).on w = some (failure, after) ∧
      after.notes.getLast? = some "current TypesInitialized(job2)" ∧
      after.schedule.running = [job 3] ∧
      ∀ alarm, ((Task.attempt (job 0)).run
        ⟨.ofDepth 20, watchedWithin alarm (script.runner 20) (.ofDepth 20) 20⟩ (pure ())).on w = some (failure, after) := by
  intro job script w failure
  have distinct : w.schedule.running.Nodup := List.pairwise_singleton _ _
  obtain ⟨after, ran, noted⟩ : ∃ after, ((Engine.scripted script 20).attempt (job 0)).on w = some (failure, after) ∧
      after.notes.getLast? = some "current TypesInitialized(job2)" := by decide +kernel
  obtain ⟨restored, silent⟩ := goal_stack_discipline.1 (script.runner 20) (.ofDepth 20) 20 w distinct
  rw [← script.pass_eq 20] at restored silent
  refine ⟨distinct, after, ran, noted, restored (job 0) _ after ran, fun alarm => ?_⟩
  rw [silent alarm Bool (.attempt (job 0)), Task.run, afterwards_pure]
  exact ran

end ClassUniverse
