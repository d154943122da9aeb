import ClassUniverse.Proofs.Invocations
import ClassUniverse.Proofs.Prerequisites

/-! Scripts come to an end. Whatever the goals of a script wait for, there are finitely many of them, each is on the
stack at most once, and each is run a limited number of times. -/
namespace ClassUniverse

open Run

variable {goal need : Goal} {steps depth : Nat} {script : Script}

/-! ## Environments -/

/-- The place of the job or class of a goal. -/
def Goal.index : Goal → Nat
  | .typesInitialized job => job.index
  | .reach id _ => id.index

theorem Goal.index_prerequisites (member : need ∈ goal.prerequisites) : need.index = goal.index := by
  cases goal with
  | typesInitialized job => cases member
  | reach id stage =>
    obtain ⟨earlier, _, rfl⟩ := List.mem_map.mp member
    rfl

/-- All goals of the first so many jobs and classes. -/
def goalsBelow (bound : Nat) : List Goal :=
  (List.range bound).flatMap fun index => .typesInitialized ⟨index⟩ :: Stage.all.map (.reach ⟨index⟩)

theorem mem_goalsBelow (below : goal.index < bound) : goal ∈ goalsBelow bound := by
  refine List.mem_flatMap.mpr ⟨goal.index, List.mem_range.mpr below, ?_⟩
  cases goal with
  | typesInitialized job => exact List.mem_cons_self
  | reach id stage =>
    have listed : stage ∈ Stage.all := by cases stage <;> decide
    exact List.mem_cons_of_mem _ (List.mem_map_of_mem listed)

/-- What has nothing to do with goals: neither their schedule nor the notes change, apart from sources that are
loaded. -/
structure World.Aside (w after : World) : Prop where
  loads : w.OnlyLoads after
  notes : after.notes = w.notes

instance : WorldOrder World.Aside where
  refl w := ⟨WorldOrder.refl w, rfl⟩
  trans first second := ⟨WorldOrder.trans first.loads second.loads, second.notes.trans first.notes⟩

/-- Answers wherever the condition holds, or asks for a goal below the bound. -/
abbrev Run.Replies (P : World → Prop) (bound : Nat) (x : Run α) : Prop := x.Orderly P World.Aside fun goal => goal.index < bound

/-- Worlds in which classes can be completed. How a class is completed is left open, but it must come to an end, and
there must be a limit to the jobs and classes that it brings. -/
structure Environment where
  holds : World → Prop
  limit : Nat
  /-- Deep enough to complete a class. -/
  depth : Nat
  jobs : ∀ {w}, holds w → w.schedule.jobs.length ≤ limit
  classes : ∀ {w}, holds w → w.arena.size ≤ limit
  books : ∀ {w} {schedule : Schedule} {notes}, holds w → schedule.jobs = w.schedule.jobs → holds { w with schedule, notes }
  marked : ∀ {w} id stage, holds w → holds { w with arena := w.arena.modify id (·.markStage stage) }
  completes : ∀ {deep bound}, depth ≤ deep → limit ≤ bound → ∀ {id : ClassId} (stage), id.index < bound →
    ((Loader.ofDepth deep).ensure id stage).Replies holds bound

/-- While some goals are being run, only goals below the bound are recorded as prerequisites. -/
structure World.Confined (env : Environment) (bound : Nat) (running : List Goal) (w : World) : Prop where
  inside : env.holds w
  stack : w.schedule.running = running
  recorded : ∀ goal need, w.schedule.Requires goal need → need.index < bound

/-- Comes to an end within the bound, and each run is counted. -/
abbrev Run.Terminates (env : Environment) (bound : Nat) (running : List Goal) (x : Run α) : Prop :=
  x.Orderly (World.Confined env bound running) World.Tallied fun goal => goal.index < bound

section Bookkeeping

variable {env : Environment} {bound : Nat} {running goals : List Goal} {w after : World}

theorem World.Confined.books (holds : w.Confined env bound running) {schedule : Schedule} {notes : List String}
    (jobs : schedule.jobs = w.schedule.jobs) (stack : schedule.running = goals)
    (recorded : ∀ goal need, schedule.Requires goal need → need.index < bound) :
    World.Confined env bound goals { w with schedule, notes } := ⟨env.books holds.inside jobs, stack, recorded⟩

theorem World.Confined.withRunning (holds : w.Confined env bound running) {stack : List Goal} (same : stack = goals) :
    World.Confined env bound goals { w with schedule := { w.schedule with running := stack } } :=
  holds.books rfl same holds.recorded

theorem World.Aside.confined (aside : w.Aside after) (holds : w.Confined env bound running) (inside : env.holds after) :
    after.Confined env bound running ∧ w.Tallied after := by
  obtain ⟨jobs, schedule⟩ := aside.loads
  refine ⟨⟨inside, ?_, ?_⟩, .of_same ?_ aside.notes⟩
  · rw [schedule]
    exact holds.stack
  · rw [schedule]
    exact holds.recorded
  · rw [schedule]

namespace Run

theorem Replies.terminates {x : Run α} (replies : x.Replies env.holds bound) : x.Terminates env bound running := by
  intro w holds
  have concludes := replies w holds.inside
  exact ⟨concludes.toFinishes.weaken fun _ inside aside => aside.confined holds inside, concludes.asks⟩

theorem addPrerequisite_terminates (below : need.index < bound) (goal : Goal) :
    (addPrerequisite goal need).Terminates env bound running := by
  refine orderly_read fun w holds => ?_
  split
  · rename_i schedule added
    have extends_ := Schedule.Extends.addPrerequisite added
    have recorded (waiting earlier : Goal) (edge : schedule.Requires waiting earlier) : earlier.index < bound := by
      rcases (Schedule.requires_addPrerequisite added).mp edge with known | ⟨_, rfl⟩
      · exact holds.recorded waiting earlier known
      · exact below
    have same : schedule.jobs = w.schedule.jobs ∧ schedule.runs = w.schedule.runs := by
      unfold Schedule.addPrerequisite? at added
      split at added
      · cases added
      · cases added
        exact ⟨rfl, rfl⟩
    exact concludes_modify (holds.books same.1 (extends_.running.trans holds.stack) recorded) (.of_same same.2 rfl) trivial
  · exact orderly_plain rfl w holds

theorem note_terminates {text : String} (other : text.toList.take 4 ≠ "run ".toList) :
    (note text).Terminates env bound running := fun _ holds =>
  concludes_modify (holds.books rfl holds.stack holds.recorded) (World.tallied_note other) trivial

theorem demand_replies (below : goal.index < bound) : (demand goal).Replies P bound :=
  orderly_read fun w holds => orderly_ite (orderly_pure _) (orderly_raise (.missing below)) w holds

theorem markGoal_terminates (goal : Goal) : (markGoal goal).Terminates env bound running := by
  cases goal with
  | typesInitialized job => exact orderly_pure _
  | reach id stage =>
    intro w holds
    exact concludes_modify ⟨env.marked id stage holds.inside, holds.stack, holds.recorded⟩ (.of_same rfl rfl) trivial

theorem ensureGoal_replies (enough : env.depth ≤ deep) (large : env.limit ≤ bound)
    (below : goal.index < bound) : ((Loader.ofDepth deep).ensureGoal goal).Replies env.holds bound := by
  cases goal with
  | typesInitialized job => exact orderly_pure _
  | reach id stage => exact env.completes enough large stage below

end Run

end Bookkeeping

section Attempts

variable {env : Environment} {bound : Nat} {running : List Goal} {w : World} {attempt : Attempt}

theorem Environment.supervision (env : Environment) (bound : Nat) :
    Supervision (World.Confined env bound) World.Tallied (fun goal => goal.index < bound) fun _ => True where
  stack holds := holds.stack
  withRunning holds same := holds.withRunning same
  outside tallied := ⟨tallied.counts, tallied.noted⟩
  counts tallied := tallied.counts
  counted goal holds := ⟨holds.books rfl holds.stack holds.recorded, World.tallied_count goal⟩
  earlier {_ _ goal need} holds below member := by
    rcases List.mem_append.mp member with first | recorded
    · rw [Goal.index_prerequisites first]
      exact below
    · exact holds.recorded goal need recorded
  concurrent _ _ _ holds := concludes_modify (holds.books rfl holds.stack holds.recorded) (.of_same rfl rfl) trivial
  prerequisite _ below := addPrerequisite_terminates below _
  initialized _ _ holds := concludes_modify (holds.books rfl holds.stack holds.recorded) (.of_same rfl rfl) trivial

/-- Attempts at goals below the bound come to an end. -/
abbrev Attempt.Terminates (attempt : Attempt) (env : Environment) (bound : Nat) (running : List Goal) : Prop :=
  attempt.Supervised (World.Confined env bound) World.Tallied (fun goal => goal.index < bound) (goalsBelow bound) running

/-- Fewer goals are left for the attempts within. -/
theorem Run.attemptWithin_terminates {pass : Pass} (ample : remaining (goalsBelow bound) running < depth)
    (once : ∀ {attempt : Attempt} {goal : Goal} {running : List Goal} {w : World},
      attempt.Terminates env bound running → w.Confined env bound running →
      (do countRun goal; pass attempt goal : Run Bool).Concludes (World.Confined env bound running)
        (World.Reran World.Tallied goal) (fun goal => goal.index < bound) w fun _ _ => True) :
    Attempt.Terminates (attemptWithin pass depth) env bound running := by
  induction depth generalizing running with
  | zero => omega
  | succ depth ih =>
    intro goal below w holds
    have listed := mem_goalsBelow below
    refine (env.supervision bound).attemptWithin_concludes holds (fun _ _ => listed) (fun _ => listed) fun fresh w holds => ?_
    have fewer := remaining_visit listed fresh List.mem_cons_self fun _ => List.mem_cons_of_mem goal
    have attempts : Attempt.Terminates (attemptWithin pass depth) env bound (goal :: running) := ih (by omega)
    exact ((env.supervision bound).produce_orderly attempts trivial below (fun w holds => once attempts holds) w holds).mono
      fun _ _ _ _ _ _ => listed

end Attempts

theorem Assoc.exists_of_mem_getD {κ α : Type} [DecidableEq κ] {m : Assoc κ (List α)} {key : κ} {item : α}
    (member : item ∈ m.getD key []) : ∃ items, (key, items) ∈ m.entries ∧ item ∈ items := by
  unfold getD at member
  cases found : m.find? key with
  | none =>
    rw [found] at member
    cases member
  | some items =>
    rw [found] at member
    exact ⟨items, mem_of_find? found, member⟩

/-! ## Scripts -/

def Action.goal? : Action → Option Goal
  | .need goal | .insist goal | .require goal | .peek goal | .mark goal | .ensure goal => some goal
  | .fail _ | .stuck | .current => none

/-- Above every goal that occurs in the script. -/
def Script.bound (script : Script) : Nat :=
  (script.values.flatten.map fun action => (action.goal?.map fun goal => goal.index + 1).getD 0).sum

theorem Script.index_lt_bound {named : Goal} {action : Action} (member : action ∈ script.getD goal [])
    (names : action.goal? = some named) : named.index < script.bound := by
  obtain ⟨actions, entry, inside⟩ := Assoc.exists_of_mem_getD member
  have listed : action ∈ script.values.flatten := List.mem_flatten.mpr ⟨actions, List.mem_map_of_mem entry, inside⟩
  have small := List.le_sum_of_mem (List.mem_map_of_mem
    (f := fun action => (action.goal?.map fun goal => goal.index + 1).getD 0) listed)
  rw [names] at small
  exact small

section Scripts

variable {env : Environment} {bound depth : Nat} {running : List Goal} {w : World} {attempt : Attempt}
  (enough : env.depth ≤ depth) (large : env.limit ≤ bound) (ample : (goalsBelow bound).length < (Loader.ofDepth depth).depth)

include enough large ample

/-- Every action comes to an end, so a list of them does. -/
theorem Script.perform_terminates (attempts : attempt.Terminates env bound running) (actions : List Action)
    (below : ∀ action ∈ actions, ∀ goal, action.goal? = some goal → goal.index < bound) :
    (perform ⟨.ofDepth depth, attempt⟩ actions).Terminates env bound running := by
  have driven (stale : Option Bool) {goal : Goal} (known : goal.index < bound) :
      (driveWithin attempt stale (demand goal) (Loader.ofDepth depth).depth []).Terminates env bound running := by
    refine (env.supervision bound).driveWithin_orderly attempts (fun _ _ => trivial) stale (demand_replies known).terminates ?_
    rw [remaining_nil]
    exact ample
  induction actions with
  | nil => exact orderly_pure _
  | cons action rest ih =>
    have rest := ih fun other member => below other (List.mem_cons_of_mem _ member)
    have known {goal : Goal} := below action List.mem_cons_self goal
    cases action with
    | need goal => exact orderly_bind (orderly_discard (demand_replies (known rfl)).terminates) fun _ => rest
    | insist goal => exact orderly_bind (orderly_raise (.missing (known rfl))) fun _ => rest
    | require goal => exact orderly_bind (orderly_discard (driven none (known rfl))) fun _ => rest
    | peek goal =>
      refine orderly_bind (driven (some false) (known rfl)) fun fresh => orderly_bind (note_terminates ?_) fun _ => rest
      cases fresh <;> exact fun same => by rw [take_append_toList (by decide)] at same; revert same; decide
    | mark goal => exact orderly_bind (markGoal_terminates goal) fun _ => rest
    | ensure goal => exact orderly_bind (ensureGoal_replies enough large (known rfl)).terminates fun _ => rest
    | fail text => exact orderly_bind (orderly_plain rfl) fun _ => rest
    | stuck => exact orderly_pure _
    | current =>
      refine orderly_bind (orderly_read fun w holds => orderly_pure _ w holds) fun text => ?_
      refine orderly_bind (note_terminates ?_) fun _ => rest
      rw [take_append_toList (by decide)]
      decide

/-- A run is counted and noted before anything else is done. -/
theorem Script.runOnce_concludes (small : script.bound ≤ bound) (attempts : attempt.Terminates env bound running)
    (holds : w.Confined env bound running) :
    (do countRun goal; script.pass (.ofDepth depth) attempt goal : Run Bool).Concludes (World.Confined env bound running)
      (World.Reran World.Tallied goal) (fun goal => goal.index < bound) w fun _ _ => True := by
  have more := w.ran_countRun goal
  by_cases allowed : w.schedule.runsOf goal < maxRuns
  · let noted : World := { w with schedule := w.schedule.countRun goal, notes := w.notes ++ ["run " ++ goal.text] }
    have performs := perform_terminates enough large ample attempts (script.getD goal []) fun action member named names =>
      Nat.lt_of_lt_of_le (index_lt_bound member names) small
    have concludes := performs noted (holds.books rfl holds.stack holds.recorded)
    refine concludes_step (H := fun _ after => noted.Tallied after) (on_countRun allowed)
      (concludes_step rfl concludes fun _ _ tallied => tallied) fun after _ tallied => ?_
    exact ⟨WorldOrder.trans (World.tallied_run allowed) tallied, Nat.lt_of_lt_of_le more (tallied.counts goal)⟩
  · refine ((countRun_fails (Nat.le_of_not_lt allowed)).bind _).concludes (holds.books rfl holds.stack holds.recorded) ?_
    exact ⟨World.tallied_count goal, more⟩

end Scripts

/-! ## Calls -/

namespace Environment

/-- What can be required: it answers, or asks for a goal below its bound. -/
structure Question (env : Environment) (α : Type) where
  ask : Loader → Run α
  bound : Nat
  replies : ∀ {deep large}, env.depth ≤ deep → bound ≤ large → (ask (Loader.ofDepth deep)).Replies env.holds large

def Question.demand {env : Environment} (goal : Goal) : env.Question Bool where
  ask _ := Run.demand goal
  bound := goal.index + 1
  replies _ large := demand_replies large

/-- What can be asked of a scheduler. -/
inductive Call (env : Environment) : Type 1 where
  | attempt (goal : Goal)
  | require {α : Type} (question : env.Question α)
  | requireOrStale {α : Type} (stale : α) (question : env.Question α)
  | addPrerequisite (goal need : Goal)
  | compileAll

namespace Call

variable {env : Environment} {running : List Goal} {large : Nat}

def run (engine : Engine) : env.Call → Run Unit
  | attempt goal => discard (engine.attempt goal)
  | require question => discard (engine.require (question.ask engine.loader))
  | requireOrStale stale question => discard (engine.requireOrStale stale (question.ask engine.loader))
  | addPrerequisite goal need => Run.addPrerequisite goal need
  | compileAll => engine.compileAll

/-- One call after the other, and what comes of each. -/
def runAll (engine : Engine) (calls : List env.Call) : Run (List (Except Error Unit)) :=
  calls.mapM fun call => (call.run engine).outcome

def bound : env.Call → Nat
  | attempt goal => goal.index + 1
  | require question => question.bound
  | requireOrStale _ question => question.bound
  | addPrerequisite _ need => need.index + 1
  | compileAll => 0

theorem run_terminates (call : env.Call)
    (enough : env.depth + (goalsBelow large).length + env.limit + 1 < depth) (limited : env.limit ≤ large)
    (small : script.bound ≤ large) (below : call.bound ≤ large) :
    (call.run (Engine.scripted script depth)).Terminates env large running := by
  obtain ⟨depth, rfl⟩ : ∃ smaller, depth = smaller + 1 := ⟨depth - 1, by omega⟩
  have ample : (goalsBelow large).length < (Loader.ofDepth (depth + 1)).depth := by
    change _ < depth
    omega
  have attempts : Attempt.Terminates (Engine.scripted script (depth + 1)).attempt env large running := by
    have fewer := remaining_mono (goalsBelow large) (List.nil_subset running)
    rw [remaining_nil] at fewer
    exact attemptWithin_terminates (by omega) fun attempts holds =>
      Script.runOnce_concludes (by omega) limited ample small attempts holds
  have driven {α : Type} (stale : Option α) (question : env.Question α) (below : question.bound ≤ large) :
      (driveWithin (Engine.scripted script (depth + 1)).attempt stale (question.ask (Loader.ofDepth (depth + 1)))
        (Loader.ofDepth (depth + 1)).depth []).Terminates env large running := by
    refine (env.supervision large).driveWithin_orderly attempts (fun _ _ => trivial) stale
      (question.replies (by omega) below).terminates ?_
    rw [remaining_nil]
    exact ample
  cases call with
  | attempt goal => exact orderly_discard (attempts.orderly below)
  | require question => exact orderly_discard (driven none question below)
  | requireOrStale stale question => exact orderly_discard (driven (some stale) question below)
  | addPrerequisite goal need => exact addPrerequisite_terminates below goal
  | compileAll =>
    refine compileWithin_orderly attempts (fun w holds job member => ?_) (fun _ holds => env.classes holds.inside)
      (fun _ below _ => Nat.lt_of_lt_of_le below limited) (Nat.zero_le _) ?_
    · obtain ⟨index, inside, rfl⟩ := List.mem_map.mp member
      exact Nat.lt_of_lt_of_le (List.mem_range.mp inside) (Nat.le_trans (env.jobs holds.inside) limited)
    change _ < depth + 0
    omega

theorem on_runAll {w : World} {calls : List env.Call}
    (each : ∀ call ∈ calls, (call.run engine).Terminates env large running) (holds : w.Confined env large running) :
    ∃ results after, (runAll engine calls).on w = some (.ok results, after) ∧ w.Tallied after := by
  induction calls generalizing w with
  | nil => exact ⟨[], w, rfl, WorldOrder.refl w⟩
  | cons call rest ih =>
    obtain ⟨result, middle, seen, ⟨holds, tallied⟩, _⟩ := (each call List.mem_cons_self w holds).result
    obtain ⟨results, after, others, further⟩ := ih (fun call member => each call (List.mem_cons_of_mem _ member)) holds
    refine ⟨result :: results, after, ?_, WorldOrder.trans tallied further⟩
    unfold runAll at others ⊢
    rw [List.mapM_cons, on_bind_ok seen, on_bind_ok others]
    rfl

end Call

end Environment

/-- Above every goal that is recorded as a prerequisite. -/
def Schedule.bound (s : Schedule) : Nat := (s.edgeEnds.map fun goal => goal.index + 1).sum

theorem Schedule.index_lt_bound {s : Schedule} (edge : s.Requires goal need) : need.index < s.bound := by
  obtain ⟨needs, entry, inside⟩ := Assoc.exists_of_mem_getD edge
  have listed : need ∈ s.edgeEnds := List.mem_flatMap.mpr ⟨(goal, needs), entry, List.mem_cons_of_mem _ inside⟩
  exact List.le_sum_of_mem (List.mem_map_of_mem (f := fun goal => goal.index + 1) listed)

/-! ## Shells -/

/-- Neither built in place nor derived from a class file: each stage is there at once, or a goal must produce it. -/
def ClassRecord.IsShell (record : ClassRecord) : Prop :=
  record.completion ≠ some .assembled ∧ ∀ file, record.completion ≠ some (.derived file)

/-- There are so many jobs and classes at most, and all classes are shells. -/
structure World.Shells (limit : Nat) (w : World) : Prop where
  jobs : w.schedule.jobs.length ≤ limit
  classes : w.arena.size ≤ limit
  shells : ∀ id, (w.arena.get id).IsShell

section Shells

variable {limit bound : Nat} {l : Loader} {id : ClassId} {record : ClassRecord}

theorem ClassRecord.IsShell.markStage (shell : record.IsShell) (stage : Stage) :
    (record.markStage stage).IsShell := by
  unfold ClassRecord.markStage IsShell
  dsimp only
  split
  · exact ⟨nofun, nofun⟩
  · exact shell

theorem World.Shells.marked {w : World} (shells : w.Shells limit) (id : ClassId) (stage : Stage) :
    World.Shells limit { w with arena := w.arena.modify id (·.markStage stage) } := by
  refine ⟨shells.jobs, by simpa using shells.classes, fun other => ?_⟩
  rw [Arena.get_modify]
  split
  · exact (shells.shells id).markStage stage
  · exact shells.shells other

theorem Run.mark_replies (id : ClassId) (stage : Stage) : (mark id stage).Replies (World.Shells limit) bound :=
  fun _ shells => concludes_modify (shells.marked id stage) ⟨.of_same rfl, rfl⟩ trivial

theorem Loader.complete_replies (shell : record.IsShell) (below : id.index < bound) (stage : Stage) :
    (l.complete id stage record.completion).Replies (World.Shells limit) bound := by
  unfold complete
  split
  · exact mark_replies id stage
  · exact mark_replies id stage
  · intro w shells
    refine concludes_read rfl (orderly_ite (orderly_pure _) (orderly_ite (mark_replies id stage) ?_) w shells)
    exact orderly_raise (.missing below)
  · rename_i built
    exact absurd built shell.1
  · rename_i file derived
    exact absurd derived (shell.2 file)

theorem Loader.ensureStage_replies (below : id.index < bound) {stage : Stage}
    (earlier : ∀ first ∈ stage.prerequisites, (l.ensure id first).Replies (World.Shells limit) bound) :
    (l.ensureStage id stage).Replies (World.Shells limit) bound := by
  refine orderly_read fun w shells => orderly_ite (orderly_pure _) (orderly_bind (orderly_forM earlier) fun _ => ?_) w shells
  exact fun w shells => concludes_read rfl (complete_replies (shells.shells id) below stage w shells)

/-- Stages wait for stages of the same class, of which there are three in a row at most. -/
theorem Loader.ensure_replies (depth : Nat) (below : id.index < bound) (stage : Stage) :
    ((Loader.ofDepth (depth + 3)).ensure id stage).Replies (World.Shells limit) bound := by
  have first (depth : Nat) {stage : Stage} (none : stage.prerequisites = []) :
      ((Loader.ofDepth (depth + 1)).ensure id stage).Replies (World.Shells limit) bound :=
    ensureStage_replies below fun _ member => by simp [none] at member
  have second (depth : Nat) :
      ((Loader.ofDepth (depth + 2)).ensure id .signaturesResolved).Replies (World.Shells limit) bound := by
    refine ensureStage_replies below fun earlier member => ?_
    obtain rfl := List.mem_singleton.mp member
    exact first depth rfl
  cases stage with
  | supertypesResolved => exact first (depth + 2) rfl
  | membersAdded => exact first (depth + 2) rfl
  | signaturesResolved => exact second (depth + 1)
  | allMembersAdded =>
    refine ensureStage_replies below fun earlier member => ?_
    rcases List.mem_cons.mp member with rfl | member
    · exact first (depth + 1) rfl
    · obtain rfl := List.mem_singleton.mp member
      exact second depth

def Environment.shells (limit : Nat) : Environment where
  holds := World.Shells limit
  limit := limit
  depth := 3
  jobs shells := shells.jobs
  classes shells := shells.classes
  books shells same := ⟨same ▸ shells.jobs, shells.classes, shells.shells⟩
  marked id stage shells := shells.marked id stage
  completes deep _ id stage below := by
    obtain ⟨depth, rfl⟩ := Nat.exists_eq_add_of_le' deep
    exact Loader.ensure_replies depth below stage

end Shells

end ClassUniverse
