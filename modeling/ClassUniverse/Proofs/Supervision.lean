import ClassUniverse.Proofs.Orderly
import ClassUniverse.Proofs.Yields
import ClassUniverse.Session

/-! Attempts come to an end. Goals that are being run are not attempted again, and neither are those that a
computation has missed before; every run is counted. So it is enough that finitely many goals can be reached and
that the books are kept. -/
namespace ClassUniverse

open Run

theorem Schedule.runsOf_countRun (s : Schedule) (goal other : Goal) :
    (s.countRun goal).runsOf other = if other = goal then s.runsOf goal + 1 else s.runsOf other := by
  unfold countRun runsOf Assoc.getD
  rw [Assoc.find?_insert]
  split <;> rfl

/-- What the bookkeeping of goals may do to a condition that depends on the goals being run. Only goals that are
`asked` for are attempted, and only `known` ones come to wait for others. -/
structure Supervision (P : List Goal → World → Prop) (G : World → World → Prop) (asked known : Goal → Prop) : Prop where
  stack : ∀ {running w}, P running w → w.schedule.running = running
  withRunning : ∀ {running w stack goals}, P running w → stack = goals →
    P goals { w with schedule := { w.schedule with running := stack } }
  outside : ∀ {w after goals}, G { w with schedule := { w.schedule with running := goals } } after → G w after
  counts : ∀ {w after}, G w after → ∀ goal, w.schedule.runsOf goal ≤ after.schedule.runsOf goal
  counted : ∀ {running w} goal, P running w → P running { w with schedule := w.schedule.countRun goal } ∧
    G w { w with schedule := w.schedule.countRun goal }
  earlier : ∀ {running w goal need}, P running w → asked goal → need ∈ w.schedule.prerequisitesOf goal → asked need
  concurrent : ∀ {running} goal other, (addConcurrent goal other).Orderly (P running) G asked
  prerequisite : ∀ {running goal need}, known goal → asked need →
    (addPrerequisite goal need).Orderly (P running) G asked
  initialized : ∀ {running job}, known (.typesInitialized job) →
    (modifySchedule (·.setInitialized job)).Orderly (P running) G asked

variable {P : List Goal → World → Prop} {G : World → World → Prop} {asked known : Goal → Prop} {all running : List Goal}
  {attempt : Attempt} {pass : Pass} {goal : Goal} {w : World}

/-- Attempts at goals that may be asked for come to an end while some goals are being run. Only some goals are reached. -/
def Attempt.Supervised (attempt : Attempt) (P : List Goal → World → Prop) (G : World → World → Prop)
    (asked : Goal → Prop) (all running : List Goal) : Prop :=
  ∀ goal, asked goal → ∀ w, P running w →
    (attempt goal).Concludes (P running) G asked w fun reached _ => reached = true → goal ∈ all

theorem Attempt.Supervised.orderly (attempts : attempt.Supervised P G asked all running) (asks : asked goal) :
    (attempt goal).Orderly (P running) G asked := fun w holds =>
  (attempts goal asks w holds).mono fun _ _ _ _ _ => trivial

/-- The goal has been run since. -/
def World.Reran (G : World → World → Prop) (goal : Goal) (w after : World) : Prop :=
  G w after ∧ w.schedule.runsOf goal < after.schedule.runsOf goal

theorem World.ran_countRun (w : World) (goal : Goal) :
    w.schedule.runsOf goal < (w.schedule.countRun goal).runsOf goal := by
  rw [Schedule.runsOf_countRun, if_pos rfl]
  exact Nat.lt_succ_self _

theorem Run.countRun_fails (spent : maxRuns ≤ w.schedule.runsOf goal) :
    (countRun goal).FailsAt w { w with schedule := w.schedule.countRun goal } := by
  have more := w.ran_countRun goal
  apply failsAt_step rfl
  apply failsAt_step rfl
  rw [if_pos (by dsimp only; omega)]
  exact failsAt_throw rfl

theorem Run.on_countRun (allowed : w.schedule.runsOf goal < maxRuns) :
    (countRun goal).on w = some (.ok (), { w with schedule := w.schedule.countRun goal }) := by
  have once : (w.schedule.countRun goal).runsOf goal = w.schedule.runsOf goal + 1 := by
    rw [Schedule.runsOf_countRun, if_pos rfl]
  unfold countRun
  rw [on_bind_ok rfl, on_get_bind, if_neg (by dsimp only; omega)]
  rfl

theorem Run.runPass_fails (fails : (do countRun goal; pass attempt goal).FailsAt w after) :
    (runPass pass attempt goal (runs + 1)).FailsAt w after := by
  refine fails.outcome fun e given => ?_
  cases e <;> first | rfl | cases given

theorem Error.AsksFor.missing (asks : asked goal) : (missingDependency goal).AsksFor asked :=
  fun _ same => Option.some.inj same ▸ asks

namespace Supervision

variable [WorldOrder G] (laws : Supervision P G asked known)
include laws

theorem counted_concludes {x : Run α} (holds : P running w)
    (next : w.schedule.runsOf goal < maxRuns →
      x.Concludes (P running) G asked { w with schedule := w.schedule.countRun goal } good) :
    (do countRun goal; x : Run α).Concludes (P running) (World.Reran G goal) asked w good := by
  obtain ⟨counted, grown⟩ := laws.counted goal holds
  have more := w.ran_countRun goal
  by_cases allowed : w.schedule.runsOf goal < maxRuns
  · refine concludes_step (on_countRun allowed) (next allowed) fun after _ further => ?_
    exact ⟨WorldOrder.trans grown further, Nat.lt_of_lt_of_le more (laws.counts further goal)⟩
  · exact ((countRun_fails (Nat.le_of_not_lt allowed)).bind _).concludes counted ⟨grown, more⟩

section Driving

variable (attempts : attempt.Supervised P G asked all running)
  (leading : ∀ goal, running.head? = some goal → known goal)
include attempts leading

theorem pursue_concludes (attempted : List Goal) (asks : asked goal) (holds : P running w) :
    (pursue attempt attempted goal).Concludes (P running) G asked w
      fun reached _ => reached = true → goal ∈ all ∧ goal ∉ attempted := by
  apply concludes_read rfl
  refine concludes_ite (fun _ => ?_) fun _ => concludes_ite (fun _ => concludes_raise holds (.plain rfl)) fun absent => ?_
  · split
    · refine (laws.concurrent _ goal w holds).bind fun _ _ holds _ _ => ?_
      exact concludes_pure holds (by simp)
    · exact concludes_pure holds (by simp)
  · have fresh : goal ∉ attempted := by simpa using absent
    have tried (w : World) (holds : P running w) : (do
        if ← attempt goal then return true else throw (.missingDependency goal) : Run Bool).Concludes (P running) G asked w
          fun reached _ => reached = true → goal ∈ all ∧ goal ∉ attempted := by
      refine (attempts goal asks w holds).bind fun reached _ holds _ listed => ?_
      exact concludes_ite (fun isReached => concludes_pure holds fun _ => ⟨listed isReached, fresh⟩) fun _ =>
        concludes_raise holds (.missing asks)
    split
    · rename_i current top
      have waits : known current := leading current (by rwa [← laws.stack holds])
      exact (laws.prerequisite waits asks w holds).bind fun _ middle holds _ _ => tried middle holds
    · exact tried w holds

/-- Each round attempts a goal that was not attempted before. -/
theorem driveWithin_orderly (stale : Option α) {x : Run α} (orderly : x.Orderly (P running) G asked)
    (ample : remaining all attempted < steps) :
    (driveWithin attempt stale x steps attempted).Orderly (P running) G asked := by
  induction steps generalizing attempted with
  | zero => omega
  | succ steps ih =>
    intro w holds
    refine (orderly w holds).caught (fun result middle holds _ _ asks => ?_) fun _ _ => WorldOrder.trans
    split
    · exact concludes_pure holds trivial
    · rename_i goal _
      have asks := asks _ rfl goal rfl
      refine (laws.pursue_concludes attempts leading attempted asks holds).bind fun reached last holds _ found => ?_
      refine concludes_ite (fun isReached => ?_) fun _ => ?_
      · obtain ⟨listed, fresh⟩ := found isReached
        refine ih ?_ last holds
        have fewer := remaining_visit listed fresh List.mem_cons_self fun _ => List.mem_cons_of_mem goal
        omega
      · split
        · exact concludes_pure holds trivial
        · exact concludes_raise holds (.missing asks)
    · exact concludes_raise holds (asks _ rfl)

end Driving

section Producing

variable (attempts : attempt.Supervised P G asked all running) (waits : known goal) (asks : asked goal)
  (once : ∀ w, P running w → (do countRun goal; pass attempt goal : Run Bool).Concludes (P running)
    (World.Reran G goal) asked w fun _ _ => True)

include attempts waits once

/-- Every run is counted, and there are as many rounds as a goal may be run. -/
theorem runPass_concludes (holds : P running w) (ample : maxRuns ≤ runs + w.schedule.runsOf goal) :
    (runPass pass attempt goal (runs + 1)).Concludes (P running) G asked w fun _ _ => True := by
  induction runs generalizing w with
  | zero =>
    obtain ⟨counted, grown⟩ := laws.counted goal holds
    have spent : maxRuns ≤ w.schedule.runsOf goal := by omega
    exact (runPass_fails ((countRun_fails spent).bind _)).concludes counted grown
  | succ runs ih =>
    refine (once w holds).caught (fun result middle holds ran _ asks => ?_) fun _ _ ran => WorldOrder.trans ran.1
    split
    · split
      · exact (laws.initialized waits middle holds).bind fun _ _ holds _ _ => concludes_pure holds trivial
      · exact concludes_pure holds trivial
    · exact concludes_pure holds trivial
    · rename_i need _
      have asks := asks _ rfl need rfl
      apply concludes_read rfl
      refine concludes_ite (fun _ => ?_) fun _ => ?_
      · exact (laws.concurrent goal need middle holds).bind fun _ _ holds _ _ => concludes_pure holds trivial
      · refine (laws.prerequisite waits asks middle holds).bind fun _ noted holds more _ => ?_
        refine (attempts need asks noted holds).bind fun _ last holds further _ => ?_
        refine concludes_ite (fun _ => ih holds ?_) fun _ => concludes_pure holds trivial
        have counts := Nat.le_trans (laws.counts more goal) (laws.counts further goal)
        have ran := ran.2
        omega
    · exact concludes_raise holds (asks _ rfl)

include asks

theorem produce_orderly : (produce pass attempt goal).Orderly (P running) G asked := by
  refine orderly_read fun w holds => ?_
  have first : (attemptAll attempt (w.schedule.prerequisitesOf goal)).Orderly (P running) G asked :=
    orderly_composes.allOf fun need member => attempts.orderly (laws.earlier holds asks member)
  refine (first w holds).bind fun every middle holds _ _ => ?_
  exact concludes_ite (fun _ => laws.runPass_concludes attempts waits once holds (Nat.le_add_right _ _)) fun _ =>
    concludes_pure holds trivial

end Producing

/-- The goal is on top of the stack while it is produced, and taken off again afterwards. -/
theorem attemptWithin_concludes {good : Bool → Prop} (holds : P running w)
    (done : w.reached goal → good true) (busy : good false)
    (produced : goal ∉ running → ∀ w, P (goal :: running) w →
      (produce pass (attemptWithin pass depth) goal).Concludes (P (goal :: running)) G asked w fun reached _ => good reached) :
    (attemptWithin pass (depth + 1) goal).Concludes (P running) G asked w fun reached _ => good reached := by
  apply concludes_read rfl
  refine concludes_ite (fun reached => concludes_pure holds (done reached)) fun _ => ?_
  refine concludes_ite (fun _ => concludes_pure holds busy) fun idle => ?_
  have fresh : goal ∉ running := by
    rw [← laws.stack holds]
    simpa [Schedule.isProducing] using idle
  have pushed := laws.withRunning holds (congrArg (goal :: ·) (laws.stack holds))
  refine concludes_step (H := G) rfl ?_ fun _ _ grown => laws.outside grown
  refine (produced fresh _ pushed).caught (fun result after holds _ answer asks => ?_) fun _ _ => WorldOrder.trans
  have popped := laws.withRunning holds (congrArg List.tail (laws.stack holds))
  refine concludes_step (H := G) rfl ?_ fun _ _ grown => laws.outside grown
  cases result with
  | ok reached => exact concludes_pure popped (answer reached rfl)
  | error e => exact concludes_raise popped (asks e rfl)

end Supervision

section Compiling

variable [WorldOrder G] (attempts : attempt.Supervised P G asked all running)
  (jobs : ∀ w, P running w → ∀ job ∈ w.schedule.jobIds, asked (.typesInitialized job)) {limit steps index : Nat}
  (classes : ∀ w, P running w → w.arena.size ≤ limit)
  (below : ∀ id : ClassId, id.index < limit → ∀ stage, asked (.reach id stage))

include attempts below

theorem Run.compileClass_orderly {id : ClassId} (small : id.index < limit) :
    (compileClass attempt id).Orderly (P running) G asked := fun w holds => by
  refine concludes_read rfl (orderly_ite (orderly_forM fun stage _ => ?_) (orderly_pure _) w holds)
  exact orderly_bind (attempts.orderly (below id small stage)) fun _ => orderly_ite (orderly_pure _) (orderly_plain rfl)

include classes

/-- Each step gets past a class, and there is a limit to them. -/
theorem Run.compileClassesWithin_concludes (holds : P running w) (within : index ≤ limit) (ample : limit < steps + index) :
    (compileClassesWithin attempt steps index).Concludes (P running) G asked w
      fun next _ => next ≤ limit ∧ index ≤ next ∧ (index < w.arena.size → index < next) := by
  induction steps generalizing index w with
  | zero => omega
  | succ steps ih =>
    apply concludes_read rfl
    refine concludes_ite (fun small => ?_) fun large => concludes_pure holds ⟨within, Nat.le_refl _, ?_⟩
    · have small := Nat.lt_of_lt_of_le small (classes w holds)
      refine (compileClass_orderly attempts below small w holds).bind fun _ middle holds _ _ => ?_
      exact (ih holds small (by omega)).mono fun next _ _ _ bound => ⟨bound.1, by omega, fun _ => by omega⟩
    · exact fun small => absurd small large

include jobs

/-- Each round compiles at least one more class. -/
theorem Run.compileWithin_orderly (within : index ≤ limit) (ample : limit < steps + index) :
    (compileWithin attempt steps index).Orderly (P running) G asked := by
  have first : (attemptJobs attempt).Orderly (P running) G asked := orderly_read fun w holds =>
    orderly_forM (fun job member => orderly_discard (attempts.orderly (jobs w holds job member))) w holds
  induction steps generalizing index with
  | zero => omega
  | succ steps ih =>
    intro w holds
    refine (first w holds).bind fun _ middle holds _ _ => ?_
    apply concludes_read rfl
    refine concludes_ite (fun small => ?_) fun _ => concludes_pure holds trivial
    refine (compileClassesWithin_concludes attempts classes below holds within ample).bind fun next last holds _ bound => ?_
    exact ih bound.1 (by omega) last holds

end Compiling

end ClassUniverse
