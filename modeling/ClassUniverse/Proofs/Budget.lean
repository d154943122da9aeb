import ClassUniverse.Proofs.ClassPaths
import ClassUniverse.Proofs.HaltingPasses
import ClassUniverse.Proofs.Supervision
import Mathlib.Algebra.BigOperators.Group.Finset.Basic
import Mathlib.Algebra.Order.BigOperators.Group.Finset

/-! How much a session over sources can still do. Each job is run a limited number of times and adds a limited
number of classes, so there is a limit to the classes, and with them to the goals that can be reached. -/
namespace ClassUniverse

open Run

variable {id : ClassId}

namespace Schedule

variable {s after : Schedule}

/-- The runs of the first so many jobs that may still succeed. -/
def jobRuns (s : Schedule) (jobs : Nat) : Nat :=
  (Finset.range jobs).sum fun index => min maxRuns (s.runsOf (.typesInitialized ⟨index⟩))

theorem jobRuns_le (s : Schedule) (jobs : Nat) : s.jobRuns jobs ≤ jobs * maxRuns :=
  calc s.jobRuns jobs
    _ ≤ (Finset.range jobs).sum fun _ => maxRuns := Finset.sum_le_sum fun _ _ => Nat.min_le_left _ _
    _ = jobs * maxRuns := by rw [Finset.sum_const_nat fun _ _ => rfl, Finset.card_range]

theorem jobRuns_mono (more : ∀ goal, s.runsOf goal ≤ after.runsOf goal) (jobs : Nat) :
    s.jobRuns jobs ≤ after.jobRuns jobs := by
  refine Finset.sum_le_sum fun index _ => ?_
  have more := more (.typesInitialized ⟨index⟩)
  omega

theorem jobRuns_lt {jobs : Nat} (more : ∀ goal, s.runsOf goal ≤ after.runsOf goal)
    (counted : s.runsOf (.typesInitialized job) < after.runsOf (.typesInitialized job))
    (allowed : after.runsOf (.typesInitialized job) ≤ maxRuns) (listed : job.index < jobs) :
    s.jobRuns jobs < after.jobRuns jobs := by
  refine Finset.sum_lt_sum (fun index _ => ?_) ⟨job.index, Finset.mem_range.mpr listed, ?_⟩
  · have more := more (.typesInitialized ⟨index⟩)
    omega
  · change min maxRuns (s.runsOf (.typesInitialized job)) < min maxRuns (after.runsOf (.typesInitialized job))
    omega

end Schedule

/-- What the runs that follow may come to: the jobs, and the classes that there can ever be, among others. -/
structure Budget (u : Universe) where
  /-- Classes that there are already. -/
  start : Nat
  jobs : List JobId
  classes : List ClassId
  allJobs : ∀ job : JobId, job.index < u.sources.length → job ∈ jobs
  allClasses : ∀ id : ClassId,
    id.index < start + u.declarations.length * (u.sources.length * maxRuns) → id ∈ classes

namespace Budget

variable {b : Budget u}

def limit (b : Budget u) : Nat := b.start + u.declarations.length * (u.sources.length * maxRuns)

/-- The goals that may be reached, or wait for others. -/
def goals (b : Budget u) : List Goal :=
  b.jobs.map .typesInitialized ++ b.classes.flatMap fun id => Stage.all.map (.reach id)

theorem job_mem_goals : .typesInitialized job ∈ b.goals ↔ job ∈ b.jobs := by
  simp [goals]

theorem class_mem_goals : .reach id stage ∈ b.goals ↔ id ∈ b.classes := by
  have listed : stage ∈ Stage.all := by cases stage <;> decide
  simp [goals, listed]

/-- Whatever is recorded about goals belongs to the budget. -/
def ofWorld (u : Universe) (w : World) : Budget u where
  start := w.arena.size
  jobs := (List.range u.sources.length).map JobId.mk ++ w.schedule.initialized ++
    w.schedule.prerequisites.keys.filterMap fun goal =>
      match goal with
      | .typesInitialized job => some job
      | .reach .. => none
  classes := classesBelow (w.arena.size + u.declarations.length * (u.sources.length * maxRuns)) ++
    w.schedule.prerequisites.keys.filterMap fun goal =>
      match goal with
      | .reach id _ => some id
      | .typesInitialized _ => none
  allJobs job listed := List.mem_append_left _ (List.mem_append_left _
    (List.mem_map.mpr ⟨job.index, List.mem_range.mpr listed, rfl⟩))
  allClasses _ small := List.mem_append_left _ (mem_classesBelow small)

end Budget

/-- No goal has been run less often than before. -/
def World.Counts (w after : World) : Prop := ∀ goal, w.schedule.runsOf goal ≤ after.schedule.runsOf goal

instance : WorldOrder World.Counts where
  refl _ _ := Nat.le_refl _
  trans first second goal := Nat.le_trans (first goal) (second goal)

/-- A world in which nothing exceeds the budget, while some goals are being run. -/
structure World.InBudget {u : Universe} (b : Budget u) (running : List Goal) (w : World) : Prop
    extends w.SourceOnly u where
  size : w.arena.size ≤ b.start + u.declarations.length * w.schedule.jobRuns u.sources.length
  stack : w.schedule.running = running
  waiting : ∀ goal, w.schedule.prerequisites.contains goal → goal ∈ b.goals
  initialized : ∀ job ∈ w.schedule.initialized, .typesInitialized job ∈ b.goals

/-- The computation comes to an end and keeps to the budget. -/
abbrev Run.Bounded {u : Universe} (b : Budget u) (running : List Goal) (x : Run α) : Prop :=
  x.Orderly (World.InBudget b running) World.Counts fun _ => True

namespace World.InBudget

variable {b : Budget u} {w : World}

variable (holds : w.InBudget b running)
include holds

theorem limited : w.Limited u b.limit := by
  refine ⟨holds.toSourceOnly, ?_⟩
  have product := Nat.mul_le_mul_left u.declarations.length (w.schedule.jobRuns_le u.sources.length)
  have size := holds.size
  unfold Budget.limit
  omega

theorem inside (unknown : id ∉ b.classes) : w.arena.size ≤ id.index := by
  have bound := holds.limited.size
  refine Nat.le_trans bound (Nat.le_of_not_lt fun small => unknown (b.allClasses id small))

theorem jobs_length : w.schedule.jobs.length ≤ u.sources.length := by
  have listed : w.schedule.jobs.map SourceFile.path ⊆ u.sources.map SourceFile.path := by
    intro path member
    obtain ⟨source, among, rfl⟩ := List.mem_map.mp member
    exact List.mem_map.mpr ⟨source, holds.jobs source among, rfl⟩
  have short := (List.subperm_of_subset holds.paths listed).length_le
  simpa using short

/-- Classes may be added as far as there is room for them. -/
theorem widen
    (room : w.arena.size + more ≤ b.start + u.declarations.length * w.schedule.jobRuns u.sources.length)
    (sourced : after.SourceOnly u) (widens : w.Widens more after) : after.InBudget b running ∧ w.Counts after := by
  obtain ⟨loaded, schedule⟩ := widens.schedule
  refine ⟨⟨sourced, ?_, ?_, ?_, ?_⟩, ?_⟩
  · rw [schedule]
    exact Nat.le_trans widens.bound room
  · rw [schedule]
    exact holds.stack
  · rw [schedule]
    exact holds.waiting
  · rw [schedule]
    exact holds.initialized
  · intro goal
    rw [schedule]
    exact Nat.le_refl _

theorem withSchedule {schedule : Schedule} (jobs : schedule.jobs = w.schedule.jobs)
    (more : ∀ goal, w.schedule.runsOf goal ≤ schedule.runsOf goal) (stack : schedule.running = goals)
    (waiting : ∀ goal, schedule.prerequisites.contains goal → goal ∈ b.goals)
    (initialized : ∀ job ∈ schedule.initialized, .typesInitialized job ∈ b.goals) :
    InBudget b goals { w with schedule } := by
  refine ⟨holds.toSourceOnly.withSchedule jobs, ?_, stack, waiting, initialized⟩
  have product := Nat.mul_le_mul_left u.declarations.length (Schedule.jobRuns_mono more u.sources.length)
  have size := holds.size
  dsimp only
  omega

theorem withRunning {stack : List Goal} (same : stack = goals) :
    InBudget b goals { w with schedule := { w.schedule with running := stack } } :=
  holds.withSchedule rfl (fun _ => Nat.le_refl _) same holds.waiting holds.initialized

theorem countRun (goal : Goal) : InBudget b running { w with schedule := w.schedule.countRun goal } ∧
      w.Counts { w with schedule := w.schedule.countRun goal } := by
  have more (other : Goal) : w.schedule.runsOf other ≤ (w.schedule.countRun goal).runsOf other := by
    rw [Schedule.runsOf_countRun]
    split
    · rename_i same
      rw [same]
      omega
    · exact Nat.le_refl _
  exact ⟨holds.withSchedule rfl more holds.stack holds.waiting holds.initialized, more⟩

/-- A run that counts makes room for all declared classes. -/
theorem room (listed : job.index < u.sources.length) (allowed : w.schedule.runsOf (.typesInitialized job) < maxRuns) :
    w.arena.size + u.declarations.length ≤ b.start + u.declarations.length *
      (w.schedule.countRun (.typesInitialized job)).jobRuns u.sources.length := by
  have once : (w.schedule.countRun (.typesInitialized job)).runsOf (.typesInitialized job) =
      w.schedule.runsOf (.typesInitialized job) + 1 := by rw [Schedule.runsOf_countRun, if_pos rfl]
  have more : w.schedule.jobRuns u.sources.length <
      (w.schedule.countRun (.typesInitialized job)).jobRuns u.sources.length :=
    Schedule.jobRuns_lt (holds.countRun (.typesInitialized job)).2 (by omega) (by omega) listed
  have product := Nat.mul_le_mul_left u.declarations.length (Nat.succ_le_of_lt more)
  rw [Nat.mul_succ] at product
  have size := holds.size
  omega

theorem source?_absent (large : ¬ job.index < u.sources.length) : w.schedule.source? job = none :=
  List.getElem?_eq_none (Nat.le_trans holds.jobs_length (Nat.le_of_not_lt large))

section Unknown

theorem unreached (unknown : goal ∉ b.goals) : ¬ w.reached goal := by
  cases goal with
  | typesInitialized job => simpa [World.reached] using fun member => unknown (holds.initialized job member)
  | reach id stage =>
    have outside := holds.inside fun known => unknown (Budget.class_mem_goals.mpr known)
    simp [World.reached, World.hasStage, w.arena.get_absent outside, Stages.none]

theorem prerequisitesOf_unknown (unknown : goal ∉ b.goals) : w.schedule.prerequisitesOf goal = goal.prerequisites := by
  have absent : w.schedule.prerequisites.find? goal = none := by
    simpa [Assoc.contains] using fun found => unknown (holds.waiting goal found)
  simp [Schedule.prerequisitesOf, Assoc.getD, absent]

end Unknown

end World.InBudget

section Bookkeeping

variable {b : Budget u} {w : World}

theorem Run.Steady.bounded {x : Run α} (adds : x.AddsNone u b.limit) : x.Bounded b running :=
  Steady.orderly (adds.weaken (fun _ holds => holds.limited) fun _ _ holds later widens =>
    holds.widen holds.size later.toSourceOnly widens)

/-- Only goals of the budget come to wait for others. -/
theorem Run.addPrerequisite_bounded (known : goal ∈ b.goals) (need : Goal) :
    (addPrerequisite goal need).Bounded b running := by
  refine orderly_read fun w holds => ?_
  split
  · rename_i schedule recorded
    unfold Schedule.addPrerequisite? at recorded
    split at recorded
    · cases recorded
    · cases recorded
      refine concludes_modify (holds.withSchedule rfl (fun _ => Nat.le_refl _) holds.stack ?_ holds.initialized)
        (fun _ => Nat.le_refl _) trivial
      intro other found
      rw [Assoc.contains, Assoc.find?_insert] at found
      split at found
      · rename_i same
        exact same ▸ known
      · exact holds.waiting other found
  · exact orderly_plain rfl w holds

theorem Run.setInitialized_bounded (known : .typesInitialized job ∈ b.goals) :
    (modifySchedule (·.setInitialized job)).Bounded b running := by
  refine fun w holds => concludes_modify ?_ (fun _ => Nat.le_refl _) trivial
  refine holds.withSchedule rfl (fun _ => Nat.le_refl _) holds.stack holds.waiting fun other member => ?_
  unfold Schedule.setInitialized at member
  dsimp only at member
  split at member
  · exact holds.initialized other member
  · rcases List.mem_cons.mp member with rfl | member
    · exact known
    · exact holds.initialized other member

/-- The books are kept within the budget. -/
theorem Budget.supervision (b : Budget u) :
    Supervision (World.InBudget b) World.Counts (fun _ => True) (· ∈ b.goals) where
  stack holds := holds.stack
  withRunning holds same := holds.withRunning same
  outside grown := grown
  counts grown := grown
  counted goal holds := holds.countRun goal
  earlier _ _ _ := trivial
  concurrent _ _ _ holds := concludes_modify
    (holds.withSchedule rfl (fun _ => Nat.le_refl _) holds.stack holds.waiting holds.initialized)
    (fun _ => Nat.le_refl _) trivial
  prerequisite known _ := addPrerequisite_bounded known _
  initialized known := setInitialized_bounded known

theorem World.inBudget_ofWorld (holds : w.SourceOnly u) : w.InBudget (.ofWorld u w) w.schedule.running := by
  refine ⟨holds, Nat.le_add_right _ _, rfl, fun goal found => ?_, fun job member => ?_⟩
  · have key : goal ∈ w.schedule.prerequisites.keys := Assoc.mem_keys.mpr found
    cases goal with
    | typesInitialized job =>
      exact Budget.job_mem_goals.mpr (List.mem_append_right _ (List.mem_filterMap.mpr ⟨_, key, rfl⟩))
    | reach id stage =>
      exact Budget.class_mem_goals.mpr (List.mem_append_right _ (List.mem_filterMap.mpr ⟨_, key, rfl⟩))
  · exact Budget.job_mem_goals.mpr (List.mem_append_left _ (List.mem_append_right _ member))

end Bookkeeping

end ClassUniverse
