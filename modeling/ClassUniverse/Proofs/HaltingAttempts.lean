import ClassUniverse.Proofs.Budget

/-! Sessions over sources attempt only goals of a budget with success, so their attempts come to an end. -/
namespace ClassUniverse

open Run

variable {b : Budget u} {w : World}

/-- All attempts come to an end while some goals are being run. Only goals of the budget are reached. -/
abbrev Attempt.Halts (attempt : Attempt) (b : Budget u) (running : List Goal) : Prop :=
  attempt.Supervised (World.InBudget b) World.Counts (fun _ => True) b.goals running

section Passes

variable {l : Loader} {attempt : Attempt}

/-- The innermost goal being run is one of the budget. -/
def Budget.Leading (b : Budget u) (running : List Goal) : Prop := ∀ goal, running.head? = some goal → goal ∈ b.goals

/-- What a loader must have room for. -/
structure Loader.Affords (l : Loader) (b : Budget u) : Prop where
  ready : l.Ready u b.limit
  ample : b.goals.length < l.depth

section Classes

variable (affords : l.Affords b) (halts : attempt.Halts b running) (leading : b.Leading running) (id : ClassId)
include affords halts leading id

theorem Loader.checkAllMembers_bounded : (l.checkAllMembers attempt id).Bounded b running := by
  have ensured (above : ClassId) : (l.ensureAllMembers above).Bounded b running :=
    (affords.ready.ensure above _).addsNone.bounded
  have supers : (l.supertypes id).Bounded b running := (affords.ready.steps.supertypes id).addsNone.bounded
  refine orderly_bind supers fun supers => orderly_bind (orderly_forM fun above _ => ?_) fun _ => ?_
  · refine b.supervision.driveWithin_orderly halts leading _ (ensured above) ?_
    rw [remaining_nil]
    exact affords.ample
  · refine orderly_bind (checkConformance_calm affords.ready id).addsNone.bounded fun _ => ?_
    exact (SourceKept.mark_steady id _).calm.addsNone.bounded

theorem Loader.reachStage_bounded (stage : Stage) : (l.reachStage attempt id stage).Bounded b running := by
  cases stage with
  | supertypesResolved => exact (resolveSupertypes_addsNone affords.ready id).bounded
  | membersAdded => exact Steady.bounded fun w holds => (addMembers_adds id w holds.toSourceOnly).limited holds
  | signaturesResolved => exact (resolveSignatures_addsNone affords.ready id).bounded
  | allMembersAdded => exact checkAllMembers_bounded affords halts leading id

end Classes

theorem Loader.initializeTypes_fails (holds : w.InBudget b running)
    (large : ¬ job.index < u.sources.length) : (initializeTypes job).FailsAt w w := by
  apply failsAt_step rfl
  rw [holds.source?_absent large]
  exact failsAt_fault

theorem Loader.declarationPass_fails (holds : w.InBudget b running) (unknown : goal ∉ b.goals)
    (first : goal.prerequisites = []) : (l.declarationPass attempt goal).FailsAt w w := by
  cases goal with
  | typesInitialized job =>
    refine (initializeTypes_fails holds fun listed => ?_).bind _
    exact unknown (Budget.job_mem_goals.mpr (b.allJobs job listed))
  | reach id stage =>
    have outside := holds.inside fun known => unknown (Budget.class_mem_goals.mpr known)
    have undeclared : w.declarations.find? id = none := by
      rw [Option.eq_none_iff_forall_not_mem]
      intro decl found
      have inside := (holds.declared id decl found).1
      omega
    have untouched : w.hasStage id stage = false := by simpa [World.reached] using holds.unreached unknown
    have refused : (declarationOf id).FailsAt w w := by
      apply failsAt_step rfl
      rw [undeclared]
      exact failsAt_fault
    apply failsAt_step rfl
    rw [untouched]
    cases stage with
    | supertypesResolved => exact (refused.bind _).bind _
    | membersAdded => exact (refused.bind _).bind _
    | signaturesResolved => cases first
    | allMembersAdded => cases first

end Passes

/-- A job has a run to spend on the classes that it declares. -/
theorem Loader.initializeTypes_concludes (holds : w.InBudget b running)
    (allowed : w.schedule.runsOf (.typesInitialized job) < maxRuns) :
    (initializeTypes job).Concludes (World.InBudget b running) World.Counts (fun _ => True)
      { w with schedule := w.schedule.countRun (.typesInitialized job) } fun _ _ => True := by
  obtain ⟨counted, _⟩ := holds.countRun (.typesInitialized job)
  by_cases listed : job.index < u.sources.length
  · exact ((initializeTypes_adds job _ counted.toSourceOnly).weaken fun _ later widens =>
      counted.widen (holds.room listed allowed) later widens).concludes
  · exact (initializeTypes_fails counted listed).concludes counted (WorldOrder.refl _)

theorem Loader.runOnce_concludes {l : Loader} (affords : l.Affords b)
    (halts : attempt.Halts b (goal :: running)) (known : goal ∈ b.goals) (holds : w.InBudget b (goal :: running)) :
    (do countRun goal; l.declarationPass attempt goal : Run Bool).Concludes (World.InBudget b (goal :: running))
      (World.Reran World.Counts goal) (fun _ => True) w fun _ _ => True := by
  refine b.supervision.counted_concludes holds fun allowed => ?_
  cases goal with
  | typesInitialized job =>
    exact (initializeTypes_concludes holds allowed).bind fun _ _ holds _ _ => concludes_pure holds trivial
  | reach id stage =>
    have leading : b.Leading (.reach id stage :: running) := fun goal top => Option.some.inj top ▸ known
    have reaches := reachStage_bounded affords halts leading id stage
    have passes : (l.declarationPass attempt (.reach id stage)).Bounded b (.reach id stage :: running) :=
      orderly_read fun w holds => orderly_ite (orderly_pure _) (orderly_bind reaches fun _ => orderly_pure _) w holds
    exact passes _ (holds.countRun _).1

section Unknown

variable {l : Loader}

theorem Run.attemptFirst_unknown (unknown : goal ∉ b.goals) (first : goal.prerequisites = [])
    (holds : w.InBudget b running) :
    (attemptWithin l.declarationPass (depth + 1) goal).Concludes (World.InBudget b running) World.Counts (fun _ => True) w
      fun reached _ => reached = false := by
  refine b.supervision.attemptWithin_concludes holds (fun reached => absurd reached (holds.unreached unknown)) rfl
    fun _ w holds => ?_
  obtain ⟨counted, grown⟩ := holds.countRun goal
  apply concludes_read rfl
  rw [holds.prerequisitesOf_unknown unknown, first]
  apply concludes_read rfl
  have fails : (do countRun goal; l.declarationPass (attemptWithin l.declarationPass depth) goal).FailsAt w
      { w with schedule := w.schedule.countRun goal } := by
    by_cases allowed : w.schedule.runsOf goal < maxRuns
    · exact failsAt_step (on_countRun allowed) (Loader.declarationPass_fails counted unknown first)
    · exact (countRun_fails (Nat.le_of_not_lt allowed)).bind _
  exact (runPass_fails fails).concludes counted grown

/-- What is unknown is never reached. Attempts at it fail at once, or at the first stage that comes before. -/
theorem Run.attemptWithin_unknown (unknown : goal ∉ b.goals) (holds : w.InBudget b running) :
    (attemptWithin l.declarationPass (depth + 2) goal).Concludes (World.InBudget b running) World.Counts (fun _ => True) w
      fun reached _ => reached = false := by
  by_cases first : goal.prerequisites = []
  · exact attemptFirst_unknown unknown first holds
  · obtain ⟨earlier, rest, before, unknownToo, nothing⟩ : ∃ earlier rest, goal.prerequisites = earlier :: rest ∧
        earlier ∉ b.goals ∧ earlier.prerequisites = [] := by
      cases goal with
      | typesInitialized job => exact absurd rfl first
      | reach id stage =>
        rw [Budget.class_mem_goals] at unknown
        cases stage with
        | signaturesResolved => exact ⟨_, _, rfl, fun known => unknown (Budget.class_mem_goals.mp known), rfl⟩
        | allMembersAdded => exact ⟨_, _, rfl, fun known => unknown (Budget.class_mem_goals.mp known), rfl⟩
        | _ => exact absurd rfl first
    have unreached := holds.unreached unknown
    refine b.supervision.attemptWithin_concludes holds (fun reached => absurd reached unreached) rfl fun _ w holds => ?_
    apply concludes_read rfl
    rw [holds.prerequisitesOf_unknown unknown, before]
    have missed : (attemptAll (attemptWithin l.declarationPass (depth + 1)) (earlier :: rest)).Concludes
        (World.InBudget b (goal :: running)) World.Counts (fun _ => True) w fun all _ => all = false := by
      refine (attemptFirst_unknown unknownToo nothing holds).bind fun reached _ holds _ never => ?_
      rw [never]
      exact concludes_pure holds rfl
    refine missed.bind fun all _ holds _ never => ?_
    rw [never]
    exact concludes_pure holds rfl

end Unknown

/-- Goals of the budget are used up as attempts nest, and two more levels settle a goal outside it. -/
theorem Run.attemptWithin_halts {l : Loader} (affords : l.Affords b) (ample : remaining b.goals running + 2 ≤ depth) :
    Attempt.Halts (attemptWithin l.declarationPass depth) b running := by
  induction depth generalizing running with
  | zero => omega
  | succ depth ih =>
    intro goal _ w holds
    by_cases known : goal ∈ b.goals
    · refine b.supervision.attemptWithin_concludes holds (fun _ _ => known) (fun _ => known) fun fresh w holds => ?_
      have fewer := remaining_visit known fresh List.mem_cons_self fun _ => List.mem_cons_of_mem goal
      have halts : Attempt.Halts (attemptWithin l.declarationPass depth) b (goal :: running) := ih (by omega)
      refine (b.supervision.produce_orderly halts known trivial (fun w holds => ?_) w holds).mono fun _ _ _ _ _ _ => known
      exact Loader.runOnce_concludes affords halts known holds
    · obtain ⟨depth, rfl⟩ : ∃ smaller, depth = smaller + 1 := ⟨depth - 1, by omega⟩
      exact (attemptWithin_unknown known holds).mono fun _ _ _ _ never reached => by simp [reached] at never

end ClassUniverse
