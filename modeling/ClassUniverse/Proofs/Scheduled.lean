import ClassUniverse.Proofs.Requests

/-! Goals that are attempted on demand. If each pass keeps an invariant and reaches its goal once the stages
before it are there, then so does every attempt, however passes wait for one another. -/
namespace ClassUniverse

open Run

def Goal.OfClass (goal : Goal) : Prop := ∃ id stage, goal = .reach id stage

theorem Goal.not_ofClass (job : JobId) : ¬ (typesInitialized job).OfClass := by
  rintro ⟨_, _, ⟨⟩⟩

/-- No job is being initialized. -/
def World.AtClass (w : World) : Prop := ∀ goal ∈ w.schedule.running, goal.OfClass

/-- Invariants that the bookkeeping of attempts keeps. -/
structure Books (P : World → Prop) (G : World → World → Prop) : Prop where
  running : ∀ {w} goals, P w → P { w with schedule := { w.schedule with running := goals } }
  unwound : ∀ {w after goal}, G { w with schedule := { w.schedule with running := goal :: w.schedule.running } } after →
    G w { after with schedule := { after.schedule with running := after.schedule.running.tail } }
  counted : ∀ goal w, Kept P G w { w with schedule := w.schedule.countRun goal }
  initialized : ∀ job w, Kept P G w { w with schedule := w.schedule.setInitialized job }

/-- Invariants under which jobs never wait for anything. -/
structure Discipline (P : World → Prop) (G : World → World → Prop) : Prop extends Books P G where
  reached : ∀ {w after goal}, G w after → w.reached goal → after.reached goal
  stacked : ∀ {w after}, G w after → after.schedule.running = w.schedule.running
  concurrent : ∀ goal other w, Kept P G w { w with schedule := w.schedule.addConcurrent goal other }
  required : ∀ {id stage goal schedule} w, w.schedule.addPrerequisite? (.reach id stage) goal = some schedule →
    Kept P G w { w with schedule }
  free : ∀ {w job}, P w → w.schedule.prerequisitesOf (.typesInitialized job) = []

/-- Attempts keep the invariant, and those that succeed have reached their goal. -/
def Attempt.Sound (attempt : Attempt) (P : World → Prop) (G : World → World → Prop) : Prop :=
  ∀ goal w, P w → w.AtClass → (attempt goal).Gives P G w fun reached after => reached = true → after.reached goal

/-- A pass over a job succeeds or fails for good. -/
structure Pass.JobsSound (pass : Pass) (P : World → Prop) (G : World → World → Prop) : Prop where
  jobs : ∀ attempt job w, P w → (pass attempt (.typesInitialized job)).Ends w
    (fun reached after => (P after ∧ G w after) ∧ reached = true)
    (fun e after => (P after ∧ G w after) ∧ e.missingGoal? = none)

/-- What a pass must do so that attempts with it are sound. -/
structure Pass.Sound (pass : Pass) (P : World → Prop) (G : World → World → Prop) : Prop extends
    pass.JobsSound P G where
  classes : ∀ {attempt : Attempt}, attempt.Sound P G → ∀ id stage w, P w → w.AtClass →
    (∀ earlier ∈ stage.prerequisites, w.hasStage id earlier) →
    (pass attempt (.reach id stage)).Gives P G w fun reached after => reached = true → after.hasStage id stage

section Booking

/-! Attempts note what waits for what, and leave the rest to passes. -/

variable {R : World → World → Prop} {goals : Goal → Prop} {attempt : Attempt} {pass : Pass} {goal other : Goal}

theorem Run.ends_addPrerequisite
    (added : ∀ schedule, w.schedule.addPrerequisite? goal other = some schedule → ok () { w with schedule })
    (refused : ∀ e, e.missingGoal? = none → bad e w) : (addPrerequisite goal other).Ends w ok bad := by
  unfold addPrerequisite
  rw [ends_bind, ends_get]
  split
  · exact ends_modifySchedule.mpr (added _ ‹_›)
  · exact ends_throw.mpr (refused _ rfl)

variable [WorldOrder R]

theorem Run.addPrerequisite_within
    (added : ∀ {w schedule}, w.schedule.addPrerequisite? goal other = some schedule → R w { w with schedule }) :
    (addPrerequisite goal other).Within R goals :=
  fun w => ends_addPrerequisite (fun _ => added) fun _ plain => ⟨WorldOrder.refl w, .plain plain⟩

theorem Run.countRun_within (counted : ∀ w, R w { w with schedule := w.schedule.countRun goal }) :
    (countRun goal).Within R goals := by
  refine within_bind (within_modify counted) fun _ => within_bind within_get fun _ => ?_
  exact within_ite (within_plain rfl) (within_pure _)

section Driving

variable (kept : ∀ goal, (attempt goal).Within R)
  (concurrent : ∀ {w current} goal, w.schedule.current? = some current →
    R w { w with schedule := w.schedule.addConcurrent current goal })
  (required : ∀ {w current goal schedule}, w.schedule.current? = some current →
    w.schedule.addPrerequisite? current goal = some schedule → R w { w with schedule })
include kept concurrent required

theorem Run.pursue_within (attempted : List Goal) (goal : Goal) : (pursue attempt attempted goal).Within R := by
  have tried : (do
      if ← attempt goal then return true else throw (.missingDependency goal) : Run Bool).Within R :=
    within_bind (kept goal) fun _ => within_ite (within_pure _) (within_throw _)
  refine within_of_worlds fun w => ?_
  unfold pursue
  rw [ends_bind, ends_get]
  dsimp only
  split
  · split
    · rw [ends_bind, addConcurrent, ends_modifySchedule]
      exact ends_pure.mpr (concurrent goal ‹_›)
    · exact ends_pure.mpr (WorldOrder.refl w)
  · split
    · exact ends_throw.mpr (WorldOrder.refl w)
    · split
      · refine ends_bind.mpr (ends_addPrerequisite (fun schedule added => ?_) fun _ _ => WorldOrder.refl w)
        have noted := required ‹_› added
        exact (tried.worlds _).mono (fun _ _ => WorldOrder.trans noted) (fun _ _ => WorldOrder.trans noted)
      · exact tried.worlds w

theorem Run.driveWithin_within (stale : Option α) {x : Run α} (once : x.Within R) (steps : Nat) (attempted : List Goal) :
    (driveWithin attempt stale x steps attempted).Within R := by
  induction steps generalizing attempted with
  | zero => exact within_exhausted
  | succ steps ih =>
    refine within_bind (within_outcome once) fun result => ?_
    split
    · exact within_pure _
    · refine within_bind (pursue_within kept concurrent required attempted _) fun _ => within_ite (ih _) ?_
      split
      · exact within_pure _
      · exact within_throw _
    · exact within_throw _

end Driving

end Booking

/-- What is said of goals while they are attempted. -/
structure Account where
  /-- The goal may be attempted. -/
  calls : World → Goal → Prop
  /-- The goal is the one being run. -/
  inside : World → Goal → Prop
  /-- The goal may come to wait for the other one. -/
  may : World → Goal → Goal → Prop
  waits : World → Goal → Goal → Prop
  ready : World → Goal → Prop
  /-- The goal cannot be made ready. -/
  stuck : World → Goal → Prop

/-- What an attempt of the goal comes to. -/
def Account.Verdict (a : Account) (goal : Goal) (reached : Bool) (after : World) : Prop :=
  if reached then a.ready after goal else a.stuck after goal

/-- Attempts of goals that are called for come to a verdict, and never miss a goal. -/
def Attempt.Patient (attempt : Attempt) (P : World → Prop) (G : World → World → Prop) (a : Account) : Prop :=
  ∀ goal w, P w → a.calls w goal → (attempt goal).Leaves P G w (a.Verdict goal) fun e _ => e.missingGoal? = none

/-- A pass that is run for a goal, once the stages before it are ready, comes to a verdict or misses what it may miss.
Jobs are ready when they are marked. -/
def Pass.Patient (pass : Pass) (attempt : Attempt) (P : World → Prop) (G : World → World → Prop) (a : Account) : Prop :=
  ∀ goal w, P w → a.inside w goal → (∀ earlier ∈ goal.prerequisites, a.ready w earlier) →
    (pass attempt goal).Leaves P G w
      (fun reached after => if reached then goal.OfClass → a.ready after goal else a.stuck after goal)
      fun e after => ∀ need, e.missingGoal? = some need → a.may after goal need

/-- What the bookkeeping of attempts may do to what is said of goals. -/
structure Account.Lawful (a : Account) (P : World → Prop) (G : World → World → Prop) : Prop extends Books P G where
  calls : ∀ {w after goal}, G w after → a.calls w goal → a.calls after goal
  inside : ∀ {w after goal}, G w after → a.inside w goal → a.inside after goal
  waits : ∀ {w after goal other}, G w after → a.waits w goal other → a.waits after goal other
  ready : ∀ {w after goal}, G w after → a.ready w goal → a.ready after goal
  known : ∀ {w goal}, P w → w.reached goal → a.ready w goal
  settled : ∀ job (w : World), a.ready { w with schedule := w.schedule.setInitialized job } (.typesInitialized job)
  entered : ∀ {w goal}, a.calls w goal →
    a.inside { w with schedule := { w.schedule with running := goal :: w.schedule.running } } goal
  popped : ∀ {w goal reached} goals, a.Verdict goal reached w →
    a.Verdict goal reached { w with schedule := { w.schedule with running := goals } }
  concurrent : ∀ {w goal other}, P w → a.may w goal other →
    let after : World := { w with schedule := w.schedule.addConcurrent goal other }
    (P after ∧ G w after) ∧ a.waits after goal other
  required : ∀ {w goal other schedule}, P w → a.may w goal other → w.schedule.addPrerequisite? goal other = some schedule →
    (P { w with schedule } ∧ G w { w with schedule }) ∧ a.waits { w with schedule } goal other
  first : ∀ {w goal earlier}, P w → a.inside w goal → earlier ∈ w.schedule.prerequisitesOf goal → a.waits w goal earlier
  called : ∀ {w goal other}, a.inside w goal → a.waits w goal other → a.calls w other
  busy : ∀ {w goal}, a.calls w goal → w.schedule.isProducing goal → a.stuck w goal
  through : ∀ {w goal other}, a.waits w goal other → a.stuck w other → a.stuck w goal

namespace Account.Lawful

variable {P : World → Prop} {G : World → World → Prop} [WorldOrder G] {a : Account} (laws : a.Lawful P G)
  {attempt : Attempt} {pass : Pass} {goal other : Goal}
include laws

theorem addPrerequisite_leaves (holds : P w) (allowed : a.may w goal other) :
    (addPrerequisite goal other).Leaves P G w (fun _ after => a.waits after goal other) fun e _ => e.missingGoal? = none :=
  ends_addPrerequisite (fun _ added => laws.required holds allowed added) fun _ plain => ⟨⟨holds, WorldOrder.refl _⟩, plain⟩

theorem attemptAll_leaves (patient : attempt.Patient P G a) (goals : List Goal) (holds : P w)
    (called : ∀ goal ∈ goals, a.calls w goal) : (attemptAll attempt goals).Leaves P G w
      (fun all after => if all then ∀ goal ∈ goals, a.ready after goal else ∃ goal ∈ goals, a.stuck after goal)
      fun e _ => e.missingGoal? = none := by
  induction goals generalizing w with
  | nil => exact leaves_pure holds (by simp)
  | cons goal rest ih =>
    refine (patient goal w holds (called goal List.mem_cons_self)).bind fun reached middle holds grown verdict => ?_
    cases reached with
    | false => exact leaves_pure holds ⟨goal, List.mem_cons_self, verdict⟩
    | true =>
      refine (ih holds fun other member => laws.calls grown (called other (List.mem_cons_of_mem _ member))).mono
        (fun all after _ later known => ?_) (fun _ _ _ _ given => given)
      cases all with
      | true => exact List.forall_mem_cons.mpr ⟨laws.ready later verdict, known⟩
      | false =>
        obtain ⟨other, member, stuck⟩ := known
        exact ⟨other, List.mem_cons_of_mem _ member, stuck⟩

theorem runPass_leaves (patient : attempt.Patient P G a) (passes : pass.Patient attempt P G a) (runs : Nat)
    (holds : P w) (inside : a.inside w goal) (prepared : ∀ earlier ∈ goal.prerequisites, a.ready w earlier) :
    (runPass pass attempt goal runs).Leaves P G w (a.Verdict goal) fun e _ => e.missingGoal? = none := by
  induction runs generalizing w with
  | zero => exact leaves_exhausted
  | succ runs ih =>
    have once : (do countRun goal; pass attempt goal : Run Bool).Leaves P G w
        (fun reached after => if reached then goal.OfClass → a.ready after goal else a.stuck after goal)
        fun e after => e.AsksFor (a.may after goal) := by
      have counted : (countRun goal).Within (Kept P G) fun _ => False := countRun_within (laws.counted goal)
      refine ((counted.asking holds).mono (fun _ _ _ _ known => known) ?_).bind fun _ middle holds grown _ => ?_
      · exact fun _ _ _ _ asks need missing => (asks need missing).elim
      · exact passes goal middle holds (laws.inside grown inside) fun earlier member => laws.ready grown (prepared earlier member)
    refine (once.outcome.mono (fun _ _ _ _ known => known) (fun _ _ _ _ => False.elim)).bind
      fun result middle holds grown known => ?_
    have inside := laws.inside grown inside
    split
    · have done : goal.OfClass → a.ready middle goal := known.1 true rfl
      cases goal with
      | typesInitialized job =>
        refine (leaves_modify (laws.initialized job middle) holds (laws.settled job middle)).bind
          fun _ last holds _ settled => leaves_pure holds settled
      | reach id stage => exact leaves_pure holds (done ⟨id, stage, rfl⟩)
    · exact leaves_pure holds (known.1 false rfl)
    · rename_i need
      have allowed : a.may middle goal need := known.2 _ rfl need rfl
      refine leaves_get.mpr (leaves_ite (fun producing => ?_) fun _ => ?_)
      · obtain ⟨⟨holds, further⟩, waits⟩ := laws.concurrent holds allowed
        refine ends_bind.mpr (ends_modifySchedule.mpr (ends_pure.mpr ⟨⟨holds, further⟩, laws.through waits ?_⟩))
        exact laws.busy (laws.called (laws.inside further inside) waits) producing
      · refine (laws.addPrerequisite_leaves holds allowed).bind fun _ noted holds further waits => ?_
        have inside := laws.inside further inside
        refine (patient need noted holds (laws.called inside waits)).bind fun reached last holds later verdict => ?_
        cases reached with
        | false => exact leaves_pure holds (laws.through (laws.waits later waits) verdict)
        | true =>
          refine ih holds (laws.inside later inside) fun earlier member => ?_
          exact laws.ready later (laws.ready further (laws.ready grown (prepared earlier member)))
    · rename_i e other
      refine leaves_throw holds (Option.eq_none_iff_forall_ne_some.mpr fun need missing => other need ?_)
      cases e <;> simp_all [Error.missingGoal?]

theorem produce_leaves (patient : attempt.Patient P G a) (passes : pass.Patient attempt P G a) (holds : P w)
    (inside : a.inside w goal) :
    (produce pass attempt goal).Leaves P G w (a.Verdict goal) fun e _ => e.missingGoal? = none := by
  have waits (earlier) (listed : earlier ∈ w.schedule.prerequisitesOf goal) : a.waits w goal earlier :=
    laws.first holds inside listed
  refine leaves_get.mpr ((laws.attemptAll_leaves patient _ holds fun earlier listed =>
    laws.called inside (waits earlier listed)).bind fun all middle holds grown first => ?_)
  cases all with
  | false =>
    obtain ⟨earlier, listed, stuck⟩ := first
    exact leaves_pure holds (laws.through (laws.waits grown (waits earlier listed)) stuck)
  | true =>
    exact laws.runPass_leaves patient passes _ holds (laws.inside grown inside) fun earlier member =>
      first earlier (List.mem_append_left _ member)

/-- The goal is on top of the stack while it is produced, and taken off again afterwards. -/
theorem attempt_leaves (patient : Attempt.Patient (attemptWithin pass depth) P G a)
    (passes : pass.Patient (attemptWithin pass depth) P G a) : Attempt.Patient (attemptWithin pass (depth + 1)) P G a := by
  intro goal w holds calls
  refine leaves_get.mpr (leaves_ite (fun reached => leaves_pure holds (laws.known holds reached)) fun _ => ?_)
  refine leaves_ite (fun producing => leaves_pure holds (laws.busy calls producing)) fun _ => ?_
  unfold Leaves
  rw [ends_bind, ends_modifySchedule, ends_bind, ends_outcome]
  refine Ends.mono (laws.produce_leaves patient passes (laws.running _ holds) (laws.entered calls)) ?_ ?_
  · rintro reached after ⟨⟨holds, grown⟩, verdict⟩
    rw [ends_bind, ends_modifySchedule]
    exact ends_pure.mpr ⟨⟨laws.running _ holds, laws.unwound grown⟩, laws.popped _ verdict⟩
  · rintro e after ⟨⟨holds, grown⟩, given⟩
    rw [ends_bind, ends_modifySchedule]
    exact ends_throw.mpr ⟨⟨laws.running _ holds, laws.unwound grown⟩, given⟩

/-- Attempts that nest to any depth are patient, if passes are whose attempts are. -/
theorem attemptWithin_patient (passes : ∀ depth, Attempt.Patient (attemptWithin pass depth) P G a →
      pass.Patient (attemptWithin pass depth) P G a) (depth : Nat) : Attempt.Patient (attemptWithin pass depth) P G a := by
  induction depth with
  | zero => exact fun goal w _ _ => leaves_exhausted
  | succ depth ih => exact laws.attempt_leaves ih (passes depth ih)

end Account.Lawful

/-- Whatever the passes miss, attempts do not. -/
theorem Run.attemptWithin_within {R : World → World → Prop} [WorldOrder R] {pass : Pass}
    (noted : ∀ {w : World} {schedule : Schedule}, schedule.prerequisites = w.schedule.prerequisites → R w { w with schedule })
    (required : ∀ {w goal other schedule}, w.schedule.addPrerequisite? goal other = some schedule → R w { w with schedule })
    (passes : ∀ attempt : Attempt, (∀ goal, (attempt goal).Within R) → ∀ goal, (pass attempt goal).Within R)
    (depth : Nat) (goal : Goal) : (attemptWithin pass depth goal).Within R fun _ => False := by
  let a : Account := ⟨fun _ _ => True, fun _ _ => True, fun _ _ _ => True, fun _ _ _ => True, fun _ _ => True, fun _ _ => True⟩
  have verdict (goal : Goal) (reached : Bool) (w : World) : a.Verdict goal reached w := by cases reached <;> trivial
  have books : Books (fun _ => True) R := {
    running := fun _ _ => trivial
    unwound := fun grown => WorldOrder.trans (WorldOrder.trans (noted (by rfl)) grown) (noted rfl)
    counted := fun _ _ _ => ⟨trivial, noted rfl⟩
    initialized := fun _ _ _ => ⟨trivial, noted rfl⟩ }
  have laws : a.Lawful (fun _ => True) R := by
    refine ⟨books, ?_, ?_, ?_, ?_, ?_, ?_, ?_, fun _ _ => verdict _ _ _, fun _ _ => ⟨⟨trivial, noted rfl⟩, trivial⟩,
      fun _ _ added => ⟨⟨trivial, required added⟩, trivial⟩, ?_, ?_, ?_, ?_⟩ <;> intros <;> trivial
  have kept {attempt : Attempt} (patient : attempt.Patient (fun _ => True) R a) (goal : Goal) :
      (attempt goal).Within R fun _ => False := fun w =>
    Ends.mono (patient goal w trivial trivial) (fun _ _ reached => reached.1.2) fun _ _ failed => ⟨failed.1.2, .plain failed.2⟩
  refine kept (laws.attemptWithin_patient (fun depth patient goal w _ _ _ => ?_) depth) goal
  refine ((passes _ (fun need => (kept patient need).anyGoals) goal).worlds w).mono (fun reached _ grown => ⟨⟨trivial, grown⟩, ?_⟩)
    fun _ _ grown => ⟨⟨trivial, grown⟩, fun _ _ => trivial⟩
  cases reached
  · trivial
  · exact fun _ => trivial

section Compiling

/-! Compiling everything does nothing but attempt goals. -/

variable {R : World → World → Prop} [WorldOrder R] {goals : Goal → Prop} {attempt : Attempt}
  (kept : ∀ goal, (attempt goal).Within R goals)
include kept

theorem Run.compileClass_within (id : ClassId) : (compileClass attempt id).Within R goals := by
  refine within_bind (within_record id) fun _ => within_ite (within_forM fun stage _ => ?_) (within_pure _)
  exact within_bind (kept _) fun _ => within_ite (within_pure _) (within_plain rfl)

theorem Run.compileClassesWithin_within (steps index : Nat) :
    (compileClassesWithin attempt steps index).Within R goals := by
  induction steps generalizing index with
  | zero => exact within_exhausted
  | succ steps ih =>
    refine within_bind within_arena fun _ => within_ite ?_ (within_pure _)
    exact within_bind (compileClass_within kept _) fun _ => ih _

theorem Run.compileWithin_within (steps index : Nat) : (compileWithin attempt steps index).Within R goals := by
  induction steps generalizing index with
  | zero => exact within_exhausted
  | succ steps ih =>
    have jobs : (attemptJobs attempt).Within R goals :=
      within_bind within_get fun _ => within_forM fun _ _ => within_discard (kept _)
    refine within_bind jobs fun _ => within_bind within_arena fun _ => ?_
    refine within_ite ?_ (within_pure _)
    exact within_bind (compileClassesWithin_within kept _ _) fun _ => ih _

end Compiling

namespace Discipline

variable {P : World → Prop} {G : World → World → Prop} {attempt : Attempt} {depth : Nat}

variable (laws : Discipline P G)
include laws

theorem atClass (grown : G w after) (at_ : w.AtClass) : after.AtClass := by
  unfold World.AtClass
  rwa [laws.stacked grown]

theorem attempt_within (sound : attempt.Sound P G) (goal : Goal) :
    (attempt goal).Within (Kept (fun w => P w ∧ w.AtClass) G) := by
  refine within_of_ends fun w ⟨holds, at_⟩ => Ends.mono (sound goal w holds at_) ?_ ?_
  · rintro _ after ⟨⟨holds, grown⟩, _⟩
    exact ⟨⟨holds, laws.atClass grown at_⟩, grown⟩
  · rintro _ after ⟨holds, grown⟩
    exact ⟨⟨holds, laws.atClass grown at_⟩, grown⟩

/-- Only goals of classes come to wait for others. -/
theorem required_atClass (innermost : w.schedule.current? = some current)
    (added : w.schedule.addPrerequisite? current goal = some schedule) :
    Kept (fun w => P w ∧ w.AtClass) G w { w with schedule } := by
  rintro ⟨holds, at_⟩
  obtain ⟨id, stage, rfl⟩ := at_ current (List.mem_of_head? innermost)
  exact (laws.required w added).also laws.atClass ⟨holds, at_⟩

variable [WorldOrder G]

theorem pursue_within (sound : attempt.Sound P G) (attempted : List Goal) (goal : Goal) :
    (pursue attempt attempted goal).Within (Kept (fun w => P w ∧ w.AtClass) G) :=
  Run.pursue_within (laws.attempt_within sound) (fun _ _ => (laws.concurrent _ _ _).also laws.atClass)
    laws.required_atClass attempted goal

theorem driveWithin_within (sound : attempt.Sound P G) (stale : Option α) {x : Run α}
    (kept : x.Within (Kept (fun w => P w ∧ w.AtClass) G)) (steps : Nat) (attempted : List Goal) :
    (driveWithin attempt stale x steps attempted).Within (Kept (fun w => P w ∧ w.AtClass) G) :=
  Run.driveWithin_within (laws.attempt_within sound) (fun _ _ => (laws.concurrent _ _ _).also laws.atClass)
    laws.required_atClass stale kept steps attempted

/-- Everything that the last stage waits for comes before the stage is marked. -/
theorem checkAllMembers_gives {l : Loader} {id : ClassId} (loader : l.Respects (Kept P G))
    (sound : attempt.Sound P G) (holds : P w) (at_ : w.AtClass)
    (marked : ∀ middle, P middle → G w middle → (mark id .allMembersAdded).Gives P G middle good) :
    (l.checkAllMembers attempt id).Gives P G w good := by
  have stable {w after : World} (grown : G w after) (at_ : w.AtClass) : after.AtClass := laws.atClass grown at_
  let before : Run Unit := do
    let supers ← l.supertypes id
    (supers.filterMap Ty.class?).forM fun above =>
      Engine.requireOrStale ⟨l, attempt⟩ () (l.ensureAllMembers above)
    l.checkConformance id
  have kept : before.Within (Kept (fun w => P w ∧ w.AtClass) G) := by
    refine within_bind ((loader.toTracks.toLoads.steps.supertypes id).also stable) fun supers => ?_
    refine within_bind (within_forM fun above _ => ?_) fun _ => (l.checkConformance_within loader id).also stable
    exact laws.driveWithin_within sound _ ((loader.ensure above _).also stable) _ _
  have first : before.Gives P G w fun _ _ => True :=
    (kept.ends ⟨holds, at_⟩).mono (fun _ _ reached => ⟨⟨reached.1.1, reached.2⟩, trivial⟩)
      (fun _ _ failed => ⟨failed.1.1, failed.2⟩)
  have parts : l.checkAllMembers attempt id = before >>= fun _ => mark id .allMembersAdded := by
    simp only [Loader.checkAllMembers, before, bind_assoc]
  rw [parts]
  exact first.bind fun _ middle holds grown _ => marked middle holds grown

variable {pass : Pass}

/-- Goals of classes are only called for if `all` goals are. -/
def account (all : Prop) : Account where
  calls w goal := (goal.OfClass → all) ∧ w.AtClass
  inside w goal := (goal.OfClass → all) ∧ w.schedule.current? = some goal ∧ ∀ other ∈ w.schedule.running.tail, other.OfClass
  may _ goal _ := all ∧ goal.OfClass
  waits _ goal _ := all ∧ goal.OfClass
  ready w goal := w.reached goal
  stuck _ goal := goal.OfClass

omit laws in
theorem atClass_of_inside (inside : (account all).inside w goal) (ofClass : goal.OfClass) : w.AtClass := by
  obtain ⟨-, innermost, outer⟩ := inside
  obtain ⟨rest, same⟩ := List.head?_eq_some_iff.mp innermost
  rw [same] at outer
  rw [World.AtClass, same]
  exact List.forall_mem_cons.mpr ⟨ofClass, outer⟩

omit [WorldOrder G] in
theorem lawful : (account all).Lawful P G where
  toBooks := laws.toBooks
  calls grown called := ⟨called.1, laws.atClass grown called.2⟩
  inside grown inside := by
    simp only [account, Schedule.current?, laws.stacked grown]
    exact inside
  waits _ waits := waits
  ready grown reached := laws.reached grown reached
  known _ reached := reached
  settled job w := by
    simp only [account, World.reached, Schedule.setInitialized]
    split <;> simp_all
  entered called := ⟨called.1, rfl, called.2⟩
  popped _ verdict := verdict
  concurrent {w goal other} holds allowed := ⟨laws.concurrent goal other w holds, allowed⟩
  required {w goal other schedule} holds allowed added := by
    obtain ⟨id, stage, rfl⟩ := allowed.2
    exact ⟨laws.required w added holds, allowed⟩
  first {w goal earlier} holds inside listed := by
    cases goal with
    | typesInitialized job => simp [laws.free holds] at listed
    | reach id stage => exact ⟨inside.1 ⟨id, stage, rfl⟩, id, stage, rfl⟩
  called inside waits := ⟨fun _ => waits.1, atClass_of_inside inside waits.2⟩
  busy called producing := called.2 _ (by simpa [Schedule.isProducing] using producing)
  through waits _ := waits.2

omit laws [WorldOrder G] in
theorem sound_of_patient (patient : attempt.Patient P G (account True)) : attempt.Sound P G := fun goal w holds at_ =>
  (patient goal w holds ⟨fun _ => trivial, at_⟩).gives.mono fun reached after _ _ verdict isReached => by
    subst isReached
    exact verdict

omit laws [WorldOrder G] in
theorem pass_patient (jobs : pass.JobsSound P G) (classes : all → pass.Sound P G)
    (patient : attempt.Patient P G (account all)) : pass.Patient attempt P G (account all) := by
  intro goal w holds inside prepared
  cases goal with
  | typesInitialized job =>
    refine (jobs.jobs attempt job w holds).mono ?_ ?_
    · rintro _ after ⟨kept, rfl⟩
      exact ⟨kept, fun named => (Goal.not_ofClass job named).elim⟩
    · rintro e after ⟨kept, plain⟩
      exact ⟨kept, fun need missing => by simp [plain] at missing⟩
  | reach id stage =>
    have ofClass : (Goal.reach id stage).OfClass := ⟨id, stage, rfl⟩
    have all := inside.1 ofClass
    have sound : attempt.Sound P G := sound_of_patient (by simpa only [eq_true all] using patient)
    refine ((classes all).classes sound id stage w holds (atClass_of_inside inside ofClass) fun earlier member =>
      prepared (.reach id earlier) (List.mem_map_of_mem member)).leaves.mono (fun reached after _ _ done => ?_)
      (fun _ _ _ _ _ _ _ => ⟨all, ofClass⟩)
    cases reached with
    | true => exact fun _ => done rfl
    | false => exact ofClass

theorem attemptWithin_sound (passes : pass.Sound P G) (depth : Nat) : Attempt.Sound (attemptWithin pass depth) P G :=
  sound_of_patient (laws.lawful.attemptWithin_patient (fun _ => pass_patient passes.toJobsSound fun _ => passes) depth)

theorem attemptWithin_job (passes : pass.JobsSound P G) (depth : Nat) (job : JobId) (holds : P w) (at_ : w.AtClass) :
    (attemptWithin pass depth (.typesInitialized job)).Gives P G w fun _ after => after.reached (.typesInitialized job) := by
  refine (laws.lawful.attemptWithin_patient (fun _ => pass_patient passes False.elim) depth _ w holds
    ⟨fun named => (Goal.not_ofClass job named).elim, at_⟩).gives.mono fun reached after _ _ verdict => ?_
  cases reached with
  | true => exact verdict
  | false => exact absurd verdict (Goal.not_ofClass job)

/-- Every request keeps an invariant that loaders, passes and loading keep. -/
theorem request_within (passes : ((Loader.ofDepth depth).declarationPass).Sound P G)
    (loader : (Loader.ofDepth depth).Respects (Kept (fun w => P w ∧ w.AtClass) G))
    (loads : ∀ source ∈ u.sources, ∀ w, Kept P G w { w with schedule := (w.schedule.load source).2 })
    (request : Request) (belongs : request.Belongs u) :
    (request.run (.ofDepth depth)).Within (Kept (fun w => P w ∧ w.AtClass) G) := by
  have sound : Attempt.Sound (Engine.ofDepth depth).attempt P G := laws.attemptWithin_sound passes depth
  cases request with
  | ask question => exact question.ask_within loader
  | require question => exact laws.driveWithin_within sound none (question.ask_within loader) _ _
  | compileAll => exact compileWithin_within (laws.attempt_within sound) _ _
  | load source =>
    have kept : (loadSource source).Within (Kept P G) := fun w => ends_modifyGet.mpr (loads source belongs w)
    exact within_discard (kept.also laws.atClass)

end Discipline

end ClassUniverse
