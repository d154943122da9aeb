import ClassUniverse.Proofs.Scheduled
import Mathlib.Data.List.Chain
import Mathlib.Logic.Relation

/-! Goals that wait for one another. A goal is only run because the goal around it waits for it, so the goals being
run form a chain, and one that is missed although it is being run closes a cycle. Attempts that do not succeed
therefore lead to a cycle of goals, and nothing else is reported as missing. -/
namespace ClassUniverse

open Run Relation

theorem Error.missingGoal?_eq_some {e : Error} : e.missingGoal? = some goal ↔ e = .missingDependency goal := by
  cases e <;> simp [missingGoal?]

namespace Schedule

/-- The other goal comes first, or completes in the same pass. -/
def Waits (s : Schedule) (goal other : Goal) : Prop :=
  other ∈ s.prerequisitesOf goal ∨ other ∈ s.concurrentWith goal

/-- The goal waits, perhaps through others, for one that waits for itself. -/
def Circular (s : Schedule) (goal : Goal) : Prop :=
  ∃ other, ReflTransGen s.Waits goal other ∧ TransGen s.Waits other other

/-- The innermost goal, if there is one, waits for this one. -/
def Calls (s : Schedule) (goal : Goal) : Prop := ∀ current ∈ s.current?, s.Waits current goal

/-- Each goal being run is waited for by the one around it. -/
def Chained (s : Schedule) : Prop := s.running.IsChain fun inner outer => s.Waits outer inner

variable {s next : Schedule} {goal other : Goal}

theorem Chained.push (chained : s.Chained) (calls : s.Calls goal) :
    ({ s with running := goal :: s.running } : Schedule).Chained := List.isChain_cons.mpr ⟨calls, chained⟩

/-- The goals further out come to wait for the innermost one. -/
theorem Chained.reaches (chained : s.Chained) (inside : s.isProducing goal) (innermost : s.current? = some other) :
    ReflTransGen s.Waits goal other := by
  have all (running : List Goal) (chain : running.IsChain fun inner outer => s.Waits outer inner)
      (inside : goal ∈ running) {other : Goal} (innermost : running.head? = some other) :
      ReflTransGen s.Waits goal other := by
    induction running generalizing other with
    | nil => cases inside
    | cons inner around ih =>
      obtain rfl : inner = other := Option.some.inj innermost
      obtain ⟨called, chain⟩ := List.isChain_cons.mp chain
      rcases List.mem_cons.mp inside with rfl | inside
      · exact .refl
      · cases around with
        | nil => cases inside
        | cons outer further => exact (ih chain inside rfl).tail (called outer rfl)
  exact all s.running chained (by simpa [isProducing] using inside) innermost

/-- A goal that is being run and that the innermost goal waits for waits for itself. -/
theorem Chained.circular (chained : s.Chained) (inside : s.isProducing goal) (innermost : s.current? = some other)
    (waits : s.Waits other goal) : s.Circular goal :=
  ⟨goal, .refl, .tail' (chained.reaches inside innermost) waits⟩

/-- All that waited still waits, and the same goals are being run. -/
structure Extends (s next : Schedule) : Prop where
  running : next.running = s.running
  waits : ∀ goal other, s.Waits goal other → next.Waits goal other

namespace Extends

theorem refl (s : Schedule) : s.Extends s := ⟨rfl, fun _ _ waits => waits⟩

theorem trans (first : s.Extends next) (second : next.Extends last) : s.Extends last :=
  ⟨second.running.trans first.running, fun goal other waits => second.waits goal other (first.waits goal other waits)⟩

theorem current (extended : s.Extends next) : next.current? = s.current? := congrArg List.head? extended.running

theorem calls (extended : s.Extends next) (calls : s.Calls goal) : next.Calls goal := by
  intro current innermost
  rw [extended.current] at innermost
  exact extended.waits current goal (calls current innermost)

theorem chained (extended : s.Extends next) (chained : s.Chained) : next.Chained := by
  unfold Chained at *
  rw [extended.running]
  exact chained.imp fun inner outer waits => extended.waits outer inner waits

theorem unwound (extended : ({ s with running := goal :: s.running } : Schedule).Extends next) :
    s.Extends { next with running := next.running.tail } :=
  ⟨by rw [extended.running]; rfl, extended.waits⟩

end Extends

theorem mem_noted {known : List Goal} :
    goal ∈ (if known.contains noted then known else known ++ [noted]) ↔ goal ∈ known ∨ goal = noted := by
  split
  · rename_i listed
    refine ⟨.inl, fun either => either.elim id ?_⟩
    rintro rfl
    simpa using listed
  · simp

theorem getD_noted {recorded : Assoc Goal (List Goal)} :
    earlier ∈ (recorded.insert goal (if (recorded.getD goal []).contains noted then recorded.getD goal []
      else recorded.getD goal [] ++ [noted])).getD waiting [] ↔
      earlier ∈ recorded.getD waiting [] ∨ waiting = goal ∧ earlier = noted := by
  rw [Assoc.getD, Assoc.find?_insert]
  by_cases same : waiting = goal
  · subst same
    rw [if_pos rfl, Option.getD_some, mem_noted]
    simp
  · rw [if_neg same]
    simp [same, Assoc.getD]

theorem waits_addConcurrent :
    (s.addConcurrent goal other).Waits waiting earlier ↔ s.Waits waiting earlier ∨ waiting = goal ∧ earlier = other := by
  have listed : earlier ∈ (s.addConcurrent goal other).concurrentWith waiting ↔
      earlier ∈ s.concurrentWith waiting ∨ waiting = goal ∧ earlier = other := getD_noted
  unfold Waits
  rw [listed, ← or_assoc]
  rfl

theorem waits_addPrerequisite (added : s.addPrerequisite? goal other = some next) :
    next.Waits waiting earlier ↔ s.Waits waiting earlier ∨ waiting = goal ∧ earlier = other := by
  unfold addPrerequisite? at added
  split at added
  · cases added
  · obtain rfl := Option.some.inj added
    simp only [Waits, prerequisitesOf, concurrentWith, List.mem_append, getD_noted]
    tauto

theorem Extends.addConcurrent (s : Schedule) (goal other : Goal) : s.Extends (s.addConcurrent goal other) :=
  ⟨rfl, fun _ _ waits => waits_addConcurrent.mpr (.inl waits)⟩

theorem Extends.addPrerequisite (added : s.addPrerequisite? goal other = some next) : s.Extends next := by
  refine ⟨?_, fun _ _ waits => (waits_addPrerequisite added).mpr (.inl waits)⟩
  unfold addPrerequisite? at added
  split at added
  · cases added
  · obtain rfl := Option.some.inj added
    rfl

end Schedule

/-- Which goals may come to wait for which, and what it is for a goal to be ready. -/
structure Regime (P : World → Prop) (G : World → World → Prop) (may : World → Goal → Goal → Prop)
    (ready : World → Goal → Prop) : Prop extends Books P G where
  extended : ∀ {w after}, G w after → w.schedule.Extends after.schedule
  known : ∀ {w goal}, P w → w.reached goal → ready w goal
  lasting : ∀ {w after goal}, G w after → ready w goal → ready after goal
  readied : ∀ {w goal} goals, ready w goal → ready { w with schedule := { w.schedule with running := goals } } goal
  concurrent : ∀ {w goal other}, may w goal other →
    Kept P G w { w with schedule := w.schedule.addConcurrent goal other }
  required : ∀ {w goal other schedule}, may w goal other → w.schedule.addPrerequisite? goal other = some schedule →
    Kept P G w { w with schedule }
  settled : ∀ job (w : World), ready { w with schedule := w.schedule.setInitialized job } (.typesInitialized job)

/-- A goal is called for by the one that waits for it, and one that cannot be made ready is caught in a cycle. -/
def Account.waiting (may : World → Goal → Goal → Prop) (ready : World → Goal → Prop) : Account where
  calls w goal := w.schedule.Chained ∧ w.schedule.Calls goal
  inside w goal := w.schedule.Chained ∧ w.schedule.current? = some goal
  may := may
  waits w := w.schedule.Waits
  ready := ready
  stuck w := w.schedule.Circular

namespace Regime

variable {P : World → Prop} {G : World → World → Prop} {may : World → Goal → Goal → Prop}
  {ready : World → Goal → Prop} {attempt : Attempt} {w : World} {goal other : Goal}

variable (laws : Regime P G may ready)
include laws

theorem lawful : (Account.waiting may ready).Lawful P G where
  __ := laws
  calls grown called := ⟨(laws.extended grown).chained called.1, (laws.extended grown).calls called.2⟩
  inside grown inside := ⟨(laws.extended grown).chained inside.1, (laws.extended grown).current.trans inside.2⟩
  waits grown := (laws.extended grown).waits _ _
  ready := laws.lasting
  entered called := ⟨called.1.push called.2, rfl⟩
  popped {_ _ reached} goals verdict := by
    cases reached with
    | true => exact laws.readied goals verdict
    | false => exact verdict
  concurrent holds allowed := ⟨laws.concurrent allowed holds, Schedule.waits_addConcurrent.mpr (.inr ⟨rfl, rfl⟩)⟩
  required holds allowed added :=
    ⟨laws.required allowed added holds, (Schedule.waits_addPrerequisite added).mpr (.inr ⟨rfl, rfl⟩)⟩
  first _ _ listed := .inl listed
  called inside waits := ⟨inside.1, fun current known => Option.some.inj (inside.2.symm.trans known) ▸ waits⟩
  busy {w _} called producing := by
    cases innermost : w.schedule.current? with
    | none => simp_all [Schedule.isProducing, Schedule.current?]
    | some current => exact called.1.circular producing innermost (called.2 current innermost)
  through waits circular := circular.imp fun _ held => ⟨.head waits held.1, held.2⟩

/-- What is missed is made ready, unless it is being run already or cannot be made ready at all. -/
theorem pursue_leaves [WorldOrder G] (patient : attempt.Patient P G (.waiting may ready)) (attempted : List Goal) (holds : P w)
    (chained : w.schedule.Chained) (allowed : ∀ current ∈ w.schedule.current?, may w current goal) :
    (pursue attempt attempted goal).Leaves P G w
      (fun going after => going = false → after.schedule.isProducing goal ∧ after.schedule.Circular goal)
      fun e after => e.AsksFor fun need => need = goal ∧ after.schedule.Circular goal := by
  have tried {w : World} (holds : P w) (chained : w.schedule.Chained) (calls : w.schedule.Calls goal) : (do
      if ← attempt goal then return true else throw (.missingDependency goal) : Run Bool).Leaves P G w
        (fun going after => going = false → after.schedule.isProducing goal ∧ after.schedule.Circular goal)
        fun e after => e.AsksFor fun need => need = goal ∧ after.schedule.Circular goal := by
    refine ((patient goal w holds ⟨chained, calls⟩).mono (fun _ _ _ _ verdict => verdict) ?_).bind
      fun reached middle holds _ verdict => ?_
    · intro e _ _ _ given need missing
      rw [given] at missing
      cases missing
    · cases reached with
      | true => exact leaves_pure holds (by simp)
      | false => exact leaves_throw holds fun need missing => ⟨(Option.some.inj missing).symm, verdict⟩
  refine leaves_get.mpr (leaves_ite (fun producing => ?_) fun _ => leaves_ite (fun _ => ?_) fun _ => ?_)
  · cases innermost : w.schedule.current? with
    | none => simp_all [Schedule.isProducing, Schedule.current?]
    | some current =>
      obtain ⟨⟨holds, grown⟩, waits⟩ := laws.lawful.concurrent holds (allowed current innermost)
      refine ends_bind.mpr (ends_modifySchedule.mpr (ends_pure.mpr ⟨⟨holds, grown⟩, fun _ => ⟨producing, ?_⟩⟩))
      exact ((laws.extended grown).chained chained).circular producing innermost waits
  · exact leaves_throw holds (by rintro _ ⟨⟩)
  · cases innermost : w.schedule.current? with
    | none => exact tried holds chained fun current known => by simp [innermost] at known
    | some current =>
      refine ((laws.lawful.addPrerequisite_leaves holds (allowed current innermost)).mono (fun _ _ _ _ waits => waits) ?_).bind
        fun _ middle holds grown waits => ?_
      · intro e _ _ _ given need missing
        rw [given] at missing
        cases missing
      · have extended := laws.extended grown
        refine tried holds (extended.chained chained) fun other known => ?_
        rw [extended.current, innermost] at known
        exact Option.some.inj known ▸ waits

/-- Repeating a computation until nothing is missed that can be made ready. A stale value only stands in for a goal
that is being run, and what is still missed in the end is caught in a cycle. -/
theorem driveWithin_leaves [WorldOrder G] (patient : attempt.Patient P G (.waiting may ready)) {x : Run α}
    {missed : World → Goal → Prop} (lasting : ∀ {w after need}, G w after → missed w need → missed after need)
    (allowed : ∀ {w need}, G start w → missed w need → ∀ current ∈ w.schedule.current?, may w current need)
    (asks : ∀ w, P w → G start w → x.Leaves P G w good fun e after => e.AsksFor (missed after))
    (stale : Option α) (steps : Nat) (attempted : List Goal) (holds : P w) (chained : w.schedule.Chained)
    (since : G start w) : (driveWithin attempt stale x steps attempted).Leaves P G w
      (fun a after => good a after ∨ stale = some a ∧ ∃ need, after.schedule.isProducing need ∧ missed after need)
      fun e after => e.AsksFor fun need => missed after need ∧ after.schedule.Circular need := by
  induction steps generalizing w attempted with
  | zero => exact leaves_exhausted
  | succ steps ih =>
    refine ((asks w holds since).outcome.mono (fun _ _ _ _ known => known) (fun _ _ _ _ => False.elim)).bind
      fun result middle holds grown known => ?_
    have since := WorldOrder.trans since grown
    have chained := (laws.extended grown).chained chained
    split
    · exact leaves_pure holds (.inl (known.1 _ rfl))
    · rename_i need
      have missing : missed middle need := known.2 _ rfl need rfl
      refine ((laws.pursue_leaves patient attempted holds chained (allowed since missing)).mono
        (fun _ after _ further stuck => And.intro (lasting further missing) stuck) ?_).bind
        fun going last holds further stuck => ?_
      · rintro e after _ further found other same
        obtain ⟨rfl, circular⟩ := found other same
        exact ⟨lasting further missing, circular⟩
      · cases going with
        | true => exact ih _ holds ((laws.extended further).chained chained) (WorldOrder.trans since further)
        | false =>
          obtain ⟨producing, circular⟩ := stuck.2 rfl
          cases stale with
          | some a => exact leaves_pure holds (.inr ⟨rfl, need, producing, stuck.1⟩)
          | none =>
            refine leaves_throw holds fun other same => ?_
            obtain rfl := Option.some.inj same
            exact ⟨stuck.1, circular⟩
    · rename_i e other
      exact leaves_throw holds fun need missing => absurd (Error.missingGoal?_eq_some.mp missing) (other need)

end Regime

end ClassUniverse
