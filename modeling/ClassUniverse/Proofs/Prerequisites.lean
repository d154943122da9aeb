import ClassUniverse.Proofs.Forks
import ClassUniverse.Proofs.GoalStack
import ClassUniverse.Proofs.Worklist

/-! Recorded prerequisites never come to form a cycle. The search for a chain of recorded edges is exact, so an edge is
refused just when it would close one; whatever passes do, attempts record edges by such calls alone. -/
namespace ClassUniverse

open Run Relation

namespace Schedule

/-- The goal was recorded to need the other first. -/
def Requires (s : Schedule) (goal other : Goal) : Prop := other ∈ s.prerequisites.getD goal []

instance (s : Schedule) (goal other : Goal) : Decidable (s.Requires goal other) := inferInstanceAs (Decidable (_ ∈ _))

def Acyclic (s : Schedule) : Prop := ∀ goal, ¬ TransGen s.Requires goal goal

variable {s next : Schedule} {goal other target : Goal}

theorem leadsToWithin_sound
    (found : s.leadsToWithin target steps seen pending) : ∃ goal ∈ pending, ReflTransGen s.Requires goal target := by
  induction steps generalizing seen pending with
  | zero => cases found
  | succ steps ih =>
    cases pending with
    | nil => cases found
    | cons first pending =>
      unfold leadsToWithin at found
      split at found
      · rename_i same
        exact ⟨first, List.mem_cons_self, same ▸ .refl⟩
      · split at found
        · obtain ⟨goal, member, path⟩ := ih found
          exact ⟨goal, List.mem_cons_of_mem _ member, path⟩
        · obtain ⟨goal, member, path⟩ := ih found
          rcases List.mem_append.mp member with edge | waiting
          · exact ⟨first, List.mem_cons_self, .head edge path⟩
          · exact ⟨goal, List.mem_cons_of_mem _ waiting, path⟩

/-- What the goals that are not seen yet can make pending. -/
def unseen (s : Schedule) (seen : List Goal) : Nat := Worklist.unseen Prod.fst Prod.snd seen s.prerequisites.entries

theorem unseen_visit {seen : List Goal} (fresh : ¬ seen.contains goal) :
    (s.prerequisites.getD goal []).length + s.unseen (goal :: seen) ≤ s.unseen seen := by
  unfold Assoc.getD
  cases recorded : s.prerequisites.find? goal with
  | none =>
    rw [Option.getD_none, List.length_nil, Nat.zero_add]
    exact Worklist.unseen_mono _ _ (fun _ => List.mem_cons_of_mem goal) _
  | some needs => exact Worklist.unseen_visit Prod.fst Prod.snd fresh (Assoc.mem_of_find? recorded)

theorem unseen_nil_le (s : Schedule) : s.unseen [] ≤ s.edgeEnds.length := by
  unfold unseen edgeEnds
  induction s.prerequisites.entries with
  | nil => exact Nat.zero_le _
  | cons entry rest ih =>
    rw [Worklist.unseen_cons, List.flatMap_cons, List.length_append, List.length_cons]
    simp only [List.contains_nil, Bool.false_eq_true, if_false]
    omega

/-- Goals that recorded edges do not lead out of, the target not among them. -/
structure Shut (s : Schedule) (target : Goal) (within : Goal → Prop) : Prop where
  closed : ∀ goal other, within goal → s.Requires goal other → within other
  apart : ¬ within target

theorem Shut.reaches (shut : s.Shut target within) (inside : within goal)
    (path : ReflTransGen s.Requires goal other) : within other := by
  induction path with
  | refl => exact inside
  | tail _ edge ih => exact shut.closed _ _ ih edge

/-- The invariant of the search: what was seen leads only to what was seen or is pending, and enough steps remain for
everything that can still become pending. -/
theorem shut_of_leadsToWithin {seen pending : List Goal} (budget : pending.length + s.unseen seen < steps)
    (closed : ∀ goal ∈ seen, ∀ other, s.Requires goal other → other ∈ seen ∨ other ∈ pending) (apart : target ∉ seen)
    (missed : s.leadsToWithin target steps seen pending = false) :
    ∃ within, s.Shut target within ∧ ∀ goal, goal ∈ seen ∨ goal ∈ pending → within goal := by
  induction steps generalizing seen pending with
  | zero => omega
  | succ steps ih =>
    cases pending with
    | nil =>
      refine ⟨(· ∈ seen), ⟨fun goal other member edge => ?_, apart⟩, fun goal member => by simpa using member⟩
      simpa using closed goal member other edge
    | cons first pending =>
      unfold leadsToWithin at missed
      split at missed
      · cases missed
      · rename_i differs
        split at missed
        · rename_i visited
          have smaller : pending.length + s.unseen seen < steps := by
            simp only [List.length_cons] at budget
            omega
          obtain ⟨within, shut, covered⟩ := ih smaller (by grind) apart missed
          exact ⟨within, shut, fun other member => covered other (by grind)⟩
        · rename_i fresh
          have smaller : (s.prerequisites.getD first [] ++ pending).length + s.unseen (first :: seen) < steps := by
            have account := s.unseen_visit fresh
            simp only [List.length_append, List.length_cons] at budget ⊢
            omega
          have leads : ∀ goal ∈ first :: seen, ∀ other, s.Requires goal other →
              other ∈ first :: seen ∨ other ∈ s.prerequisites.getD first [] ++ pending := by
            intro goal member other edge
            rcases List.mem_cons.mp member with rfl | old
            · exact .inr (List.mem_append_left _ edge)
            · grind
          obtain ⟨within, shut, covered⟩ := ih smaller leads (by grind) missed
          exact ⟨within, shut, fun other member => covered other (by grind)⟩

theorem leadsTo_iff : s.leadsTo goal target ↔ ReflTransGen s.Requires goal target := by
  constructor
  · intro found
    obtain ⟨start, member, path⟩ := leadsToWithin_sound found
    rwa [List.mem_singleton.mp member] at path
  · intro path
    by_contra missed
    have bound := s.unseen_nil_le
    obtain ⟨within, shut, covered⟩ := shut_of_leadsToWithin (by simp only [List.length_singleton]; omega) (by simp)
      (by simp) (Bool.eq_false_iff.mpr missed)
    exact shut.apart (shut.reaches (covered goal (.inr List.mem_cons_self)) path)

/-- The edge from the goal to the other would close a cycle. -/
def Closes (s : Schedule) (goal other : Goal) : Prop := goal = other ∨ TransGen s.Requires other goal

theorem addPrerequisite?_eq_none : s.addPrerequisite? goal other = none ↔ s.Closes goal other := by
  have refused : (goal = other || s.leadsTo other goal) = true ↔ s.Closes goal other := by
    rw [Bool.or_eq_true, decide_eq_true_iff, leadsTo_iff, reflTransGen_iff_eq_or_transGen, ← or_assoc, or_self, Closes]
  rw [← refused, addPrerequisite?]
  split <;> simp_all

theorem requires_addPrerequisite (added : s.addPrerequisite? goal other = some next) :
    next.Requires waiting earlier ↔ s.Requires waiting earlier ∨ waiting = goal ∧ earlier = other := by
  unfold addPrerequisite? at added
  split at added
  · cases added
  · obtain rfl := Option.some.inj added
    exact getD_noted

/-- A chain uses the new edge or it does not. -/
theorem chain_addPrerequisite (added : s.addPrerequisite? goal other = some next)
    (chain : TransGen next.Requires first last) : TransGen s.Requires first last ∨
      ReflTransGen s.Requires first goal ∧ ReflTransGen s.Requires other last := by
  induction chain with
  | single edge =>
    rcases (requires_addPrerequisite added).mp edge with old | ⟨rfl, rfl⟩
    · exact .inl (.single old)
    · exact .inr ⟨.refl, .refl⟩
  | tail _ edge ih =>
    rcases (requires_addPrerequisite added).mp edge with old | ⟨rfl, rfl⟩
    · exact ih.imp (·.tail old) fun both => ⟨both.1, both.2.tail old⟩
    · exact .inr ⟨ih.elim TransGen.to_reflTransGen And.left, .refl⟩

theorem Acyclic.addPrerequisite (acyclic : s.Acyclic) (added : s.addPrerequisite? goal other = some next) :
    next.Acyclic := by
  intro start cycle
  have open_ : ¬ s.Closes goal other := by
    rw [← addPrerequisite?_eq_none, added]
    nofun
  rcases chain_addPrerequisite added cycle with old | ⟨before, after⟩
  · exact acyclic start old
  · exact open_ (reflTransGen_iff_eq_or_transGen.mp (after.trans before))

theorem Acyclic.of_same (acyclic : s.Acyclic) (same : next.prerequisites = s.prerequisites) : next.Acyclic := by
  unfold Acyclic Requires at *
  rwa [same]

/-- A call that is accepted makes the later edges out of the earlier ones. -/
def Gains (edges later : Assoc Goal (List Goal)) : Prop := ∃ (s next : Schedule) (goal other : Goal),
  s.addPrerequisite? goal other = some next ∧ s.prerequisites = edges ∧ next.prerequisites = later

end Schedule

/-- All edges that were recorded meanwhile were recorded by calls that were accepted, one after another. -/
def World.Records (w after : World) : Prop :=
  ReflTransGen Schedule.Gains w.schedule.prerequisites after.schedule.prerequisites

instance : WorldOrder World.Records where
  refl _ := .refl
  trans first second := ReflTransGen.trans first second

variable {w after : World} {goal other : Goal}

theorem World.Records.of_same (same : after.schedule.prerequisites = w.schedule.prerequisites) : w.Records after := by
  rw [World.Records, same]

theorem World.Records.of_added {schedule : Schedule} (added : w.schedule.addPrerequisite? goal other = some schedule) :
    w.Records { w with schedule } := .single ⟨w.schedule, schedule, goal, other, added, rfl, rfl⟩

theorem World.Records.acyclic (records : w.Records after) (acyclic : w.schedule.Acyclic) : after.schedule.Acyclic := by
  have kept {edges later : Assoc Goal (List Goal)} (gained : ReflTransGen Schedule.Gains edges later)
      (acyclic : ∀ s : Schedule, s.prerequisites = edges → s.Acyclic) (s : Schedule) (same : s.prerequisites = later) :
      s.Acyclic := by
    induction gained generalizing s with
    | refl => exact acyclic s same
    | tail _ step ih =>
      obtain ⟨before, next, goal, other, added, rfl, rfl⟩ := step
      exact ((ih before rfl).addPrerequisite added).of_same same
  exact kept records (fun s same => acyclic.of_same same) after.schedule rfl

namespace Run

theorem addPrerequisite_refused (closes : w.schedule.Closes goal other) : (addPrerequisite goal other).on w =
    some (.error (.cyclicDependency (.mutualRequirement goal other)), w) := by
  rw [addPrerequisite, on_get_bind, Schedule.addPrerequisite?_eq_none.mpr closes]
  rfl

theorem addPrerequisite_accepted (closes : ¬ w.schedule.Closes goal other) : ∃ schedule,
    w.schedule.addPrerequisite? goal other = some schedule ∧
      (addPrerequisite goal other).on w = some (.ok (), { w with schedule }) := by
  rw [← Schedule.addPrerequisite?_eq_none] at closes
  obtain ⟨schedule, added⟩ := Option.ne_none_iff_exists'.mp closes
  refine ⟨schedule, added, ?_⟩
  rw [addPrerequisite, on_get_bind, added]
  rfl

theorem driveWithin_records (kept : ∀ goal, (attempt goal).Within World.Records) {x : Run α}
    (records : x.Within World.Records) (stale : Option α) (steps : Nat) (attempted : List Goal) :
    (driveWithin attempt stale x steps attempted).Within World.Records :=
  driveWithin_within kept (fun _ _ => .of_same rfl) (fun _ added => .of_added added) stale records steps attempted

end Run

/-- The pass records edges by calls alone, given attempts that do. -/
def Pass.Records (pass : Pass) : Prop := ∀ attempt : Attempt, (∀ goal, (attempt goal).Within World.Records) →
  ∀ goal, (pass attempt goal).Within World.Records

/-! ## Runners -/

theorem World.OnlyLoads.records (loads : w.OnlyLoads after) : w.Records after := by
  obtain ⟨jobs, same⟩ := loads
  exact .of_same (by rw [same])

theorem Task.run_records {attempt : Attempt} (l : Loader) (kept : ∀ goal, (attempt goal).Within World.Records)
    (task : Task α) : (task.run ⟨l, attempt⟩ (pure ())).Within World.Records := by
  have unobserved {β : Type} {x : Run β} (kept : x.Within World.Records) :
      (x.afterwards (pure ())).Within World.Records := by rwa [afterwards_pure]
  induction task with
  | own x aside => exact aside.weaken fun _ _ loads => loads.records
  | addPrerequisite goal other => exact addPrerequisite_within fun added => .of_added added
  | addConcurrent goal other => exact within_modify fun _ => .of_same rfl
  | attempt goal => exact unobserved (kept goal)
  | require task ih => exact unobserved (driveWithin_records kept ih none _ _)
  | requireOrStale stale task ih => exact unobserved (driveWithin_records kept ih (some stale) _ _)
  | bind task next ih further => exact within_bind ih further
  | caught task ih => exact within_outcome ih

theorem Script.pass_records (script : Script) (depth : Nat) : (script.pass (.ofDepth depth)).Records := by
  rw [script.pass_eq]
  exact fun _ kept goal => (script.runner depth goal).run_records _ kept

/-- A prerequisite is refused, and nothing changes, exactly if the goal is its own prerequisite or recorded edges lead
back to it; so edges that are recorded one after another form no cycle. Attempts and what is required record edges in
no other way, whatever passes are run. -/
theorem prerequisites_stay_acyclic :
    (∀ (w : World) (goal other : Goal),
      (w.schedule.Closes goal other →
        (addPrerequisite goal other).on w = some (.error (.cyclicDependency (.mutualRequirement goal other)), w)) ∧
      (¬ w.schedule.Closes goal other → ∃ schedule : Schedule,
        (addPrerequisite goal other).on w = some (.ok (), { w with schedule }) ∧
        ∀ waiting earlier, schedule.Requires waiting earlier ↔
          w.schedule.Requires waiting earlier ∨ waiting = goal ∧ earlier = other)) ∧
    (∀ fresh w : World, fresh.schedule.prerequisites = .empty → fresh.Records w → w.schedule.Acyclic) ∧
    ∀ pass : Pass, pass.Records → ∀ (l : Loader) (depth : Nat), let engine : Engine := ⟨l, attemptWithin pass depth⟩
      (∀ goal, (engine.attempt goal).Within World.Records) ∧ engine.compileAll.Within World.Records ∧
      ∀ (α : Type) (x : Run α), x.Within World.Records →
        (engine.require x).Within World.Records ∧ ∀ stale, (engine.requireOrStale stale x).Within World.Records := by
  refine ⟨fun w goal other => ⟨addPrerequisite_refused, fun closes => ?_⟩, fun fresh w none records => ?_,
    fun pass passes l depth => ?_⟩
  · obtain ⟨schedule, added, ran⟩ := addPrerequisite_accepted closes
    exact ⟨schedule, ran, fun _ _ => Schedule.requires_addPrerequisite added⟩
  · refine records.acyclic fun goal cycle => ?_
    obtain ⟨other, edge, -⟩ := TransGen.head'_iff.mp cycle
    rw [Schedule.Requires, none] at edge
    cases edge
  · have attempts (goal : Goal) : (attemptWithin pass depth goal).Within World.Records :=
      (attemptWithin_within (fun same => .of_same same) (fun added => .of_added added) passes depth goal).anyGoals
    refine ⟨attempts, compileWithin_within attempts _ _, fun α x records => ⟨?_, fun stale => ?_⟩⟩
    · exact driveWithin_records attempts records _ _ _
    · exact driveWithin_records attempts records _ _ _

/-- The first job asks for the second, which requires the third, which looks at the first while that is being run. -/
theorem prerequisites_stay_acyclic_jobs :
    let job (index : Nat) : Goal := .typesInitialized ⟨index⟩
    let script : Script := .ofList [(job 0, [.need (job 1)]), (job 1, [.require (job 2)]), (job 2, [.peek (job 0)])]
    ∃ after, ((Engine.scripted script 20).attempt (job 0)).on {} = some (.ok true, after) ∧
      after.schedule.Requires (job 0) (job 1) ∧ after.schedule.Requires (job 1) (job 2) ∧ after.schedule.Acyclic ∧
      (addPrerequisite (job 2) (job 0)).on after =
        some (.error (.cyclicDependency (.mutualRequirement (job 2) (job 0))), after) := by
  intro job script
  obtain ⟨after, ran, first, second⟩ : ∃ after, ((Engine.scripted script 20).attempt (job 0)).on {} =
      some (.ok true, after) ∧ after.schedule.Requires (job 0) (job 1) ∧ after.schedule.Requires (job 1) (job 2) := by
    decide +kernel
  obtain ⟨exact_, acyclic, attempts⟩ := prerequisites_stay_acyclic
  have records := ((attempts _ (script.pass_records 20) (Loader.ofDepth 20) 20).1 (job 0)).left ran
  exact ⟨after, ran, first, second, acyclic {} after rfl records,
    (exact_ after (job 2) (job 0)).1 (.inr (.tail (.single first) second))⟩

end ClassUniverse
