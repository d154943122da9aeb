import ClassUniverse.Proofs.HaltingAttempts

/-! How often scripts are performed for a goal. Each time is counted and noted, and nothing is noted once the count has
come to the limit. -/
namespace ClassUniverse

open Run

/-! ## Texts of goals -/

/-- The first letters tell the texts of jobs and of stages apart. -/
def Goal.letters : Goal → List Char
  | .typesInitialized _ => ['T', 'y']
  | .reach _ .supertypesResolved => ['S', 'u']
  | .reach _ .membersAdded => ['M', 'e']
  | .reach _ .signaturesResolved => ['S', 'i']
  | .reach _ .allMembersAdded => ['A', 'l']

theorem take_append_toList {start rest : String} (long : n ≤ start.toList.length) :
    (start ++ rest).toList.take n = start.toList.take n := by
  rw [String.toList_append, List.take_append_of_le_length long]

theorem Goal.take_text (goal : Goal) : goal.text.toList.take 2 = goal.letters := by
  cases goal with
  | typesInitialized job =>
    change ("TypesInitialized(" ++ job.text ++ ")").toList.take 2 = _
    rw [String.append_assoc, take_append_toList (by decide)]
    rfl
  | reach id stage =>
    change (stage.text ++ "(" ++ id.text ++ ")").toList.take 2 = _
    rw [String.append_assoc, String.append_assoc, take_append_toList (by cases stage <;> decide)]
    cases stage <;> rfl

theorem Goal.text_injective {goal other : Goal} (same : goal.text = other.text) : goal = other := by
  have letters : goal.letters = other.letters := by rw [← take_text, ← take_text, same]
  have numbers {m n : Nat} (same : m.repr = n.repr) : m = n := by
    rw [← Nat.ofDigitChars_toDigits (b := 10) (n := m) (by decide) (by decide), String.ofList_injective same,
      Nat.ofDigitChars_toDigits (by decide) (by decide)]
  cases goal with
  | typesInitialized job =>
    cases other with
    | typesInitialized other =>
      change "TypesInitialized(" ++ ("job" ++ job.index.repr) ++ ")" =
        "TypesInitialized(" ++ ("job" ++ other.index.repr) ++ ")" at same
      rw [String.append_left_inj, String.append_right_inj, String.append_right_inj] at same
      exact congrArg (Goal.typesInitialized ⟨·⟩) (numbers same)
    | reach id stage => cases stage <;> cases letters
  | reach id stage =>
    cases other with
    | typesInitialized job => cases stage <;> cases letters
    | reach other later =>
      obtain rfl : stage = later := by cases stage <;> cases later <;> first | rfl | cases letters
      change stage.text ++ "(" ++ ("#" ++ id.index.repr) ++ ")" = stage.text ++ "(" ++ ("#" ++ other.index.repr) ++ ")" at same
      rw [String.append_left_inj, String.append_right_inj, String.append_right_inj] at same
      exact congrArg (Goal.reach ⟨·⟩ stage) (numbers same)

/-! ## Counts and notes -/

/-- How often a script was performed for the goal, by the notes. -/
def World.invocations (w : World) (goal : Goal) : Nat := w.notes.count ("run " ++ goal.text)

/-- Runs are counted, and no run that was not counted as one of those allowed is noted. -/
structure World.Tallied (w after : World) : Prop where
  counts : w.Counts after
  noted : ∀ goal, after.invocations goal + min maxRuns (w.schedule.runsOf goal) ≤
    w.invocations goal + min maxRuns (after.schedule.runsOf goal)

instance : WorldOrder World.Tallied where
  refl w := ⟨WorldOrder.refl w, fun _ => Nat.le_refl _⟩
  trans first second := by
    refine ⟨WorldOrder.trans first.counts second.counts, fun goal => ?_⟩
    have earlier := first.noted goal
    have later := second.noted goal
    omega

namespace World

variable {w : World}

theorem Tallied.of_same (runs : after.schedule.runs = w.schedule.runs) (notes : after.notes = w.notes) :
    w.Tallied after := by
  have same (goal : Goal) : after.schedule.runsOf goal = w.schedule.runsOf goal := by
    rw [Schedule.runsOf, runs, Schedule.runsOf]
  refine ⟨fun goal => (same goal).ge, fun goal => ?_⟩
  rw [same, invocations, notes, invocations]

theorem Tallied.limited (tallied : w.Tallied after) (goal : Goal) :
    after.invocations goal ≤ w.invocations goal + maxRuns := by
  have noted := tallied.noted goal
  omega

theorem tallied_note (other : text.toList.take 4 ≠ "run ".toList) :
    w.Tallied { w with notes := w.notes ++ [text] } := by
  refine ⟨fun _ => Nat.le_refl _, fun goal => ?_⟩
  have apart : text ≠ "run " ++ goal.text := by
    rintro rfl
    exact other (take_append_toList (by decide))
  simp [invocations, apart]

theorem counts_countRun (w : World) (goal : Goal) (notes : List String) :
    w.Counts { w with schedule := w.schedule.countRun goal, notes } := by
  intro other
  rw [Schedule.runsOf_countRun]
  split
  · rename_i same
    rw [same]
    omega
  · exact Nat.le_refl _

theorem tallied_count (goal : Goal) : w.Tallied { w with schedule := w.schedule.countRun goal } := by
  refine ⟨w.counts_countRun goal w.notes, fun other => ?_⟩
  have more := w.counts_countRun goal w.notes other
  dsimp only [invocations] at more ⊢
  omega

theorem tallied_run (allowed : w.schedule.runsOf goal < maxRuns) :
    w.Tallied { w with schedule := w.schedule.countRun goal, notes := w.notes ++ ["run " ++ goal.text] } := by
  have count (other : Goal) : (w.notes ++ ["run " ++ goal.text]).count ("run " ++ other.text) =
      w.invocations other + if other = goal then 1 else 0 := by
    have same : "run " ++ goal.text = "run " ++ other.text ↔ other = goal := by
      rw [String.append_right_inj]
      exact ⟨fun same => (Goal.text_injective same).symm, fun same => same ▸ rfl⟩
    rw [List.count_append, List.count_singleton, invocations]
    simp only [beq_iff_eq, same]
  refine ⟨w.counts_countRun goal _, fun other => ?_⟩
  change (w.notes ++ ["run " ++ goal.text]).count ("run " ++ other.text) + _ ≤
    _ + min maxRuns ((w.schedule.countRun goal).runsOf other)
  rw [count, Schedule.runsOf_countRun]
  split
  · rename_i same
    rw [same]
    omega
  · omega

end World

end ClassUniverse
