import ClassUniverse.Proofs.HaltingAttempts
import ClassUniverse.Proofs.SourceSessions

/-! Sessions over sources answer. However the sources refer to one another, a deep enough engine comes to an
answer or an error, wherever the session has got to. -/
namespace ClassUniverse

open Run

/-- Views of a class that wait for a stage of it. -/
inductive Loader.Gated : {α : Type} → (Loader → Run α) → Prop where
  | ensure (id : ClassId) (stage : Stage) : Gated fun l => l.ensure id stage
  | superType (id : ClassId) : Gated fun l => l.superType id
  | interfaces (id : ClassId) : Gated fun l => l.interfaces id
  | supertypes (id : ClassId) : Gated fun l => l.supertypes id
  | memberClasses (id : ClassId) : Gated fun l => l.memberClasses id
  | memberClassNamed (id : ClassId) (name : String) : Gated fun l => l.memberClassNamed id name
  | fields (id : ClassId) : Gated fun l => l.fields id
  | fieldNamed (id : ClassId) (name : String) : Gated fun l => l.fieldNamed id name
  | methods (id : ClassId) : Gated fun l => l.methods id
  | methodsNamed (id : ClassId) (name : String) : Gated fun l => l.methodsNamed id name
  | constructors (id : ClassId) : Gated fun l => l.constructors id
  | ensureAllMembers (id : ClassId) : Gated fun l => l.ensureAllMembers id

variable {u : Universe} {b : Budget u} {l : Loader} {depth : Nat} {w : World}

theorem Loader.Gated.calm (gated : Gated access) (ready : l.Ready u limit) : (access l).Calm u limit := by
  cases gated with
  | ensure id stage => exact ready.ensure id stage
  | superType id => exact ready.steps.superType id
  | interfaces id => exact ready.steps.interfaces id
  | supertypes id => exact ready.steps.supertypes id
  | memberClasses id => exact ready.steps.view id _ (·.members)
  | memberClassNamed id name => exact ready.steps.memberClassNamed id name
  | fields id => exact ready.steps.view id _ (·.fields)
  | fieldNamed id name => exact ready.steps.fieldNamed id name
  | methods id => exact ready.steps.methods id
  | methodsNamed id name => exact ready.steps.methodsNamed id name
  | constructors id => exact ready.steps.view id _ (·.constructors)
  | ensureAllMembers id => exact ready.ensure id _

/-- Deep enough for all walks, goals and classes of the budget. -/
def Budget.enough (b : Budget u) : Nat := b.limit * u.width + b.limit + b.goals.length + 4

theorem Loader.affords_ofDepth (deep : b.enough ≤ depth) : (Loader.ofDepth depth).Affords b := by
  unfold Budget.enough at deep
  refine ⟨ready_ofDepth (by omega), ?_⟩
  obtain ⟨depth, rfl⟩ : ∃ smaller, depth = smaller + 1 := ⟨depth - 1, by omega⟩
  change _ < depth
  omega

theorem Engine.attempt_halts (deep : b.enough ≤ depth) : (Engine.ofDepth depth).attempt.Halts b [] := by
  refine attemptWithin_halts (Loader.affords_ofDepth deep) ?_
  rw [remaining_nil]
  unfold Budget.enough at deep
  omega

theorem Engine.require_bounded (deep : b.enough ≤ depth) {x : Run α} (calm : x.Calm u b.limit) :
    ((Engine.ofDepth depth).require x).Bounded b [] := by
  refine b.supervision.driveWithin_orderly (attempt_halts deep) nofun none calm.addsNone.bounded ?_
  rw [remaining_nil]
  exact (Loader.affords_ofDepth deep).ample

theorem Engine.compileAll_bounded (deep : b.enough ≤ depth) : (Engine.ofDepth depth).compileAll.Bounded b [] := by
  refine compileWithin_orderly (attempt_halts deep) (fun _ _ _ _ => trivial) (fun _ holds => holds.limited.size)
    (fun _ _ _ => trivial) (Nat.zero_le _) ?_
  have ample := (Loader.affords_ofDepth deep).ready.ample
  change _ < (Loader.ofDepth depth).depth + 0
  omega

theorem Run.Orderly.answers {x : Run α} (bounded : x.Bounded b []) (holds : w.InBudget b []) :
    ∃ result after, x.on w = some (result, after) := by
  obtain ⟨⟨result, after⟩, ran⟩ := Option.isSome_iff_exists.mp (bounded w holds).halts
  exact ⟨result, after, ran⟩

/-- Whatever the sources say and whatever was asked before: from some depth on, looking for a class, reading a
class while the goals that are missing are attempted, and compiling everything all come to an answer or an
error. -/
theorem sources_always_answer {config : Config} (sourcesOnly : u.classFiles = []) (reached : Reachable config u w) :
    ∃ enough, ∀ depth, enough ≤ depth →
      (∀ name, ∃ result after, ((Engine.ofDepth depth).classNamed name).on w = some (result, after)) ∧
      (∀ {α : Type} {access : Loader → Run α}, Loader.Gated access → ∃ result after,
        ((Engine.ofDepth depth).require (access (Loader.ofDepth depth))).on w = some (result, after)) ∧
      ∃ result after, (Engine.ofDepth depth).compileAll.on w = some (result, after) := by
  obtain ⟨sourced, idle⟩ := reached.sourceOnly sourcesOnly
  have holds : w.InBudget (.ofWorld u w) [] := idle ▸ World.inBudget_ofWorld sourced
  refine ⟨(Budget.ofWorld u w).enough, fun depth deep => ⟨fun name => ?_, fun gated => ?_, ?_⟩⟩
  · have ready := (Loader.affords_ofDepth deep).ready
    exact (Engine.require_bounded deep (ready.searches.classForName name)).answers holds
  · exact (Engine.require_bounded deep (gated.calm (Loader.affords_ofDepth deep).ready)).answers holds
  · exact (Engine.compileAll_bounded deep).answers holds

/-- Classes that extend each other, themselves or what does not exist, and name one another in their members,
after look-ups and a compilation that finds the cycle. -/
theorem sources_always_answer_circular :
    let u : Universe := { sources := [
      { path := "A.java", package := some "p", classes := [
        { name := "A", superclass := some "B", methods := [{ name := "next", returns := "B.C" }] }] },
      { path := "B.java", package := some "p", classes := [
        { name := "B", superclass := some "A", members := [{ name := "C", superclass := some "C" }] }] },
      { path := "D.java", package := some "p", classes := [{
        name := "D", superclass := some "q.Missing", interfaces := ["D"], fields := [{ name := "a", type := "A[]" }] }] }] }
    let found := Request.next (.require (.classNamed "p.D")) 100
      (Request.next (.require (.classNamed "p.A")) 100 (.ofUniverse {} u))
    let asked := Request.next .compileAll 100 (Request.next (.require (.superType ⟨0⟩)) 100 found)
    (u.classFiles = [] ∧ Reachable {} u asked ∧ asked.arena.size = 4) ∧
      ∃ enough, ∀ depth, enough ≤ depth →
        (∀ name, ∃ result after, ((Engine.ofDepth depth).classNamed name).on asked = some (result, after)) ∧
        (∃ result after, ((Engine.ofDepth depth).require
          ((Loader.ofDepth depth).superType ⟨1⟩)).on asked = some (result, after)) ∧
        ∃ result after, (Engine.ofDepth depth).compileAll.on asked = some (result, after) := by
  intro u found asked
  have first : Reachable {} u _ := (Leads.refl _).next (.require (.classNamed "p.A")) 100 trivial
  have second : Reachable {} u found := first.next (.require (.classNamed "p.D")) 100 trivial
  have third : Reachable {} u _ := second.next (.require (.superType ⟨0⟩)) 100 trivial
  have reached : Reachable {} u asked := third.next .compileAll 100 trivial
  refine ⟨⟨rfl, reached, by decide +kernel⟩, ?_⟩
  obtain ⟨enough, answers⟩ := sources_always_answer rfl reached
  refine ⟨enough, fun depth deep => ?_⟩
  obtain ⟨named, required, compiled⟩ := answers depth deep
  exact ⟨named, required (.superType ⟨1⟩), compiled⟩

end ClassUniverse
