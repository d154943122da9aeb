import ClassUniverse.Proofs.Outcome
import Mathlib.Data.List.Forall2

/-! Computations that do answer. Where `Ends` says nothing about a computation that nests too deep, `Yields`
says that there is an answer and what it is like. -/
namespace ClassUniverse.Run

/-- There is an answer, and it satisfies `good` together with the world it leaves behind. -/
def Yields (x : Run α) (w : World) (good : α → World → Prop) : Prop :=
  ∃ a after, x.on w = some (.ok a, after) ∧ good a after

theorem on_bind_ok {x : Run α} (ran : x.on w = some (.ok a, middle)) : (x >>= f).on w = (f a).on middle := by
  rw [on_bind, ran]

theorem on_bind_error {x : Run α}
    (failed : x.on w = some (.error e, after)) : (x >>= f).on w = some (.error e, after) := by
  rw [on_bind, failed]

theorem on_get_bind (f : World → Run β) : (get >>= f).on w = (f w).on w := on_bind_ok rfl

theorem ends_step {x : Run α}
    (ran : x.on w = some (.ok a, middle)) (rest : (f a).Ends middle ok bad) : (x >>= f).Ends w ok bad := by
  unfold Ends at rest ⊢
  rwa [on_bind_ok ran]

theorem Yields.mono {x : Run α} (yields : x.Yields w good)
    (weaker : ∀ a after, good a after → better a after) : x.Yields w better := by
  obtain ⟨a, after, ran, answer⟩ := yields
  exact ⟨a, after, ran, weaker a after answer⟩

theorem Yields.bind {x : Run α} {good : β → World → Prop}
    (first : x.Yields w ok) (next : ∀ a middle, ok a middle → (f a).Yields middle good) :
    (x >>= f).Yields w good := by
  obtain ⟨a, middle, ran, answer⟩ := first
  obtain ⟨b, after, later, final⟩ := next a middle answer
  exact ⟨b, after, (on_bind_ok ran).trans later, final⟩

theorem Yields.map {x : Run α} (yields : x.Yields w fun a after => good (f a) after) : (f <$> x).Yields w good := by
  exact yields.bind fun a after answer => ⟨f a, after, rfl, answer⟩

theorem Yields.outcome {x : Run α} (yields : x.Yields w good) :
    x.outcome.Yields w fun result after => ∃ a, result = .ok a ∧ good a after := by
  obtain ⟨a, after, ran, answer⟩ := yields
  exact ⟨.ok a, after, on_outcome_of ran, a, rfl, answer⟩

section Rules

variable {good : β → World → Prop}

theorem yields_pure (answer : good a w) : (pure a : Run β).Yields w good := ⟨a, w, rfl, answer⟩

theorem yields_modify {good : Unit → World → Prop} (answer : good () (change w)) :
    (modify change : Run Unit).Yields w good := ⟨(), change w, rfl, answer⟩

theorem yields_step {x : Run α} (first : x.on w = some (.ok a, middle))
    (next : (f a).Yields middle good) : (x >>= f).Yields w good := by
  obtain ⟨b, after, ran, answer⟩ := next
  exact ⟨b, after, (on_bind_ok first).trans ran, answer⟩

theorem yields_get {f : World → Run β} (next : (f w).Yields w good) : (get >>= f).Yields w good :=
  yields_step rfl next

end Rules

section Lists

variable {P : World → Prop} [WorldOrder G] {R : α → β → World → Prop} {f : α → Run β}

theorem yields_mapM (items : List α)
    (step : ∀ a ∈ items, ∀ w, P w → (f a).Yields w fun b after => P after ∧ G w after ∧ R a b after)
    (lasting : ∀ a b {w after}, P w → G w after → R a b w → R a b after) (holds : P w) :
    (items.mapM f).Yields w fun answers after => P after ∧ G w after ∧
      List.Forall₂ (fun a b => R a b after) items answers := by
  induction items generalizing w with
  | nil => exact yields_pure ⟨holds, WorldOrder.refl w, .nil⟩
  | cons a items ih =>
    rw [List.mapM_cons]
    refine (step a (by simp) w holds).bind fun b middle ⟨between, grown, answer⟩ => ?_
    refine (ih (fun other member => step other (by simp [member])) between).bind fun answers after ⟨last, further, rest⟩ => ?_
    exact yields_pure ⟨last, WorldOrder.trans grown further, .cons (lasting a b between further answer) rest⟩

end Lists

end ClassUniverse.Run
