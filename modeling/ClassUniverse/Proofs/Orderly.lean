import ClassUniverse.Proofs.Halting

/-! Computations that come to an end and say what they miss. An error that asks for a goal makes the scheduler attempt
the goal, so that attempts come to an end only if the goals asked for are known. -/
namespace ClassUniverse

namespace Run

variable {x : Run α} {f : α → Run β}

/-- Fails, but not for want of a goal. -/
def FailsAt (x : Run α) (w after : World) : Prop := ∃ e : Error, e.missingGoal? = none ∧ x.on w = some (.error e, after)

section Failing

theorem failsAt_throw (given : e.missingGoal? = none) : (throw e : Run α).FailsAt w w := ⟨e, given, rfl⟩

theorem failsAt_fault {fault : Fault} : (Run.fault fault position : Run α).FailsAt w w :=
  ⟨_, rfl, rfl⟩

theorem FailsAt.bind (fails : x.FailsAt w after) (f : α → Run β) : (x >>= f).FailsAt w after := by
  obtain ⟨e, given, ran⟩ := fails
  exact ⟨e, given, by rw [on_bind, ran]⟩

theorem failsAt_step (ran : x.on w = some (.ok a, middle)) (next : (f a).FailsAt middle after) :
    (x >>= f).FailsAt w after := by
  obtain ⟨e, given, failed⟩ := next
  exact ⟨e, given, by rw [on_bind, ran]; exact failed⟩

/-- Failing for good ends whatever waits for the outcome. -/
theorem FailsAt.outcome {f : Except Error α → Run β} (fails : x.FailsAt w after)
    (rethrows : ∀ e, e.missingGoal? = none → f (.error e) = throw e) : (x.outcome >>= f).FailsAt w after := by
  obtain ⟨e, given, ran⟩ := fails
  refine failsAt_step (on_outcome_of ran) ?_
  rw [rethrows e given]
  exact failsAt_throw given

end Failing

/-- Finishes, and an error asks for no goals but the given ones. -/
structure Concludes (x : Run α) (P : World → Prop) (G : World → World → Prop) (goals : Goal → Prop) (w : World)
    (good : α → World → Prop) : Prop extends x.Finishes P G w good where
  asks : x.Ends w (fun _ _ => True) fun e _ => e.AsksFor goals

section Rules

theorem Concludes.mono {good better : α → World → Prop} (concludes : x.Concludes P G goals w good)
    (weaker : ∀ a after, P after → G w after → good a after → better a after) : x.Concludes P G goals w better :=
  ⟨concludes.toFinishes.mono weaker, concludes.asks⟩

theorem Finishes.concludes {good : α → World → Prop} (finishes : x.Finishes P G w good) :
    x.Concludes P G (fun _ => True) w good :=
  ⟨finishes, (meets_trivial x w).mono (fun _ _ _ => trivial) fun _ _ _ _ _ => trivial⟩

theorem concludes_step (ran : x.on w = some (.ok a, middle))
    (next : (f a).Concludes P H goals middle good) (since : ∀ after, P after → H middle after → G w after) :
    (x >>= f).Concludes P G goals w good := by
  refine ⟨finishes_step ran next.toFinishes since, ?_⟩
  have asks := next.asks
  unfold Ends at asks ⊢
  rwa [on_bind, ran]

theorem concludes_read (read : x.on w = some (.ok a, w)) (next : (f a).Concludes P G goals w good) :
    (x >>= f).Concludes P G goals w good :=
  concludes_step read next fun _ _ grown => grown

theorem concludes_ite [Decidable p] {x y : Run β} (first : p → x.Concludes P G goals w good)
    (second : ¬p → y.Concludes P G goals w good) : (if p then x else y).Concludes P G goals w good := by
  split
  · exact first ‹_›
  · exact second ‹_›

theorem concludes_modify {good : Unit → World → Prop} (holds : P (change w))
    (grown : G w (change w)) (answer : good () (change w)) : (modify change : Run Unit).Concludes P G goals w good :=
  ⟨finishes_modify holds grown answer, ends_modify.mpr trivial⟩

theorem FailsAt.concludes {x : Run β} (fails : x.FailsAt w after) (holds : P after)
    (grown : G w after) : x.Concludes P G goals w good := by
  obtain ⟨e, plain, ran⟩ := fails
  refine ⟨⟨by rw [ran]; rfl, ?_⟩, ?_⟩
  · unfold Gives Ends
    rw [ran]
    exact ⟨holds, grown⟩
  · unfold Ends
    rw [ran]
    exact .plain plain

/-- There is a result, an answer or an error, with all that is known about it. -/
theorem Concludes.result (concludes : x.Concludes P G goals w ok) :
    ∃ result after, x.outcome.on w = some (.ok result, after) ∧ (P after ∧ G w after) ∧
      (∀ a, result = .ok a → ok a after) ∧ ∀ e, result = .error e → e.AsksFor goals := by
  obtain ⟨⟨result, after⟩, ran⟩ := Option.isSome_iff_exists.mp concludes.halts
  refine ⟨result, after, on_outcome_of ran, ?_⟩
  cases result with
  | ok a =>
    obtain ⟨kept, answer⟩ := Ends.answer concludes.gives ran
    exact ⟨kept, fun _ same => Except.ok.inj same ▸ answer, nofun⟩
  | error e =>
    have asks := Ends.error concludes.asks ran
    exact ⟨Ends.error concludes.gives ran, nofun, fun _ same => Except.error.inj same ▸ asks⟩

/-- Whatever comes out, the rest goes on from there, under a condition of its own. -/
theorem Concludes.caught {f : Except Error α → Run β} (first : x.Concludes P G asked w ok)
    (next : ∀ result middle, P middle → G w middle → (∀ a, result = .ok a → ok a middle) →
      (∀ e, result = .error e → e.AsksFor asked) → (f result).Concludes Q H goals middle good)
    (whole : ∀ middle after, G w middle → H middle after → K w after) :
    (x.outcome >>= f).Concludes Q K goals w good := by
  obtain ⟨result, middle, seen, ⟨holds, grown⟩, answers, asks⟩ := first.result
  exact concludes_step seen (next result middle holds grown answers asks) fun after _ further =>
    whole middle after grown further

variable [WorldOrder G]

theorem concludes_pure (holds : P w) (answer : good a w) : (pure a : Run β).Concludes P G goals w good :=
  ⟨finishes_pure holds answer, ends_pure.mpr trivial⟩

theorem concludes_raise (holds : P w) (asks : e.AsksFor goals) :
    (throw e : Run β).Concludes P G goals w good := ⟨finishes_throw e holds, ends_throw.mpr asks⟩

theorem Concludes.bind (first : x.Concludes P G goals w ok)
    (next : ∀ a middle, P middle → G w middle → ok a middle → (f a).Concludes P G goals middle good) :
    (x >>= f).Concludes P G goals w good := by
  refine ⟨first.toFinishes.bind fun a middle holds grown answer => (next a middle holds grown answer).toFinishes, ?_⟩
  refine ends_bind.mpr ((Ends.and first.gives first.asks).mono ?_ fun _ _ failed => failed.2)
  rintro a middle ⟨⟨⟨holds, grown⟩, answer⟩, _⟩
  exact (next a middle holds grown answer).asks

end Rules

/-- Wherever the condition holds, the computation concludes. -/
def Orderly (P : World → Prop) (G : World → World → Prop) (goals : Goal → Prop) (x : Run α) : Prop :=
  ∀ w, P w → x.Concludes P G goals w fun _ _ => True

section Orderly

theorem Steady.orderly (steady : x.Steady P G) : x.Orderly P G fun _ => True := fun w holds =>
  (steady w holds).concludes

theorem orderly_ite [Decidable p] (first : x.Orderly P G goals) (second : y.Orderly P G goals) :
    (if p then x else y).Orderly P G goals := fun w holds =>
  concludes_ite (fun _ => first w holds) fun _ => second w holds

theorem orderly_read {f : World → Run α} (next : ∀ w, P w → (f w).Concludes P G goals w fun _ _ => True) :
    (get >>= f).Orderly P G goals := fun w holds => concludes_read rfl (next w holds)

variable [WorldOrder G]

theorem orderly_pure (a : α) : (pure a : Run α).Orderly P G goals := fun _ holds => concludes_pure holds trivial

theorem orderly_raise (asks : e.AsksFor goals) : (throw e : Run α).Orderly P G goals := fun _ holds =>
  concludes_raise holds asks

theorem orderly_plain (plain : e.missingGoal? = none) : (throw e : Run α).Orderly P G goals :=
  orderly_raise (.plain plain)

theorem orderly_bind (first : x.Orderly P G goals) (rest : ∀ a, (f a).Orderly P G goals) :
    (x >>= f).Orderly P G goals := fun w holds =>
  (first w holds).bind fun a middle holds _ _ => rest a middle holds

theorem orderly_composes : Composes (fun _ x => x.Orderly P G goals) goals where
  pure := orderly_pure
  raise := orderly_raise
  get _ holds := ⟨reads_get.steady _ holds, ends_get.mpr trivial⟩
  bind := orderly_bind
  caught first rest w holds := by
    refine (first w holds).caught (fun result middle holds _ _ asks => ?_) fun _ _ => WorldOrder.trans
    exact rest result asks middle holds

theorem orderly_discard (orderly : x.Orderly P G goals) : (discard x).Orderly P G goals :=
  orderly_composes.map orderly

theorem orderly_forM {f : α → Run PUnit} {items : List α} (orderly : ∀ a ∈ items, (f a).Orderly P G goals) :
    (items.forM f).Orderly P G goals := orderly_composes.forM orderly

end Orderly

end Run

end ClassUniverse
