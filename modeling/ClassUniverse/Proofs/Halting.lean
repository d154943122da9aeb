import ClassUniverse.Proofs.Respects
import ClassUniverse.Proofs.Worklist

/-! Computations that come to an end. `Ends` says nothing about a computation that nests too deep; a computation
that finishes does answer or fail, and an invariant holds in either case. -/
namespace ClassUniverse

variable {x : Run α} {f : α → Run β}

section Remaining

variable [DecidableEq α] {later : List α}

/-- How many things are left to be seen. -/
def remaining (all seen : List α) : Nat := all.countP (· ∉ seen)

theorem remaining_nil (all : List α) : remaining all [] = all.length := by
  rw [remaining, List.countP_eq_length]
  simp

theorem remaining_eq (all seen : List α) : remaining all seen = Worklist.unseen (fun a => a) (fun a => [a]) seen all := by
  rw [remaining, Worklist.unseen, List.countP_eq_length_filter, List.flatMap_singleton']
  simp

theorem remaining_mono (all : List α) (more : ∀ a ∈ seen, a ∈ later) : remaining all later ≤ remaining all seen := by
  rw [remaining_eq, remaining_eq]
  exact Worklist.unseen_mono _ _ more all

/-- Seeing one more of the things leaves fewer of them. -/
theorem remaining_visit (listed : a ∈ all) (fresh : a ∉ seen) (visited : a ∈ later)
    (more : ∀ b ∈ seen, b ∈ later) : remaining all later < remaining all seen := by
  have fewer := Worklist.unseen_later (fun a => a) (fun a => [a]) fresh visited more listed
  rwa [List.length_singleton, ← remaining_eq, ← remaining_eq, Nat.add_comm] at fewer

end Remaining

namespace Run

/-- The computation comes to an end. The condition holds on, the world has only grown, and an answer satisfies
`good`. -/
structure Finishes (x : Run α) (P : World → Prop) (G : World → World → Prop) (w : World)
    (good : α → World → Prop) : Prop where
  halts : (x.on w).isSome
  gives : x.Gives P G w good

namespace Finishes

theorem mono {good better : α → World → Prop} (finishes : x.Finishes P G w good)
    (weaker : ∀ a after, P after → G w after → good a after → better a after) : x.Finishes P G w better :=
  ⟨finishes.halts, finishes.gives.mono weaker⟩

theorem weaken {good : α → World → Prop} (finishes : x.Finishes P G w good)
    (weaker : ∀ after, P after → G w after → Q after ∧ H w after) : x.Finishes Q H w good := by
  refine ⟨finishes.halts, Ends.mono finishes.gives ?_ ?_⟩
  · rintro a after ⟨⟨holds, grown⟩, answer⟩
    exact ⟨weaker after holds grown, answer⟩
  · rintro e after ⟨holds, grown⟩
    exact weaker after holds grown

end Finishes

theorem finishes_step (ran : x.on w = some (.ok a, middle)) (next : (f a).Finishes P H middle good)
    (since : ∀ after, P after → H middle after → G w after) : (x >>= f).Finishes P G w good := by
  have same : (x >>= f).on w = (f a).on middle := by rw [on_bind, ran]
  refine ⟨same ▸ next.halts, ?_⟩
  have ends : (f a).Gives P (fun _ => G w) middle good :=
    (next.weaken fun after holds grown => ⟨holds, since after holds grown⟩).gives
  unfold Gives Ends at ends ⊢
  rwa [same]

namespace Finishes

theorem outcome {good : α → World → Prop} (finishes : x.Finishes P G w good) :
    x.outcome.Finishes P G w fun result after => ∀ a, result = .ok a → good a after := by
  refine ⟨?_, finishes.gives.outcome⟩
  rw [on_outcome]
  simpa using finishes.halts

theorem andThen (first : x.Finishes P G w ok)
    (next : ∀ a middle, P middle → G w middle → ok a middle → (f a).Finishes P H middle good)
    (whole : ∀ middle after, G w middle → H middle after → K w after) (failed : ∀ after, G w after → K w after) :
    (x >>= f).Finishes P K w good := by
  have ends := first.gives
  constructor
  · rw [on_bind]
    obtain ⟨⟨result, middle⟩, ran⟩ := Option.isSome_iff_exists.mp first.halts
    rw [ran]
    cases result with
    | ok a =>
      obtain ⟨⟨holds, grown⟩, answer⟩ := Ends.answer ends ran
      exact (next a middle holds grown answer).halts
    | error e => rfl
  · refine ends_bind.mpr (Ends.mono ends ?_ fun _ after reached => ⟨reached.1, failed after reached.2⟩)
    rintro a middle ⟨⟨holds, grown⟩, answer⟩
    refine Ends.mono (next a middle holds grown answer).gives ?_ ?_
    · exact fun _ after reached => ⟨⟨reached.1.1, whole middle after grown reached.1.2⟩, reached.2⟩
    · exact fun _ after reached => ⟨reached.1, whole middle after grown reached.2⟩

theorem bind [WorldOrder G] (first : x.Finishes P G w ok)
    (next : ∀ a middle, P middle → G w middle → ok a middle → (f a).Finishes P G middle good) :
    (x >>= f).Finishes P G w good :=
  first.andThen next (fun _ _ => WorldOrder.trans) fun _ grown => grown

theorem meets {good : α → Prop} (finishes : x.Finishes P G w fun _ _ => True) (meets : x.Meets good (fun _ => True)) :
    x.Finishes P G w fun a _ => good a := by
  refine ⟨finishes.halts, (Ends.and finishes.gives (meets w)).mono ?_ ?_⟩
  · exact fun _ _ both => ⟨both.1.1, both.2⟩
  · exact fun _ _ both => both.1

end Finishes

/-- Only looks at the world, and always has an answer. -/
def Reads (x : Run α) : Prop := ∀ w, ∃ a, x.on w = some (.ok a, w)

theorem reads_get : (get : Run World).Reads := fun w => ⟨w, rfl⟩

theorem reads_arena : Run.arena.Reads := fun w => ⟨w.arena, rfl⟩

theorem reads_record (id : ClassId) : (Run.record id).Reads := fun w => ⟨w.arena.get id, rfl⟩

section Rules

theorem finishes_read (read : x.on w = some (.ok a, w)) (next : (f a).Finishes P G w good) :
    (x >>= f).Finishes P G w good :=
  finishes_step read next fun _ _ grown => grown

theorem finishes_modify {good : Unit → World → Prop} (holds : P (change w))
    (grown : G w (change w)) (answer : good () (change w)) : (modify change : Run Unit).Finishes P G w good :=
  ⟨rfl, ends_modify.mpr ⟨⟨holds, grown⟩, answer⟩⟩

theorem finishes_ite [Decidable p] {x y : Run β} (first : p → x.Finishes P G w good)
    (second : ¬p → y.Finishes P G w good) : (if p then x else y).Finishes P G w good := by
  split
  · exact first ‹_›
  · exact second ‹_›

variable [WorldOrder G]

theorem finishes_pure {a : β} (holds : P w) (answer : good a w) : (pure a : Run β).Finishes P G w good :=
  ⟨rfl, gives_pure holds answer⟩

theorem finishes_throw (e : Error) (holds : P w) : (throw e : Run β).Finishes P G w good :=
  ⟨rfl, gives_throw e holds⟩

theorem finishes_fault {fault : Fault} (holds : P w) :
    (Run.fault fault position : Run β).Finishes P G w good := ⟨rfl, gives_fault holds⟩

/-- As long as each test finishes wherever the ones before it have led. -/
theorem finishes_anyOf (items : List α) (holds : P w)
    (each : ∀ a ∈ items, ∀ middle, P middle → G w middle → (test a).Finishes P G middle fun _ _ => True) :
    (anyOf test items).Finishes P G w fun _ _ => True := by
  induction items generalizing w with
  | nil => exact finishes_pure holds trivial
  | cons a rest ih =>
    refine (each a List.mem_cons_self w holds (WorldOrder.refl w)).bind fun found middle between grown _ => ?_
    refine finishes_ite (fun _ => finishes_pure between trivial) fun _ => ?_
    refine ih between fun b member last later further => ?_
    exact each b (List.mem_cons_of_mem a member) last later (WorldOrder.trans grown further)

end Rules

/-- Wherever the condition holds, the computation finishes. -/
def Steady (P : World → Prop) (G : World → World → Prop) (x : Run α) : Prop :=
  ∀ w, P w → x.Finishes P G w fun _ _ => True

theorem Steady.within (steady : x.Steady P G) : x.Within (Kept P G) :=
  within_of_gives fun w holds => (steady w holds).gives

theorem Steady.weaken (steady : x.Steady P G) (stronger : ∀ w, Q w → P w)
    (weaker : ∀ w after, Q w → P after → G w after → Q after ∧ H w after) : x.Steady Q H := fun w holds =>
  (steady w (stronger w holds)).weaken fun after later grown => weaker w after holds later grown

section Steady

theorem steady_modify (kept : ∀ w, Kept P G w (change w)) : (modify change : Run Unit).Steady P G := fun w holds =>
  finishes_modify (kept w holds).1 (kept w holds).2 trivial

theorem steady_outcome (steady : x.Steady P G) : x.outcome.Steady P G := fun w holds =>
  (steady w holds).outcome.mono fun _ _ _ _ _ => trivial

theorem steady_ite [Decidable p] (first : x.Steady P G) (second : y.Steady P G) :
    (if p then x else y).Steady P G := fun w holds =>
  finishes_ite (fun _ => first w holds) fun _ => second w holds

variable [WorldOrder G]

theorem Reads.steady (reads : x.Reads) : x.Steady P G := by
  intro w holds
  obtain ⟨a, ran⟩ := reads w
  refine ⟨by rw [ran]; rfl, ends_of_outcomes (fun b after other => ?_) (fun e after other => ?_)⟩
  · rw [ran] at other
    cases other
    exact ⟨⟨holds, WorldOrder.refl w⟩, trivial⟩
  · rw [ran] at other
    cases other

theorem steady_pure (a : α) : (pure a : Run α).Steady P G := fun _ holds => finishes_pure holds trivial

theorem steady_fault (fault : Fault) (position : Option Position) : (Run.fault fault position : Run α).Steady P G :=
  fun _ holds => finishes_fault holds

theorem steady_bind (first : x.Steady P G) (rest : ∀ a, (f a).Steady P G) : (x >>= f).Steady P G := fun w holds =>
  (first w holds).bind fun a middle holds _ _ => rest a middle holds

theorem steady_composes : Composes (fun _ x => x.Steady P G) fun _ => True where
  pure := steady_pure
  raise _ := fun _ holds => finishes_throw _ holds
  get := reads_get.steady
  bind := steady_bind
  caught first rest := steady_bind (steady_outcome first) fun result => rest result fun _ _ _ _ => trivial

/-- Calls on caches finish whenever what stands behind the caches does. -/
theorem steady_fillsCache (free : ∀ w caches, Kept P G w { w with caches }) (slot : Slot) :
    FillsCache (fun _ x => x.Steady P G) (fun _ => True) slot :=
  { steady_composes with
    setPackage := fun _ _ => steady_modify fun w => free w _
    insert := fun _ _ => steady_modify fun w => free w _
    addPackage := fun _ => steady_modify fun w => free w _
    insertMiss := fun _ => steady_modify fun w => free w _ }

end Steady

end Run

namespace Scoped

/-- Wherever the condition holds, the computation finishes, whatever the scope. -/
def Steady (P : World → Prop) (G : World → World → Prop) (x : Scoped α) : Prop :=
  ∀ s w, P w → (x.on s w).isSome ∧
    x.Ends s w (fun _ _ after => P after ∧ G w after) (fun _ _ after => P after ∧ G w after)

theorem Steady.inScope {x : Scoped α} (steady : x.Steady P G) (s : Scope) : (x.within s).Steady P G := by
  intro w holds
  obtain ⟨halts, ends⟩ := steady s w holds
  have kept : (x.within s).Gives P G w fun _ _ => True := by
    refine ends_within.mpr (ends.mono ?_ ?_)
    · exact fun _ _ _ reached => ⟨reached, trivial⟩
    · exact fun _ _ _ failed => failed
  refine ⟨?_, kept⟩
  obtain ⟨⟨⟨result, last⟩, after⟩, ran⟩ := Option.isSome_iff_exists.mp halts
  unfold within
  rw [Run.on_bind, on_runIn, ran]
  cases result <;> rfl

theorem steady_outcome {x : Scoped α} (steady : x.Steady P G) : x.outcome.Steady P G := by
  intro s w holds
  obtain ⟨halts, ends⟩ := steady s w holds
  refine ⟨?_, ends_outcome.mpr ends⟩
  rw [on_outcome]
  simpa using halts

theorem steady_lift (steady : x.Steady P G) : (liftM x : Scoped α).Steady P G := by
  intro s w holds
  have finishes := steady w holds
  refine ⟨?_, ends_lift.mpr (Run.Ends.mono finishes.gives ?_ ?_)⟩
  · rw [on_lift]
    simpa using finishes.halts
  · exact fun _ _ reached => reached.1
  · exact fun _ _ failed => failed

variable [WorldOrder G]

theorem steady_bind {x : Scoped α} {f : α → Scoped β} (first : x.Steady P G) (rest : ∀ a, (f a).Steady P G) :
    (x >>= f).Steady P G := by
  intro s w holds
  obtain ⟨halts, ends⟩ := first s w holds
  refine ⟨?_, ends_bind.mpr (ends.mono (fun a s middle reached => ?_) fun _ _ _ failed => failed)⟩
  · rw [on_bind]
    obtain ⟨⟨⟨result, last⟩, middle⟩, ran⟩ := Option.isSome_iff_exists.mp halts
    rw [ran]
    cases result with
    | ok a => exact (rest a last middle (ends.answer ran).1).1
    | error e => rfl
  · refine (rest a s middle reached.1).2.mono ?_ ?_
    · exact fun _ _ _ later => ⟨later.1, WorldOrder.trans reached.2 later.2⟩
    · exact fun _ _ _ later => ⟨later.1, WorldOrder.trans reached.2 later.2⟩

theorem steady_composes : Scoped.Composes (fun _ x => x.Steady P G) (fun _ x => x.Steady P G) fun _ => True where
  base := Run.steady_composes
  pure _ := fun _ w holds => ⟨rfl, ends_pure.mpr ⟨holds, WorldOrder.refl w⟩⟩
  raise _ := fun _ w holds => ⟨rfl, ends_throw.mpr ⟨holds, WorldOrder.refl w⟩⟩
  getScope := fun _ w holds => ⟨rfl, ends_getScope.mpr ⟨holds, WorldOrder.refl w⟩⟩
  getWorld := steady_lift Run.reads_get.steady
  named _ _ := fun _ w holds => ⟨rfl, ends_modifyScope.mpr ⟨holds, WorldOrder.refl w⟩⟩
  lift := steady_lift
  bind := steady_bind
  caught first rest := steady_bind (steady_outcome first) fun result => rest result fun _ _ _ _ => trivial

end Scoped

end ClassUniverse
