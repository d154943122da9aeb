import ClassUniverse.Scope.Lookup

/-! Postconditions of computations on a world. A computation that nests too deep has no outcome, so nothing
is said about it: these are statements about the answers and errors that do occur, and about the world that
is left behind in either case. -/
namespace ClassUniverse

variable {e : Error} {x : Run α} {f : α → Run β} {items : List α}
  {ok : α → Prop} {id : ClassId}

/-- A goal that the error asks for is one of these. -/
def Error.AsksFor (goals : Goal → Prop) (e : Error) : Prop := ∀ goal, e.missingGoal? = some goal → goals goal

theorem Error.AsksFor.plain (plain : e.missingGoal? = none) : e.AsksFor goals := by
  intro goal missing
  rw [plain] at missing
  cases missing

namespace Run

variable {ok : α → World → Prop}

/-- What a computation comes to in a world. -/
def on (x : Run α) (w : World) : Option (Except Error α × World) := ExceptT.run x w

/-- An answer satisfies `ok` together with the world it leaves behind, an error `bad`. -/
def Ends (x : Run α) (w : World) (ok : α → World → Prop) (bad : Error → World → Prop) : Prop :=
  match x.on w with
  | none => True
  | some (.ok a, after) => ok a after
  | some (.error e, after) => bad e after

section Rules

variable {ok : β → World → Prop}

@[simp] theorem ends_pure : (pure a : Run β).Ends w ok bad ↔ ok a w := Iff.rfl

@[simp] theorem ends_throw : (throw e : Run β).Ends w ok bad ↔ bad e w := Iff.rfl

@[simp] theorem ends_exhausted : (exhausted : Run β).Ends w ok bad ↔ True := Iff.rfl

@[simp] theorem ends_fault {fault : Fault} :
    (Run.fault fault position : Run β).Ends w ok bad ↔ bad (.semantic fault position) w := Iff.rfl

@[simp] theorem ends_get {ok : World → World → Prop} : (get : Run World).Ends w ok bad ↔ ok w w := Iff.rfl

@[simp] theorem ends_modify {ok : Unit → World → Prop} :
    (modify change : Run Unit).Ends w ok bad ↔ ok () (change w) := Iff.rfl

@[simp] theorem ends_modifyGet {change : World → β × World} :
    (modifyGet change : Run β).Ends w ok bad ↔ ok (change w).1 (change w).2 := Iff.rfl

theorem on_bind (x : Run α) (f : α → Run β) :
    (x >>= f).on w = match x.on w with
      | none => none
      | some (.ok a, after) => (f a).on after
      | some (.error e, after) => some (.error e, after) := by
  unfold on
  simp only [bind, ExceptT.bind, ExceptT.run, ExceptT.mk, StateT.bind]
  cases x w with
  | none => rfl
  | some p => obtain ⟨_ | _, after⟩ := p <;> rfl

@[simp] theorem ends_bind : (x >>= f).Ends w ok bad ↔ x.Ends w (fun a after => (f a).Ends after ok bad) bad := by
  unfold Ends
  rw [on_bind]
  cases x.on w with
  | none => rfl
  | some p => obtain ⟨_ | _, after⟩ := p <;> rfl

@[simp] theorem ends_map {f : α → β} : (f <$> x).Ends w ok bad ↔ x.Ends w (fun a after => ok (f a) after) bad := by
  rw [← bind_pure_comp, ends_bind]
  rfl

theorem ends_discard {ok : Unit → World → Prop} : (discard x).Ends w ok bad ↔ x.Ends w (fun _ => ok ()) bad := ends_map

theorem on_outcome (x : Run α) (w : World) : x.outcome.on w = (x.on w).map fun p => (.ok p.1, p.2) := by
  unfold on outcome
  simp only [ExceptT.run, ExceptT.lift, ExceptT.mk, Functor.map, StateT.map]
  cases x w with
  | none => rfl
  | some p => rfl

theorem on_outcome_of (ran : x.on w = some (result, after)) : x.outcome.on w = some (.ok result, after) := by
  rw [on_outcome, ran]
  rfl

@[simp] theorem ends_outcome {ok : Except Error α → World → Prop} :
    x.outcome.Ends w ok bad ↔ x.Ends w (fun a after => ok (.ok a) after) (fun e after => ok (.error e) after) := by
  unfold Ends
  rw [on_outcome]
  cases x.on w with
  | none => rfl
  | some p => obtain ⟨_ | _, after⟩ := p <;> rfl

@[simp] theorem ends_arena {ok : Arena → World → Prop} : Run.arena.Ends w ok bad ↔ ok w.arena w := Iff.rfl

@[simp] theorem ends_record {ok : ClassRecord → World → Prop} :
    (Run.record id).Ends w ok bad ↔ ok (w.arena.get id) w := Iff.rfl

@[simp] theorem ends_isRoot {ok : Bool → World → Prop} : (isRoot id).Ends w ok bad ↔ ok (w.isRoot id) w := Iff.rfl

@[simp] theorem ends_check {ok : Option Named → World → Prop} :
    (Run.check name).Ends w ok bad ↔ ok (w.system.check name) w := Iff.rfl

@[simp] theorem ends_addClass {record : ClassRecord} {ok : ClassId → World → Prop} :
    (addClass record).Ends w ok bad ↔ ok (w.arena.add record).1 { w with arena := (w.arena.add record).2 } := Iff.rfl

section Changes

variable {ok : Unit → World → Prop}

@[simp] theorem ends_update {change : ClassRecord → ClassRecord} :
    (update id change).Ends w ok bad ↔ ok () { w with arena := w.arena.modify id change } := Iff.rfl

@[simp] theorem ends_mark :
    (mark id stage).Ends w ok bad ↔ ok () { w with arena := w.arena.modify id (·.markStage stage) } := Iff.rfl

@[simp] theorem ends_modifyCache {change : Layers → Layers} : (modifyCache slot change).Ends w ok bad ↔
      ok () { w with caches := w.caches.insert slot (change (w.cache slot)) } := Iff.rfl

@[simp] theorem ends_modifySchedule {change : Schedule → Schedule} :
    (modifySchedule change).Ends w ok bad ↔ ok () { w with schedule := change w.schedule } := Iff.rfl

end Changes

theorem ends_ite [Decidable p] {x y : Run β} :
    (if p then x else y).Ends w ok bad ↔ (p → x.Ends w ok bad) ∧ (¬p → y.Ends w ok bad) := by
  split <;> simp_all

end Rules

theorem Ends.mono (holds : x.Ends w ok bad)
    (weaker : ∀ a after, ok a after → ok' a after) (weakerBad : ∀ e after, bad e after → bad' e after) :
    x.Ends w ok' bad' := by
  unfold Ends at *
  cases h : x.on w with
  | none => trivial
  | some p =>
    obtain ⟨result, after⟩ := p
    rw [h] at holds
    cases result with
    | ok a => exact weaker a after holds
    | error e => exact weakerBad e after holds

theorem Ends.and (first : x.Ends w ok bad) (second : x.Ends w ok' bad') :
    x.Ends w (fun a after => ok a after ∧ ok' a after) (fun e after => bad e after ∧ bad' e after) := by
  unfold Ends at *
  cases h : x.on w with
  | none => trivial
  | some p =>
    obtain ⟨result, after⟩ := p
    rw [h] at first second
    cases result <;> exact ⟨first, second⟩

theorem Ends.answer (holds : x.Ends w ok bad) (answered : x.on w = some (.ok a, after)) : ok a after := by
  unfold Ends at holds
  rwa [answered] at holds

theorem Ends.error (holds : x.Ends w ok bad) (failed : x.on w = some (.error e, after)) : bad e after := by
  unfold Ends at holds
  rwa [failed] at holds

theorem ends_of_outcomes (answers : ∀ a after, x.on w = some (.ok a, after) → ok a after)
    (errors : ∀ e after, x.on w = some (.error e, after) → bad e after) : x.Ends w ok bad := by
  unfold Ends
  cases h : x.on w with
  | none => trivial
  | some p =>
    obtain ⟨result, after⟩ := p
    cases result with
    | ok a => exact answers a after h
    | error e => exact errors e after h

section Decided

/-- What a computation comes to is decided by running it. -/
instance {result : Except Error α} [DecidableEq (Except Error α)] {p : World → Prop} [DecidablePred p] :
    Decidable (∃ after, x.on w = some (result, after) ∧ p after) :=
  decidable_of_iff ((x.on w).any fun ran => decide (ran.1 = result ∧ p ran.2)) <| by
    simp only [Option.any_eq_true, decide_eq_true_eq]
    constructor
    · rintro ⟨⟨_, after⟩, ran, rfl, holds⟩
      exact ⟨after, ran, holds⟩
    · rintro ⟨after, ran, holds⟩
      exact ⟨_, ran, rfl, holds⟩

instance {result : Except Error α} [DecidableEq (Except Error α)] : Decidable (∃ after, x.on w = some (result, after)) :=
  decidable_of_iff (∃ after, x.on w = some (result, after) ∧ True) (by simp only [and_true])

instance {p : Error → World → Prop} [∀ e, DecidablePred (p e)] :
    Decidable (∃ e after, x.on w = some (.error e, after) ∧ p e after) :=
  decidable_of_iff ((x.on w).any fun ran =>
      ran.1.casesOn (motive := fun _ => Bool) (fun e => decide (p e ran.2)) fun _ => false) <| by
    rw [Option.any_eq_true]
    constructor
    · rintro ⟨⟨_ | _, after⟩, ran, holds⟩
      · exact ⟨_, after, ran, of_decide_eq_true holds⟩
      · cases holds
    · rintro ⟨e, after, ran, holds⟩
      exact ⟨_, ran, decide_eq_true holds⟩

end Decided

end Run

/-- A way to compare a world with a later one. -/
class WorldOrder (R : World → World → Prop) : Prop where
  refl : ∀ w, R w w
  trans : ∀ {w middle after}, R w middle → R middle after → R w after

/-- Nothing happens to the world. -/
def Unchanged (w after : World) : Prop := after = w

instance : WorldOrder Unchanged where
  refl _ := rfl
  trans first second := second.trans first

namespace Run

/-- The world left behind, by an answer or by an error, is related to the world before. Errors ask for no goals but
the given ones. -/
def Within (R : World → World → Prop) (x : Run α) (goals : Goal → Prop := fun _ => True) : Prop :=
  ∀ w, x.Ends w (fun _ after => R w after) (fun e after => R w after ∧ e.AsksFor goals)

theorem Within.left (kept : x.Within R goals) (ran : x.on w = some (result, after)) : R w after := by
  have ends := kept w
  cases result with
  | ok a => exact ends.answer ran
  | error e => exact (ends.error ran).1

theorem within_of_worlds (ends : ∀ w, x.Ends w (fun _ after => R w after) (fun _ after => R w after)) : x.Within R :=
  fun w => (ends w).mono (fun _ _ kept => kept) (fun _ _ kept => ⟨kept, fun _ _ => trivial⟩)

theorem Within.worlds (kept : x.Within R goals) (w : World) :
    x.Ends w (fun _ after => R w after) (fun _ after => R w after) :=
  (kept w).mono (fun _ _ kept => kept) (fun _ _ failed => failed.1)

theorem Within.anyGoals (kept : x.Within R goals) : x.Within R := within_of_worlds kept.worlds

theorem Within.weaken (kept : x.Within R goals) (weaker : ∀ w after, R w after → S w after) : x.Within S goals :=
  fun w => (kept w).mono (fun _ after => weaker w after) (fun _ after failed => ⟨weaker w after failed.1, failed.2⟩)

/-- The steps of a computation that are related one by one are related as a whole. -/
theorem Ends.sequel [WorldOrder R] (kept : x.Within R goals) (next : ∀ a middle, R w middle →
      (f a).Ends middle (fun _ after => R middle after) (fun e after => R middle after ∧ e.AsksFor goals)) :
    (x >>= f).Ends w (fun _ after => R w after) (fun e after => R w after ∧ e.AsksFor goals) := by
  rw [ends_bind]
  refine (kept w).mono (fun a middle first => ?_) (fun _ _ first => first)
  exact (next a middle first).mono (fun _ _ rest => WorldOrder.trans first rest)
    (fun _ _ rest => ⟨WorldOrder.trans first rest.1, rest.2⟩)

theorem within_exhausted : (exhausted : Run α).Within R goals := fun _ => trivial

theorem within_modify (kept : ∀ w, R w (change w)) : (modify change : Run Unit).Within R goals := kept

theorem within_map {f : α → β} (kept : x.Within R goals) : (f <$> x).Within R goals :=
  fun w => ends_map.mpr (kept w)

theorem within_discard (kept : x.Within R goals) : (discard x).Within R goals :=
  fun w => ends_map.mpr (kept w)

theorem within_outcome (kept : x.Within R goals) : x.outcome.Within R goals' :=
  fun w => ends_outcome.mpr (kept.worlds w)

theorem within_ite [Decidable p] (first : x.Within R goals) (second : y.Within R goals) :
    (if p then x else y).Within R goals := by
  split
  · exact first
  · exact second

/-- A property of computations that reading the world and computing one after the other keeps. -/
structure Sequences (K : (α : Type) → Run α → Prop) : Prop where
  pure : ∀ {α : Type} (a : α), K α (pure a)
  get : K World get
  bind : ∀ {α β : Type} {x : Run α} {f : α → Run β}, K α x → (∀ a, K β (f a)) → K β (x >>= f)

/-- So do raising and catching errors. Errors ask for no goals but the given ones. -/
structure Composes (K : (α : Type) → Run α → Prop) (goals : Goal → Prop) : Prop extends Sequences K where
  raise : ∀ {α : Type} {e : Error}, e.AsksFor goals → K α (throw e)
  /-- What is caught asks for nothing else than the computation did. -/
  caught : ∀ {α β : Type} {x : Run α} {f : Except Error α → Run β}, K α x →
    (∀ result, (∀ e, result = .error e → e.AsksFor goals) → K β (f result)) → K β (x.outcome >>= f)

namespace Composes

variable (steps : Composes K goals)
include steps

theorem plain (plain : e.missingGoal? = none) : K α (throw e) := steps.raise (.plain plain)

theorem fault (fault : Fault) (position : Option Position) : K α (Run.fault fault position) := steps.plain rfl

end Composes

namespace Sequences

variable (steps : Sequences K)
include steps

theorem read (view : World → α) : K α (do return view (← MonadState.get)) :=
  steps.bind steps.get fun _ => steps.pure _

theorem arena : K Arena Run.arena := steps.read (·.arena)

theorem record (id : ClassId) : K ClassRecord (Run.record id) := steps.read (·.arena.get id)

theorem fullName (id : ClassId) : K String (Run.fullName id) := steps.read (·.arena.fullName id)

theorem typeName (type : Ty) : K String (Run.typeName type) := steps.read (·.arena.typeName type)

theorem isRoot (id : ClassId) : K Bool (Run.isRoot id) := steps.read (·.isRoot id)

omit steps in
theorem ite (_ : Sequences K) [Decidable p] {x y : Run α} (first : K α x) (second : K α y) :
    K α (if p then x else y) := by
  split
  · exact first
  · exact second

theorem map {x : Run α} {f : α → β} (once : K α x) : K β (f <$> x) := by
  exact steps.bind once fun _ => steps.pure _

theorem forM {f : ι → Run PUnit} {items : List ι} (each : ∀ a ∈ items, K PUnit (f a)) : K PUnit (items.forM f) := by
  induction items with
  | nil => exact steps.pure _
  | cons a rest ih => exact steps.bind (each a (by simp)) fun _ => ih fun b member => each b (by simp [member])

theorem mapM {f : ι → Run β} {items : List ι} (each : ∀ a ∈ items, K β (f a)) :
    K (List β) (items.mapM f) := by
  induction items with
  | nil => exact steps.pure _
  | cons a rest ih =>
    rw [List.mapM_cons]
    refine steps.bind (each a (by simp)) fun b => ?_
    exact steps.bind (ih fun c member => each c (by simp [member])) fun bs => steps.pure _

theorem anyOf {items : List ι} (each : ∀ a ∈ items, K Bool (test a)) : K Bool (anyOf test items) := by
  induction items with
  | nil => exact steps.pure _
  | cons a rest ih =>
    refine steps.bind (each a (by simp)) fun b => steps.ite (steps.pure _) ?_
    exact ih fun c member => each c (by simp [member])

theorem allOf {items : List ι} (each : ∀ a ∈ items, K Bool (test a)) : K Bool (allOf test items) := by
  induction items with
  | nil => exact steps.pure _
  | cons a rest ih =>
    refine steps.bind (each a (by simp)) fun b => steps.ite ?_ (steps.pure _)
    exact ih fun c member => each c (by simp [member])

end Sequences

/-- Whatever comes out is an answer, and the world is as it was. -/
abbrev Idle (x : Run α) (w : World) : Prop := x.Ends w (fun _ after => after = w) fun _ _ => False

theorem idle_bind (first : x.Idle w) (rest : ∀ a, (f a).Idle w) : (x >>= f).Idle w := by
  refine ends_bind.mpr (first.mono ?_ (fun _ _ => False.elim))
  rintro a after rfl
  exact rest a

theorem idle_sequences (w : World) : Sequences fun _ x => x.Idle w := ⟨fun _ => ends_pure.mpr rfl, ends_get.mpr rfl, idle_bind⟩

section Within

variable [WorldOrder R]

theorem within_pure (a : α) : (pure a : Run α).Within R goals := fun w => WorldOrder.refl w

theorem within_raise (asks : e.AsksFor goals) : (throw e : Run α).Within R goals :=
  fun w => ⟨WorldOrder.refl w, asks⟩

theorem within_throw (e : Error) : (throw e : Run α).Within R := within_raise fun _ _ => trivial

theorem within_plain (plain : e.missingGoal? = none) : (throw e : Run α).Within R goals :=
  within_raise (.plain plain)

theorem within_fault (fault : Fault) (position : Option Position) :
    (Run.fault fault position : Run α).Within R goals := within_plain rfl

theorem within_get : (get : Run World).Within R goals := fun w => WorldOrder.refl w

theorem within_arena : Run.arena.Within R goals := fun w => WorldOrder.refl w

theorem within_record (id : ClassId) : (Run.record id).Within R goals := fun w => WorldOrder.refl w

theorem within_fullName (id : ClassId) : (fullName id).Within R goals := fun w => WorldOrder.refl w

theorem within_typeName (type : Ty) : (typeName type).Within R goals := fun w => WorldOrder.refl w

theorem within_isRoot (id : ClassId) : (isRoot id).Within R goals := fun w => WorldOrder.refl w

theorem within_isInterface (id : ClassId) : (isInterface id).Within R goals := fun w => WorldOrder.refl w

theorem within_check (name : String) : (Run.check name).Within R goals := fun w => WorldOrder.refl w

theorem within_bind (first : x.Within R goals) (rest : ∀ a, (f a).Within R goals) : (x >>= f).Within R goals :=
  fun _ => Ends.sequel first fun a middle _ => rest a middle

end Within

/-- Whatever world a computation starts from, its answers satisfy `ok` and its errors `bad`. -/
def Meets (ok : α → Prop) (bad : Error → Prop) (x : Run α) : Prop :=
  ∀ w, x.Ends w (fun a _ => ok a) (fun e _ => bad e)

section Meets

theorem meets_trivial (x : Run α) : x.Meets (fun _ => True) (fun _ => True) :=
  fun _ => ends_of_outcomes (fun _ _ _ => trivial) (fun _ _ _ => trivial)

theorem Meets.mono (meets : x.Meets ok bad) (weaker : ∀ a, ok a → ok' a)
    (weakerBad : ∀ e, bad e → bad' e) : x.Meets ok' bad' :=
  fun w => (meets w).mono (fun a _ => weaker a) (fun e _ => weakerBad e)

theorem meets_pure (holds : ok a) : (pure a : Run α).Meets ok bad := fun _ => holds

theorem meets_throw (holds : bad e) : (throw e : Run α).Meets ok bad := fun _ => holds

theorem meets_fault {fault : Fault}
    (holds : bad (.semantic fault position)) : (Run.fault fault position : Run α).Meets ok bad := fun _ => holds

theorem meets_bind (first : x.Meets ok bad) (rest : ∀ a, ok a → (f a).Meets good bad) : (x >>= f).Meets good bad := by
  intro w
  rw [ends_bind]
  exact (first w).mono (fun a middle holds => rest a holds middle) (fun _ _ failed => failed)

theorem meets_bind_last (rest : ∀ a, (f a).Meets good (fun _ => True)) : (x >>= f).Meets good (fun _ => True) :=
  meets_bind (meets_trivial x) fun a _ => rest a

theorem meets_ite [Decidable p] (first : x.Meets ok bad) (second : y.Meets ok bad) :
    (if p then x else y).Meets ok bad := by
  split
  · exact first
  · exact second

theorem meets_mapM {ok : β → Prop} (meets : ∀ a ∈ items, (f a).Meets ok bad) :
    (items.mapM f).Meets (fun bs => ∀ b ∈ bs, ok b) bad := by
  induction items with
  | nil => exact meets_pure (by simp)
  | cons a rest ih =>
    rw [List.mapM_cons]
    refine meets_bind (meets a (by simp)) fun b first => ?_
    refine meets_bind (ih fun c member => meets c (by simp [member])) fun bs others => meets_pure ?_
    simpa using ⟨first, others⟩

theorem Within.meets (kept : x.Within R goals) : x.Meets (fun _ => True) (·.AsksFor goals) :=
  fun w => (kept w).mono (fun _ _ _ => trivial) (fun _ _ failed => failed.2)

theorem meets_outcome (meets : x.Meets ok bad) :
    x.outcome.Meets (fun result => ∀ e, result = .error e → bad e) worse := by
  refine fun w => ends_outcome.mpr ((meets w).mono (fun _ _ _ => nofun) (fun e _ failed => ?_))
  rintro _ ⟨⟩
  exact failed

theorem within_bind_meets [WorldOrder R] (first : x.Within R goals) (meets : x.Meets ok bad)
    (rest : ∀ a, ok a → (f a).Within R goals) : (x >>= f).Within R goals := by
  intro w
  rw [ends_bind]
  refine ((first w).and (meets w)).mono ?_ (fun _ _ failed => failed.1)
  rintro a middle ⟨earlier, holds⟩
  exact (rest a holds middle).mono (fun _ _ later => WorldOrder.trans earlier later)
    (fun _ _ later => ⟨WorldOrder.trans earlier later.1, later.2⟩)

theorem within_caught [WorldOrder R] {f : Except Error α → Run β} (first : x.Within R goals)
    (rest : ∀ result, (∀ e, result = .error e → e.AsksFor goals) → (f result).Within R goals) :
    (x.outcome >>= f).Within R goals := by
  have asks : x.outcome.Meets _ fun _ => True := meets_outcome first.meets
  exact within_bind_meets (within_outcome first) asks rest

theorem within_composes [WorldOrder R] : Composes (fun _ x => x.Within R goals) goals :=
  ⟨⟨within_pure, within_get, within_bind⟩, within_raise, within_caught⟩

section Lists

variable [WorldOrder R]

theorem within_forM {f : α → Run PUnit} (kept : ∀ a ∈ items, (f a).Within R goals) : (items.forM f).Within R goals :=
  within_composes.forM kept

theorem within_mapM (kept : ∀ a ∈ items, (f a).Within R goals) :
    (items.mapM f).Within R goals := within_composes.mapM kept

theorem within_optionMapM {item : Option α} (kept : ∀ a ∈ item, (f a).Within R goals) :
    (item.mapM f).Within R goals := by
  cases item with
  | none => exact within_pure _
  | some a => exact within_map (kept a rfl)

theorem within_anyOf (kept : ∀ a ∈ items, (test a).Within R goals) : (anyOf test items).Within R goals :=
  within_composes.anyOf kept

theorem within_allOf (kept : ∀ a ∈ items, (test a).Within R goals) : (allOf test items).Within R goals :=
  within_composes.allOf kept

theorem within_keep (kept : ∀ a ∈ items, (test a).Within R goals) : (keep test items).Within R goals := by
  induction items with
  | nil => exact within_pure _
  | cons a rest ih =>
    have tail := ih fun c member => kept c (by simp [member])
    refine within_bind (kept a (by simp)) fun b => within_ite ?_ tail
    exact within_bind tail fun _ => within_pure _

end Lists

theorem Within.thenAt {good : β → World → Prop} {bad : Error → World → Prop}
    (same : x.Within Unchanged) (meets : x.Meets ok (fun _ => True)) (next : ∀ a, ok a → (f a).Ends w good bad)
    (failed : ∀ e, bad e w) : (x >>= f).Ends w good bad := by
  rw [ends_bind]
  refine ((same.worlds w).and (meets w)).mono ?_ ?_
  · rintro a _ ⟨rfl, holds⟩
    exact next a holds
  · rintro e _ ⟨rfl, _⟩
    exact failed e

end Meets

end Run

namespace Scoped

variable {f : α → Scoped β}

/-- What a computation in a scope comes to. -/
def on (x : Scoped α) (s : Scope) (w : World) : Option ((Except Error α × Scope) × World) :=
  StateT.run (ExceptT.run x) s w

/-- As for computations on a world alone; both conditions also see the scope left behind. -/
def Ends (x : Scoped α) (s : Scope) (w : World) (ok : α → Scope → World → Prop)
    (bad : Error → Scope → World → Prop) : Prop :=
  match x.on s w with
  | none => True
  | some ((.ok a, s), after) => ok a s after
  | some ((.error e, s), after) => bad e s after

section Rules

variable {ok : β → Scope → World → Prop} {x : Scoped α}

@[simp] theorem ends_pure : (pure a : Scoped β).Ends s w ok bad ↔ ok a s w := Iff.rfl

@[simp] theorem ends_throw : (throw e : Scoped β).Ends s w ok bad ↔ bad e s w := Iff.rfl

@[simp] theorem ends_getScope {ok : Scope → Scope → World → Prop} :
    (getThe Scope : Scoped Scope).Ends s w ok bad ↔ ok s s w := Iff.rfl

@[simp] theorem ends_getWorld {ok : World → Scope → World → Prop} :
    (getThe World : Scoped World).Ends s w ok bad ↔ ok w s w := Iff.rfl

@[simp] theorem ends_modifyScope {ok : Unit → Scope → World → Prop} {change : Scope → Scope} :
    (modifyThe Scope change : Scoped Unit).Ends s w ok bad ↔ ok () (change s) w := Iff.rfl

@[simp] theorem ends_currentClass {ok : Option ClassId → Scope → World → Prop} :
    currentClass?.Ends s w ok bad ↔ ok s.currentClass? s w := Iff.rfl

theorem on_bind (x : Scoped α) (f : α → Scoped β) :
    (x >>= f).on s w = match x.on s w with
      | none => none
      | some ((.ok a, s), after) => (f a).on s after
      | some ((.error e, s), after) => some ((.error e, s), after) := by
  unfold on
  simp only [bind, ExceptT.bind, ExceptT.run, ExceptT.mk, StateT.run, StateT.bind]
  cases x s w with
  | none => rfl
  | some p => obtain ⟨⟨_ | _, s⟩, after⟩ := p <;> rfl

@[simp] theorem ends_bind :
    (x >>= f).Ends s w ok bad ↔ x.Ends s w (fun a s after => (f a).Ends s after ok bad) bad := by
  unfold Ends
  rw [on_bind]
  cases x.on s w with
  | none => rfl
  | some p => obtain ⟨⟨_ | _, s⟩, after⟩ := p <;> rfl

@[simp] theorem ends_map {f : α → β} :
    (f <$> x).Ends s w ok bad ↔ x.Ends s w (fun a s after => ok (f a) s after) bad := by
  rw [← bind_pure_comp, ends_bind]
  rfl

theorem on_lift (x : Run α) : (liftM x : Scoped α).on s w = (x.on w).map fun p => ((p.1, s), p.2) := by
  change (x w).bind _ = (x w).map _
  cases x w with
  | none => rfl
  | some p => rfl

@[simp] theorem ends_lift {x : Run β} : (liftM x : Scoped β).Ends s w ok bad ↔
      x.Ends w (fun a after => ok a s after) (fun e after => bad e s after) := by
  unfold Ends Run.Ends
  rw [on_lift]
  cases x.on w with
  | none => rfl
  | some p => obtain ⟨_ | _, after⟩ := p <;> rfl

theorem on_outcome (x : Scoped α) : x.outcome.on s w = (x.on s w).map fun p => ((.ok p.1.1, p.1.2), p.2) := by
  change (x s w).bind _ = (x s w).map _
  cases x s w with
  | none => rfl
  | some p => rfl

@[simp] theorem ends_outcome {ok : Except Error α → Scope → World → Prop} : x.outcome.Ends s w ok bad ↔
      x.Ends s w (fun a s after => ok (.ok a) s after) (fun e s after => ok (.error e) s after) := by
  unfold Ends
  rw [on_outcome]
  cases x.on s w with
  | none => rfl
  | some p => obtain ⟨⟨_ | _, s⟩, after⟩ := p <;> rfl

theorem lift_outcome (x : Run α) : (liftM x.outcome : Scoped (Except Error α)) = (liftM x : Scoped α).outcome := by
  have same (s : Scope) (w : World) : (liftM x.outcome : Scoped (Except Error α)).on s w = (liftM x : Scoped α).outcome.on s w := by
    rw [on_lift, on_outcome, on_lift, Run.on_outcome, Option.map_map, Option.map_map]
    rfl
  exact funext fun s => funext fun w => same s w

theorem on_runIn (x : Scoped β) : (x.runIn s).on w = (x.on s w).map fun p => (.ok p.1, p.2) := by
  unfold Run.on on runIn
  simp only [ExceptT.run, ExceptT.lift, ExceptT.mk, StateT.run, Functor.map, StateT.map]
  cases x s w with
  | none => rfl
  | some p => rfl

theorem ends_within {x : Scoped β} {ok : β → World → Prop} {bad : Error → World → Prop} :
    (x.within s).Ends w ok bad ↔ x.Ends s w (fun a _ after => ok a after) (fun e _ after => bad e after) := by
  unfold within
  rw [Run.ends_bind]
  unfold Ends Run.Ends
  rw [on_runIn]
  cases x.on s w with
  | none => rfl
  | some p => obtain ⟨⟨_ | _, s⟩, after⟩ := p <;> rfl

end Rules

theorem Ends.mono {x : Scoped α} {ok ok' : α → Scope → World → Prop}
    (holds : x.Ends s w ok bad) (weaker : ∀ a s after, ok a s after → ok' a s after)
    (weakerBad : ∀ e s after, bad e s after → bad' e s after) : x.Ends s w ok' bad' := by
  unfold Ends at *
  cases h : x.on s w with
  | none => trivial
  | some p =>
    obtain ⟨⟨result, s⟩, after⟩ := p
    rw [h] at holds
    cases result with
    | ok a => exact weaker a s after holds
    | error e => exact weakerBad e s after holds

theorem Ends.answer {x : Scoped α} {ok : α → Scope → World → Prop}
    (holds : x.Ends s w ok bad) (answered : x.on s w = some ((.ok a, last), after)) : ok a last after := by
  unfold Ends at holds
  rwa [answered] at holds

/-- The world left behind is related to the world before, whatever becomes of the scope. -/
def Within (R : World → World → Prop) (x : Scoped α) (goals : Goal → Prop := fun _ => True) : Prop :=
  ∀ s w, x.Ends s w (fun _ _ after => R w after) (fun e _ after => R w after ∧ e.AsksFor goals)

theorem Within.inScope {x : Scoped α} (kept : x.Within R goals) (s : Scope) : (x.within s).Within R goals :=
  fun w => ends_within.mpr (kept s w)

theorem within_bind_answers [WorldOrder R] {x : Scoped α}
    (first : ∀ s w, x.Ends s w (fun a _ after => R w after ∧ ok a) (fun e _ after => R w after ∧ e.AsksFor goals))
    (rest : ∀ a, ok a → (f a).Within R goals) : (x >>= f).Within R goals := by
  intro s w
  rw [ends_bind]
  refine (first s w).mono (fun a s middle earlier => ?_) (fun _ _ _ earlier => earlier)
  exact (rest a earlier.2 s middle).mono (fun _ _ _ later => WorldOrder.trans earlier.1 later)
    (fun _ _ _ later => ⟨WorldOrder.trans earlier.1 later.1, later.2⟩)

/-- Whatever scope and world a computation starts from, its answers satisfy `ok`. -/
def Answers (ok : α → Prop) (x : Scoped α) : Prop := ∀ s w, x.Ends s w (fun a _ _ => ok a) (fun _ _ _ => True)

theorem answers_trivial (x : Scoped α) : x.Answers (fun _ => True) := by
  intro s w
  unfold Ends
  split <;> trivial

theorem answers_pure (holds : ok a) : (pure a : Scoped α).Answers ok := fun _ _ => holds

theorem answers_lift (meets : x.Meets ok (fun _ => True)) :
    (liftM x : Scoped α).Answers ok := fun _ w => ends_lift.mpr (meets w)

theorem answers_bind {x : Scoped α} (first : x.Answers ok)
    (rest : ∀ a, ok a → (f a).Answers good) : (x >>= f).Answers good := by
  intro s w
  rw [ends_bind]
  exact (first s w).mono (fun a s middle holds => rest a holds s middle) (fun _ _ _ failed => failed)

theorem answers_mapM {ok : β → Prop} (answers : ∀ a ∈ items, (f a).Answers ok) :
    (items.mapM f).Answers fun bs => ∀ b ∈ bs, ok b := by
  induction items with
  | nil => exact answers_pure (by simp)
  | cons a rest ih =>
    rw [List.mapM_cons]
    refine answers_bind (answers a (by simp)) fun b first => ?_
    refine answers_bind (ih fun c member => answers c (by simp [member])) fun bs others => answers_pure ?_
    simpa using ⟨first, others⟩

theorem Answers.inScope {x : Scoped α} (answers : x.Answers ok) (s : Scope) :
    (x.within s).Meets ok (fun _ => True) := fun w => ends_within.mpr (answers s w)

end Scoped

-- From here on the rules above are the only way in; unfolding would run the computation itself.
attribute [irreducible] Run.Ends Scoped.Ends

end ClassUniverse
