import ClassUniverse.Proofs.Outcome

/-! Invariants of computations: a condition that holds on, a relation to the world before, and what the
answers are like. -/
namespace ClassUniverse

open Run

variable {x : Run α} {id : ClassId} {f : α → Run β}

/-- No relation to the world before. -/
def Anything (_ _ : World) : Prop := True

instance : WorldOrder Anything where
  refl _ := trivial
  trans _ _ := trivial

/-- What satisfies the condition still does so later on, and has only grown. -/
def Kept (P : World → Prop) (G : World → World → Prop) (w after : World) : Prop := P w → P after ∧ G w after

section Kept

variable {Q : World → Prop}

instance [WorldOrder G] : WorldOrder (Kept P G) where
  refl w := fun holds => ⟨holds, WorldOrder.refl w⟩
  trans := by
    intro w middle after first second holds
    obtain ⟨between, grown⟩ := first holds
    obtain ⟨holds, further⟩ := second between
    exact ⟨holds, WorldOrder.trans grown further⟩

/-- A further condition that growth does not undo may be assumed as well. -/
theorem Kept.also (kept : Kept P G w after) (stable : ∀ {w after}, G w after → Q w → Q after) :
    Kept (fun w => P w ∧ Q w) G w after := by
  intro ⟨holds, further⟩
  obtain ⟨holds, grown⟩ := kept holds
  exact ⟨⟨holds, stable grown further⟩, grown⟩

theorem Run.Within.also (kept : x.Within (Kept P G)) (stable : ∀ {w after}, G w after → Q w → Q after) :
    x.Within (Kept (fun w => P w ∧ Q w) G) :=
  kept.weaken fun _ _ kept => kept.also stable

theorem Run.Within.ends (kept : x.Within (Kept P G)) (holds : P w) :
    x.Ends w (fun _ after => P after ∧ G w after) (fun _ after => P after ∧ G w after) :=
  (kept w).mono (fun _ _ kept => kept holds) (fun _ _ failed => failed.1 holds)

theorem Run.within_of_ends
    (ends : ∀ w, P w → x.Ends w (fun _ after => P after ∧ G w after) (fun _ after => P after ∧ G w after)) :
    x.Within (Kept P G) := by
  refine within_of_worlds fun w => ?_
  by_cases holds : P w
  · exact (ends w holds).mono (fun _ _ grown _ => grown) (fun _ _ grown _ => grown)
  · exact ends_of_outcomes (fun _ _ _ given => absurd given holds) (fun _ _ _ given => absurd given holds)

/-- Two relations at once. -/
def Both (G H : World → World → Prop) (w after : World) : Prop := G w after ∧ H w after

instance {H : World → World → Prop} [WorldOrder G] [WorldOrder H] : WorldOrder (Both G H) where
  refl w := ⟨WorldOrder.refl w, WorldOrder.refl w⟩
  trans first second := ⟨WorldOrder.trans first.1 second.1, WorldOrder.trans first.2 second.2⟩

theorem Kept.both (first : Kept P G w after) (second : Kept Q H w after) :
    Kept (fun w => P w ∧ Q w) (Both G H) w after := by
  intro ⟨holds, further⟩
  obtain ⟨holds, grown⟩ := first holds
  obtain ⟨further, also_⟩ := second further
  exact ⟨⟨holds, further⟩, grown, also_⟩

theorem Run.Within.both (first : x.Within (Kept P G)) (second : x.Within (Kept Q H)) :
    x.Within (Kept (fun w => P w ∧ Q w) (Both G H)) := by
  refine within_of_worlds fun w => ((first.worlds w).and (second.worlds w)).mono ?_ ?_
  · exact fun _ _ kept => kept.1.both kept.2
  · exact fun _ _ kept => kept.1.both kept.2

theorem Run.Within.alongside (kept : x.Within (Kept P G)) (related : x.Within H) : x.Within (Kept P (Both G H)) := by
  refine within_of_worlds fun w => ((kept.worlds w).and (related.worlds w)).mono ?_ ?_
  · exact fun _ _ both holds => ⟨(both.1 holds).1, (both.1 holds).2, both.2⟩
  · exact fun _ _ both holds => ⟨(both.1 holds).1, (both.1 holds).2, both.2⟩

end Kept

namespace Run

variable {items : List α}

/-- The condition holds on, the world has only grown, and an answer satisfies `good`. -/
def Gives (x : Run α) (P : World → Prop) (G : World → World → Prop) (w : World) (good : α → World → Prop) : Prop :=
  x.Ends w (fun a after => (P after ∧ G w after) ∧ good a after) (fun _ after => P after ∧ G w after)

theorem Gives.mono {good better : α → World → Prop} (gives : x.Gives P G w good)
    (weaker : ∀ a after, P after → G w after → good a after → better a after) : x.Gives P G w better :=
  Ends.mono gives (fun a after reached => ⟨reached.1, weaker a after reached.1.1 reached.1.2 reached.2⟩)
    (fun _ _ failed => failed)

theorem Gives.coarsen {good : α → World → Prop} (gives : x.Gives P G w good) (coarser : ∀ after, G w after → H w after) :
    x.Gives P H w good :=
  Ends.mono gives (fun _ after reached => ⟨⟨reached.1.1, coarser after reached.1.2⟩, reached.2⟩)
    (fun _ after failed => ⟨failed.1, coarser after failed.2⟩)

theorem Within.gives (kept : x.Within (Kept P G)) (holds : P w) : x.Gives P G w fun _ _ => True :=
  (kept.ends holds).mono (fun _ _ reached => ⟨reached, trivial⟩) (fun _ _ failed => failed)

theorem within_of_gives {good : World → α → World → Prop} (gives : ∀ w, P w → x.Gives P G w (good w)) :
    x.Within (Kept P G) :=
  within_of_ends fun w holds => Ends.mono (gives w holds) (fun _ _ reached => reached.1) (fun _ _ failed => failed)

theorem Gives.outcome {good : α → World → Prop} (gives : x.Gives P G w good) :
    x.outcome.Gives P G w fun result after => ∀ a, result = .ok a → good a after := by
  refine ends_outcome.mpr (Ends.mono gives (fun a after reached => ?_) (fun e after failed => ?_))
  · refine ⟨reached.1, ?_⟩
    rintro _ ⟨⟩
    exact reached.2
  · exact ⟨failed, nofun⟩

/-- Two invariants at once, the answer being described by the first. -/
theorem Gives.both {good : α → World → Prop} (first : x.Gives P G w good)
    (second : x.Within (Kept Q H)) (further : Q w) : x.Gives (fun w => P w ∧ Q w) (Both G H) w good := by
  refine (Ends.and first (second.ends further)).mono ?_ ?_
  · rintro a after ⟨⟨⟨holds, grown⟩, answer⟩, also_, later⟩
    exact ⟨⟨⟨holds, also_⟩, grown, later⟩, answer⟩
  · rintro e after ⟨⟨holds, grown⟩, also_, later⟩
    exact ⟨⟨holds, also_⟩, grown, later⟩

theorem Gives.discard {good : α → World → Prop} (gives : x.Gives P G w good) :
    (discard x).Gives P G w fun _ _ => True := ends_discard.mpr (gives.mono fun _ _ _ _ _ => trivial)

theorem gives_ite [Decidable p] {good : α → World → Prop} (first : p → x.Gives P G w good)
    (second : ¬p → y.Gives P G w good) : (if p then x else y).Gives P G w good := by
  split
  · exact first ‹_›
  · exact second ‹_›

theorem gives_get {f : World → Run β} : (get >>= f).Gives P G w good ↔ (f w).Gives P G w good := by
  unfold Gives
  rw [ends_bind, ends_get]

theorem gives_arena {f : Arena → Run β} : (Run.arena >>= f).Gives P G w good ↔ (f w.arena).Gives P G w good := by
  unfold Gives
  rw [ends_bind, ends_arena]

theorem gives_record {f : ClassRecord → Run β} :
    (Run.record id >>= f).Gives P G w good ↔ (f (w.arena.get id)).Gives P G w good := by
  unfold Gives
  rw [ends_bind, ends_record]

theorem gives_isRoot {f : Bool → Run β} :
    (isRoot id >>= f).Gives P G w good ↔ (f (w.isRoot id)).Gives P G w good := by
  unfold Gives
  rw [ends_bind, ends_isRoot]

theorem gives_check {f : Option Named → Run β} :
    (Run.check name >>= f).Gives P G w good ↔ (f (w.system.check name)).Gives P G w good := by
  unfold Gives
  rw [ends_bind, ends_check]

variable [WorldOrder G]

theorem gives_pure {good : α → World → Prop} (holds : P w) (answer : good a w) :
    (pure a : Run α).Gives P G w good := ends_pure.mpr ⟨⟨holds, WorldOrder.refl w⟩, answer⟩

theorem gives_throw {good : α → World → Prop} (e : Error) (holds : P w) : (throw e : Run α).Gives P G w good :=
  ends_throw.mpr ⟨holds, WorldOrder.refl w⟩

theorem gives_throw_bind (e : Error) (holds : P w) : (throw e >>= f).Gives P G w good := by
  unfold Gives
  rw [ends_bind, ends_throw]
  exact ⟨holds, WorldOrder.refl w⟩

theorem gives_fault {good : α → World → Prop} {fault : Fault} (holds : P w) :
    (Run.fault fault position : Run α).Gives P G w good := ends_fault.mpr ⟨holds, WorldOrder.refl w⟩

theorem Gives.since {good : α → World → Prop} (grown : G w middle) (later : x.Gives P G middle good) :
    x.Ends middle (fun a after => (P after ∧ G w after) ∧ good a after) (fun _ after => P after ∧ G w after) := by
  refine Ends.mono later ?_ ?_
  · rintro a after ⟨⟨holds, further⟩, good⟩
    exact ⟨⟨holds, WorldOrder.trans grown further⟩, good⟩
  · rintro e after ⟨holds, further⟩
    exact ⟨holds, WorldOrder.trans grown further⟩

theorem Gives.bind (first : x.Gives P G w ok)
    (next : ∀ a middle, P middle → G w middle → ok a middle → (f a).Gives P G middle good) :
    (x >>= f).Gives P G w good := by
  unfold Gives
  rw [ends_bind]
  refine Ends.mono first (fun a middle reached => ?_) (fun _ _ failed => failed)
  obtain ⟨⟨holds, grown⟩, answered⟩ := reached
  exact (next a middle holds grown answered).since grown

theorem Within.andThenMeets (first : x.Within (Kept P G)) (meets : x.Meets ok (fun _ => True)) (holds : P w)
    (next : ∀ a middle, P middle → G w middle → ok a → (f a).Gives P G middle good) : (x >>= f).Gives P G w good := by
  have answered : x.Gives P G w fun a _ => ok a :=
    ((first.ends holds).and (meets w)).mono (fun _ _ reached => reached) (fun _ _ failed => failed.1)
  exact answered.bind next

theorem Within.andThen (first : x.Within (Kept P G)) (holds : P w)
    (next : ∀ a middle, P middle → G w middle → (f a).Gives P G middle good) : (x >>= f).Gives P G w good :=
  (first.gives holds).bind fun a middle holds grown _ => next a middle holds grown

theorem gives_forM {f : α → Run Unit}
    (gives : ∀ a ∈ items, ∀ w, P w → (f a).Gives P G w fun _ _ => True) (holds : P w) :
    (items.forM f).Gives P G w fun _ _ => True := by
  have kept : (items.forM f).Within (Kept P G) := within_forM fun a member => within_of_gives (gives a member)
  exact kept.gives holds

theorem gives_mapM (each : ∀ a ∈ items, ∀ w, P w → (f a).Gives P G w good)
    (lasting : ∀ {b w after}, G w after → good b w → good b after) (holds : P w) :
    (items.mapM f).Gives P G w fun bs after => ∀ b ∈ bs, good b after := by
  induction items generalizing w with
  | nil => exact gives_pure holds (by simp)
  | cons a rest ih =>
    rw [List.mapM_cons]
    refine (each a List.mem_cons_self w holds).bind fun b middle holds _ first => ?_
    refine (ih (fun c member => each c (List.mem_cons_of_mem _ member)) holds).bind fun bs last holds grown others => ?_
    refine gives_pure holds fun c member => ?_
    rcases List.mem_cons.mp member with rfl | member
    · exact lasting grown first
    · exact others c member

theorem gives_optionMapM {item : Option α} (each : ∀ a ∈ item, (f a).Gives P G w good)
    (holds : P w) : (item.mapM f).Gives P G w fun found after => ∀ b ∈ found, good b after := by
  cases item with
  | none => exact gives_pure holds nofun
  | some a =>
    refine ends_map.mpr (Ends.mono (each a rfl) (fun b after reached => ⟨reached.1, ?_⟩) (fun _ _ failed => failed))
    rintro _ ⟨⟩
    exact reached.2

end Run

namespace Run

variable
  {f : β → Run α} {items : List β}

/-- As `Gives`, and an error satisfies `bad`. -/
def Leaves (x : Run α) (P : World → Prop) (G : World → World → Prop) (w : World) (good : α → World → Prop)
    (bad : Error → World → Prop) : Prop :=
  x.Ends w (fun a after => (P after ∧ G w after) ∧ good a after) (fun e after => (P after ∧ G w after) ∧ bad e after)

theorem Leaves.mono (leaves : x.Leaves P G w good bad)
    (weaker : ∀ a after, P after → G w after → good a after → better a after)
    (weakerBad : ∀ e after, P after → G w after → bad e after → worse e after) : x.Leaves P G w better worse :=
  Ends.mono leaves (fun a after reached => ⟨reached.1, weaker a after reached.1.1 reached.1.2 reached.2⟩)
    (fun e after failed => ⟨failed.1, weakerBad e after failed.1.1 failed.1.2 failed.2⟩)

theorem Gives.leaves (gives : x.Gives P G w good) : x.Leaves P G w good fun _ _ => True :=
  Ends.mono gives (fun _ _ reached => reached) fun _ _ failed => ⟨failed, trivial⟩

theorem Leaves.gives (leaves : x.Leaves P G w good bad) : x.Gives P G w good :=
  Ends.mono leaves (fun _ _ reached => reached) fun _ _ failed => failed.1

theorem Within.asking (kept : x.Within (Kept P G) goals) (holds : P w) :
    x.Leaves P G w (fun _ _ => True) fun e _ => e.AsksFor goals :=
  (kept w).mono (fun _ _ kept => ⟨kept holds, trivial⟩) (fun _ _ failed => ⟨failed.1 holds, failed.2⟩)

theorem Leaves.outcome (leaves : x.Leaves P G w good bad) : x.outcome.Leaves P G w
      (fun result after => (∀ a, result = .ok a → good a after) ∧ ∀ e, result = .error e → bad e after)
      fun _ _ => False := by
  refine ends_outcome.mpr (Ends.mono leaves (fun a after reached => ?_) (fun e after failed => ?_))
  · refine ⟨reached.1, ?_, nofun⟩
    rintro _ ⟨⟩
    exact reached.2
  · refine ⟨failed.1, nofun, ?_⟩
    rintro _ ⟨⟩
    exact failed.2

theorem leaves_ite [Decidable p] (first : p → x.Leaves P G w good bad)
    (second : ¬p → y.Leaves P G w good bad) : (if p then x else y).Leaves P G w good bad := by
  split
  · exact first ‹_›
  · exact second ‹_›

theorem leaves_get {f : World → Run α} : (get >>= f).Leaves P G w good bad ↔ (f w).Leaves P G w good bad := by
  unfold Leaves
  rw [ends_bind, ends_get]

theorem leaves_record {f : ClassRecord → Run α} :
    (Run.record id >>= f).Leaves P G w good bad ↔ (f (w.arena.get id)).Leaves P G w good bad := by
  unfold Leaves
  rw [ends_bind, ends_record]

theorem leaves_modify {good : Unit → World → Prop} (kept : Kept P G w (change w)) (holds : P w)
    (answer : good () (change w)) : (modify change : Run Unit).Leaves P G w good bad :=
  ends_modify.mpr ⟨kept holds, answer⟩

theorem leaves_exhausted : (exhausted : Run α).Leaves P G w good bad := ends_exhausted.mpr trivial

variable [WorldOrder G]

theorem leaves_pure (holds : P w) (answer : good a w) : (pure a : Run α).Leaves P G w good bad :=
  ends_pure.mpr ⟨⟨holds, WorldOrder.refl w⟩, answer⟩

theorem leaves_throw (holds : P w) (failed : bad e w) : (throw e : Run α).Leaves P G w good bad :=
  ends_throw.mpr ⟨⟨holds, WorldOrder.refl w⟩, failed⟩

theorem Leaves.bind {x : Run β} (first : x.Leaves P G w ok bad)
    (next : ∀ b middle, P middle → G w middle → ok b middle → (f b).Leaves P G middle good bad) :
    (x >>= f).Leaves P G w good bad := by
  unfold Leaves
  rw [ends_bind]
  refine Ends.mono first (fun b middle reached => ?_) (fun _ _ failed => failed)
  obtain ⟨⟨holds, grown⟩, answered⟩ := reached
  refine Ends.mono (next b middle holds grown answered) ?_ ?_
  · exact fun _ _ later => ⟨⟨later.1.1, WorldOrder.trans grown later.1.2⟩, later.2⟩
  · exact fun _ _ later => ⟨⟨later.1.1, WorldOrder.trans grown later.1.2⟩, later.2⟩

theorem leaves_mapM (holds : P w)
    (each : ∀ b ∈ items, ∀ middle, P middle → (f b).Leaves P G middle (fun _ _ => True) bad) :
    (items.mapM f).Leaves P G w (fun _ _ => True) bad := by
  induction items generalizing w with
  | nil => exact leaves_pure holds trivial
  | cons b rest ih =>
    rw [List.mapM_cons]
    refine (each b List.mem_cons_self w holds).bind fun a middle holds _ _ => ?_
    refine (ih holds fun c member => each c (List.mem_cons_of_mem _ member)).bind fun _ _ holds _ _ => ?_
    exact leaves_pure holds trivial

/-- What one step achieves lasts through the others. -/
theorem leaves_forM {f : β → Run Unit} {done : β → World → Prop}
    (lasting : ∀ {b w after}, G w after → done b w → done b after)
    (each : ∀ b ∈ items, ∀ middle, P middle → G w middle → (f b).Leaves P G middle (fun _ after => done b after) bad)
    (holds : P w) : (items.forM f).Leaves P G w (fun _ after => ∀ b ∈ items, done b after) bad := by
  induction items generalizing w with
  | nil => exact leaves_pure holds (by simp)
  | cons b rest ih =>
    refine (each b List.mem_cons_self w holds (WorldOrder.refl w)).bind fun _ middle holds grown first => ?_
    have later (c) (member : c ∈ rest) (last) (holds : P last) (further : G middle last) :=
      each c (List.mem_cons_of_mem _ member) last holds (WorldOrder.trans grown further)
    refine (ih later holds).mono (fun _ after _ further others c member => ?_) (fun _ _ _ _ failed => failed)
    rcases List.mem_cons.mp member with rfl | member
    · exact lasting further first
    · exact others c member

end Run

end ClassUniverse
