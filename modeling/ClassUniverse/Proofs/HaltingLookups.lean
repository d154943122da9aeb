import ClassUniverse.Proofs.SourceOnly
import ClassUniverse.Proofs.Subtyping

/-! Look-ups in sessions over sources come to an end. Walks through the hierarchy visit no class twice, or follow
supertypes that close no cycle; either way a loader that is deep enough has steps left. -/
namespace ClassUniverse

open Run

/-- A world over sources with a limited number of classes. -/
structure World.Limited (u : Universe) (limit : Nat) (w : World) : Prop extends w.SourceOnly u where
  size : w.arena.size ≤ limit

/-- The computation only looks, and comes to an end. -/
abbrev Run.Calm (u : Universe) (limit : Nat) (x : Run α) : Prop := x.Steady (World.Limited u limit) World.Looks

abbrev Run.Stops (u : Universe) (limit : Nat) (x : Run α) (w : World) (good : α → World → Prop) : Prop :=
  x.Finishes (World.Limited u limit) World.Looks w good

abbrev Scoped.Calm (u : Universe) (limit : Nat) (x : Scoped α) : Prop :=
  x.Steady (World.Limited u limit) World.Looks

/-- The loader finds names, ensures stages, and has steps for a walk past all supertypes of all classes. -/
structure Loader.Ready (l : Loader) (u : Universe) (limit : Nat) : Prop where
  find : ∀ name, (l.find name).Calm u limit
  ensure : ∀ id stage, (l.ensure id stage).Calm u limit
  ample : limit * u.width + limit + 1 < l.depth

section Limits

variable {id : ClassId} {w : World}

theorem SourceKept.limited (kept : SourceKept u w after) : Kept (World.Limited u limit) World.Looks w after := by
  intro holds
  obtain ⟨sourced, looks⟩ := kept holds.toSourceOnly
  exact ⟨⟨sourced, looks.size_eq ▸ holds.size⟩, looks⟩

theorem Run.Steady.calm {x : Run α} (steady : x.Looks u) : x.Calm u limit :=
  steady.weaken (fun _ holds => holds.toSourceOnly) fun _ _ holds later looks =>
    ⟨⟨later, looks.size_eq ▸ holds.size⟩, looks⟩

theorem Run.calm_modify (kept : ∀ w, SourceKept u w (change w)) :
    (modify change : Run Unit).Calm u limit := steady_modify fun w => (kept w).limited

theorem Loader.ready_ofDepth {depth : Nat} (ample : limit * u.width + limit + 3 < depth) :
    (Loader.ofDepth depth).Ready u limit := by
  obtain ⟨depth, rfl⟩ : ∃ smaller, depth = smaller + 3 := ⟨depth - 3, by omega⟩
  refine ⟨fun name => (find_steady (depth + 2) name).calm, fun id stage => (ensure_steady depth id stage).calm, ?_⟩
  change _ < depth + 2
  omega

/-- The ids below the limit. -/
def classesBelow (limit : Nat) : List ClassId := (List.range limit).map ClassId.mk

theorem mem_classesBelow (small : id.index < limit) : id ∈ classesBelow limit :=
  List.mem_map.mpr ⟨id.index, List.mem_range.mpr small, rfl⟩

theorem remaining_classes (limit : Nat) : remaining (classesBelow limit) [] = limit := by
  rw [remaining_nil, classesBelow, List.length_map, List.length_range]

theorem World.Limited.supertypes_absent (holds : w.Limited u limit)
    (large : ¬ id.index < limit) : (w.arena.get id).supertypes = [] := by
  have outside : w.arena.size ≤ id.index := Nat.le_trans holds.size (Nat.le_of_not_lt large)
  rw [w.arena.get_absent outside]
  rfl

/-- Visiting a class pays for its supertypes. -/
theorem World.Limited.pays (holds : w.Limited u limit) {seen later above : List ClassId}
    (fresh : id ∉ seen) (visited : id ∈ later) (more : ∀ other ∈ seen, other ∈ later)
    (few : above.length ≤ (w.arena.get id).supertypes.length) :
    above.length + remaining (classesBelow limit) later * u.width ≤ remaining (classesBelow limit) seen * u.width := by
  by_cases small : id.index < limit
  · have fewer := remaining_visit (mem_classesBelow small) fresh visited more
    have wide := Nat.le_trans few (holds.width id)
    have product := Nat.mul_le_mul_right u.width (Nat.succ_le_of_lt fewer)
    rw [Nat.succ_mul] at product
    omega
  · rw [holds.supertypes_absent small, List.length_nil] at few
    have product := Nat.mul_le_mul_right u.width (remaining_mono (classesBelow limit) more)
    omega

end Limits

namespace Loader

variable {l : Loader}

section Staged

variable (ready : l.Ready u limit)
include ready

theorem view_finishes (id : ClassId) (stage : Stage) (view : ClassRecord → α) (holds : w.Limited u limit) : (do
      l.ensure id stage
      return view (← Run.record id) : Run α).Stops u limit w
        fun found after => found = view (after.arena.get id) := by
  refine (ready.ensure id stage w holds).bind fun _ middle holds _ _ => ?_
  apply finishes_read rfl
  exact finishes_pure holds rfl

theorem superType_finishes (id : ClassId) (holds : w.Limited u limit) :
    (l.superType id).Stops u limit w fun found _ => found = (w.arena.get id).superType :=
  (view_finishes ready id _ (·.superType) holds).mono fun _ _ _ looks same => same.trans (looks.superType id)

theorem interfaces_finishes (id : ClassId) (holds : w.Limited u limit) :
    (l.interfaces id).Stops u limit w fun found _ => found = (w.arena.get id).interfaces :=
  (view_finishes ready id _ (·.interfaces) holds).mono fun _ _ _ looks same => same.trans (looks.interfaces id)

theorem supertypes_finishes (id : ClassId) (holds : w.Limited u limit) :
    (l.supertypes id).Stops u limit w fun found _ => found = (w.arena.get id).supertypes :=
  (view_finishes ready id _ (·.supertypes) holds).mono fun _ _ _ looks same => same.trans (looks.supertypes id)

theorem Ready.steps : l.LoadsBy (fun _ x => x.Calm u limit) fun _ => True :=
  { steady_composes with find := ready.find, stage := fun id stage _ => ready.ensure id stage }

end Staged

/-- Only classes are followed upward. -/
theorem subtypeBy_finishes {inherits : ClassId → ClassId → Run Bool} (holds : w.Limited u limit)
    (climbs : ∀ parent, type = .cls parent → ∀ middle, middle.Limited u limit → w.Looks middle →
      (inherits parent ancestor).Stops u limit middle fun _ _ => True) :
    (Ty.subtypeBy inherits type (.cls ancestor)).Stops u limit w fun _ _ => True := by
  refine (steady_composes.requireCanonical type w holds).bind fun _ first holds early _ => ?_
  refine (steady_composes.requireCanonical (.cls ancestor) first holds).bind fun _ second holds late _ => ?_
  refine finishes_ite (fun _ => finishes_pure holds trivial) fun _ => ?_
  cases type with
  | cls parent =>
    refine finishes_ite (fun _ => finishes_pure holds trivial) fun _ => ?_
    exact climbs parent rfl second holds (WorldOrder.trans early late)
  | array base =>
    apply finishes_read rfl
    exact finishes_pure holds trivial
  | _ => exact finishes_pure holds trivial

/-- The classes that were passed all inherit from the one that is reached, so none of them is met again. -/
theorem inheritsWithin_finishes (ready : l.Ready u limit)
    (passed : List ClassId) (holds : w.Limited u limit) (below : ∀ id ∈ passed, w.arena.Inherits id child)
    (apart : passed.Nodup) (ample : limit < steps + passed.length) :
    (l.inheritsWithin steps child ancestor).Stops u limit w fun _ _ => True := by
  induction steps generalizing child passed w with
  | zero =>
    have inside (id : ClassId) (member : id ∈ passed) : id.index < w.arena.size := by
      refine Nat.lt_of_not_le fun outside => ?_
      obtain ⟨type, listed, _⟩ := Arena.inherits_iff.mp (below id member)
      simp [w.arena.get_absent outside, ClassRecord.supertypes] at listed
    have bound := Nat.le_trans (Arena.length_le_size apart inside) holds.size
    omega
  | succ steps ih =>
    have fresh : child ∉ passed := fun member => holds.acyclic child (below child member)
    have climbs (types : List Ty) (listed : ∀ type ∈ types, type ∈ (w.arena.get child).supertypes) (middle : World)
        (between : middle.Limited u limit) (looks : w.Looks middle) :
        (anyOf (fun type => Ty.subtypeBy (l.inheritsWithin steps) type (.cls ancestor)) types).Stops u limit middle
          fun _ _ => True := by
      refine finishes_anyOf types between fun type member here holds further => subtypeBy_finishes holds ?_
      rintro parent rfl last holds furthest
      have looks : w.Looks last := WorldOrder.trans looks (WorldOrder.trans further furthest)
      have direct : last.arena.Inherits child parent :=
        looks.inherits_iff.mpr (Arena.inherits_iff.mpr ⟨_, listed _ member, parent, rfl, .inl rfl⟩)
      refine ih (child :: passed) holds ?_ (List.nodup_cons.mpr ⟨fresh, apart⟩) ?_
      · intro id member
        rcases List.mem_cons.mp member with rfl | member
        · exact direct
        · exact Relation.TransGen.trans (looks.inherits_iff.mpr (below id member)) direct
      · rw [List.length_cons]
        omega
    have viaInterfaces (middle : World) (between : middle.Limited u limit) (looks : w.Looks middle) :
        (l.interfaces child >>= anyOf fun type => Ty.subtypeBy (l.inheritsWithin steps) type (.cls ancestor)).Stops u limit
          middle fun _ _ => True := by
      refine (interfaces_finishes ready child between).bind fun types last holds later same => ?_
      refine climbs types (fun type member => ?_) last holds (WorldOrder.trans looks later)
      rw [same, looks.interfaces] at member
      exact List.mem_append_right _ member
    apply finishes_read rfl
    refine finishes_ite (fun _ => finishes_pure holds trivial) fun _ => ?_
    apply finishes_read rfl
    refine finishes_ite (fun _ => viaInterfaces w holds (WorldOrder.refl w)) fun _ => ?_
    apply finishes_read rfl
    refine finishes_ite (fun _ => finishes_pure holds trivial) fun _ => ?_
    refine (superType_finishes ready child holds).bind fun found middle between looks same => ?_
    have listed (type : Ty) (member : type ∈ found.toList) : type ∈ (w.arena.get child).supertypes := by
      rw [same] at member
      exact List.mem_append_left _ member
    refine (climbs _ listed middle between looks).bind fun answer last holds later _ => ?_
    refine finishes_ite (fun _ => finishes_pure holds trivial) fun _ => ?_
    exact viaInterfaces last holds (WorldOrder.trans looks later)

theorem Ready.climbs (ready : l.Ready u limit) : l.ClimbsBy (fun _ x => x.Calm u limit) fun _ => True := by
  refine { ready.steps with inherits := fun child ancestor w holds => ?_ }
  have ample := ready.ample
  refine inheritsWithin_finishes ready [] holds (by simp) List.nodup_nil ?_
  omega

/-- What one search has visited the next ones need not visit again. -/
theorem collect_finishes {start : List ClassId}
    (searches : ∀ visited, (∀ id ∈ start, id ∈ visited) → ∀ id w, w.Limited u limit →
      (search visited id).Stops u limit w fun result _ => ∀ id ∈ visited, id ∈ result.2)
    (ids : List ClassId) (found : Inherited) (visited : List ClassId) (holds : w.Limited u limit)
    (more : ∀ id ∈ start, id ∈ visited) :
    (Inherited.collect search ids found visited).Stops u limit w fun result _ => ∀ id ∈ visited, id ∈ result.2 := by
  induction ids generalizing found visited w with
  | nil => exact finishes_pure holds fun _ member => member
  | cons id rest ih =>
    refine (searches visited more id w holds).bind fun result middle holds _ kept => ?_
    obtain ⟨answer, further⟩ := result
    have more (other : ClassId) (member : other ∈ start) : other ∈ further := kept other (more other member)
    have next (found : Inherited) : (Inherited.collect search rest found further).Stops u limit middle
        fun result _ => ∀ id ∈ visited, id ∈ result.2 :=
      (ih found further holds more).mono fun _ _ _ _ later other member => later other (kept other member)
    split
    · rename_i same
      cases same
      exact next _
    · rename_i same
      cases same
      split
      · exact next _
      · exact next _
      · exact next _
      · exact finishes_pure holds kept

theorem decide_calm (found : Inherited) (name : String) (id : ClassId) : (found.decide name id).Calm u limit := by
  refine steady_bind reads_arena.steady fun arena => ?_
  split <;> exact steady_pure _

section Lookups

variable (ready : l.Ready u limit)
include ready

/-- Each level visits one more class, and a class that does not exist has nothing above it. -/
theorem searchMember_finishes (name : String) (accessor : Option ClassId)
    (visited : List ClassId) (id : ClassId) (ample : remaining (classesBelow limit) visited < steps)
    (holds : w.Limited u limit) :
    (l.searchMember name (l.visibleMember (l.declaredMember name) accessor) steps visited id).Stops u limit w
      fun result _ => ∀ other ∈ visited, other ∈ result.2 := by
  induction steps generalizing visited id w with
  | zero => omega
  | succ steps ih =>
    have grown (other : ClassId) (member : other ∈ visited) : other ∈ id :: visited := List.mem_cons_of_mem id member
    refine finishes_ite (fun _ => ?_) fun absent => ?_
    · apply finishes_read rfl
      exact finishes_pure holds fun _ member => member
    have fresh : id ∉ visited := by simpa using absent
    refine (steady_outcome (ready.climbs.visibleMember name accessor id) w holds).bind fun found first holds _ _ => ?_
    split
    · exact finishes_pure holds grown
    · exact finishes_pure holds grown
    refine (supertypes_finishes ready id holds).outcome.bind fun supers second holds looks same => ?_
    split
    · exact finishes_pure holds grown
    rename_i types
    have collected : (Inherited.collect
        (l.searchMember name (l.visibleMember (l.declaredMember name) accessor) steps)
        (types.filterMap Ty.class?) {} (id :: visited)).Stops u limit second
          fun result _ => ∀ other ∈ id :: visited, other ∈ result.2 := by
      by_cases small : id.index < limit
      · have fewer := remaining_visit (mem_classesBelow small) fresh List.mem_cons_self grown
        refine collect_finishes (fun further more other w holds => ih further other ?_ holds) _ _ _ holds fun _ m => m
        have bound := remaining_mono (classesBelow limit) more
        omega
      · have none : types = [] := by
          rw [same types rfl, ← looks.supertypes]
          exact holds.supertypes_absent small
        rw [none]
        exact finishes_pure holds fun _ member => member
    refine collected.bind fun result last holds _ kept => ?_
    split
    · exact finishes_pure holds fun other member => kept other (grown other member)
    · refine (decide_calm _ name id last holds).bind fun _ _ holds _ _ => ?_
      exact finishes_pure holds fun other member => kept other (grown other member)

theorem memberClass_calm (id : ClassId) (name : String) (accessor : Option ClassId) :
    (l.memberClass id name accessor).Calm u limit := by
  refine steady_ite ?searched (steady_bind (steady_fault _ _) fun _ => ?searched)
  intro w holds
  have ample := ready.ample
  have enough : remaining (classesBelow limit) [] < l.depth := by
    rw [remaining_classes]
    omega
  refine (searchMember_finishes ready name accessor [] id enough holds).bind fun result _ holds _ _ => ?_
  split
  · exact finishes_pure holds trivial
  · exact finishes_throw _ holds

theorem Ready.searches : l.SearchesBy (fun _ x => x.Calm u limit) fun _ => True := by
  refine { ready.climbs with memberClass := memberClass_calm ready, remembered := fun id name => ?_ }
  have noted (key : MemoKey) (name : String) (entry : Entry) : (modifyMemo key (·.insert name entry)).Calm u limit :=
    calm_modify fun w => SourceKept.of_same rfl rfl rfl rfl rfl
  exact ready.climbs.rememberedMember noted (memberClass_calm ready id name none)

/-- What is pending, and what the classes not yet seen can make pending, leaves a step. -/
theorem classNamesWithin_finishes
    (names : ClassNames) (budget : pending.length + remaining (classesBelow limit) seen * u.width < steps)
    (holds : w.Limited u limit) : (l.classNamesWithin steps seen names pending).Stops u limit w fun _ _ => True := by
  induction steps generalizing seen names pending w with
  | zero => omega
  | succ steps ih =>
    cases pending with
    | nil => exact finishes_pure holds trivial
    | cons id pending =>
      rw [List.length_cons] at budget
      refine finishes_ite (fun _ => ih names (by omega) holds) fun absent => ?_
      have fresh : id ∉ seen := by simpa using absent
      refine (ready.ensure id _ w holds).bind fun _ first holds _ _ => ?_
      apply finishes_read rfl
      refine (supertypes_finishes ready id holds).bind fun types second between looks same => ?_
      have few : (types.filterMap Ty.class?).length ≤ (first.arena.get id).supertypes.length := by
        rw [← same]
        exact List.length_filterMap_le Ty.class? types
      have account := holds.pays fresh List.mem_cons_self (fun _ => List.mem_cons_of_mem id) few
      refine ih _ ?_ between
      rw [List.length_append]
      omega

theorem Ready.resolves : l.ResolvesBy (fun _ x => x.Calm u limit) fun _ => True := by
  have free (w : World) (caches : Assoc Slot Layers) : Kept (World.Limited u limit) World.Looks w { w with caches } :=
    (SourceKept.of_caches w caches).limited
  refine { ready.searches with
    root := ready.searches.object fun _ => calm_modify fun _ => SourceKept.of_same rfl rfl rfl rfl rfl
    imported := ready.steps.findImported fun _ _ => calm_modify fun _ => SourceKept.of_same rfl rfl rfl rfl rfl
    packages := (steady_fillsCache free .session).packageExists steady_composes.knowsPackage
    classNames := fun id w holds => ?_ }
  have ample := ready.ample
  refine classNamesWithin_finishes ready _ ?_ holds
  rw [remaining_classes, List.length_singleton]
  omega

/-- Nothing is above a class that does not exist, and no other class is visited twice. -/
theorem implementingWithin_finishes (id : ClassId) (m : Method) (holds : w.Limited u limit)
    (ample : (if from?.isSome then 1 else 0) + remaining (classesBelow limit) seen < steps) :
    (l.implementingWithin id m steps seen from?).Stops u limit w fun _ _ => True := by
  induction steps generalizing seen from? w with
  | zero => omega
  | succ steps ih =>
    cases from? with
    | none => exact finishes_pure holds trivial
    | some current =>
      simp only [Option.isSome_some, if_true] at ample
      refine finishes_ite (fun _ => finishes_pure holds trivial) fun absent => ?_
      have fresh : current ∉ seen := by simpa using absent
      refine (ready.steps.methodsNamed current m.name w holds).bind fun found first holds _ _ => ?_
      refine (ready.climbs.firstImplementing id m found first holds).bind fun found second holds _ _ => ?_
      split
      · exact finishes_pure holds trivial
      refine finishes_ite (fun _ => finishes_pure holds trivial) fun _ => ?_
      refine (superType_finishes ready current holds).bind fun found last between _ same => ih between ?_
      have more (other : ClassId) (member : other ∈ seen) : other ∈ current :: seen := List.mem_cons_of_mem _ member
      by_cases small : current.index < limit
      · have fewer := remaining_visit (mem_classesBelow small) fresh List.mem_cons_self more
        split <;> omega
      · have none := holds.supertypes_absent small
        simp only [ClassRecord.supertypes, List.append_eq_nil_iff, Option.toList_eq_nil_iff] at none
        have fewer := remaining_mono (classesBelow limit) more
        simp only [same, none.1, Option.bind_none, Option.isSome_none, Bool.false_eq_true, if_false]
        omega

theorem abstractSourcesWithin_finishes
    (budget : pending.length + remaining (classesBelow limit) found * u.width < steps) (holds : w.Limited u limit) :
    (l.abstractSourcesWithin steps found pending).Stops u limit w fun _ _ => True := by
  induction steps generalizing found pending w with
  | zero => omega
  | succ steps ih =>
    cases pending with
    | nil => exact finishes_pure holds trivial
    | cons id pending =>
      rw [List.length_cons] at budget
      refine finishes_ite (fun _ => ih (by omega) holds) fun absent => ?_
      have fresh : id ∉ found := by simpa using absent
      refine (interfaces_finishes ready id holds).bind fun interfaces first between looks listed => ?_
      refine (superType_finishes ready id between).bind fun superType second between further above => ?_
      apply finishes_read rfl
      refine ih ?_ between
      have few : (interfaces.filterMap Ty.class? ++ ((superType.bind Ty.class?).filter fun id =>
          (second.arena.get id).flags.isAbstract).toList).length ≤ (w.arena.get id).supertypes.length := by
        have listed : (interfaces.filterMap Ty.class?).length ≤ (w.arena.get id).interfaces.length := by
          rw [← listed]
          exact List.length_filterMap_le Ty.class? interfaces
        have above : ((superType.bind Ty.class?).filter fun id =>
            (second.arena.get id).flags.isAbstract).toList.length ≤ (w.arena.get id).superType.toList.length := by
          rw [← looks.superType, ← above]
          cases superType <;> simp [Option.length_toList_le]
        simp only [ClassRecord.supertypes, List.length_append]
        omega
      have visited : id ∈ found ++ [id] := List.mem_append_right found List.mem_cons_self
      have account := holds.pays fresh visited (fun _ => List.mem_append_left [id]) few
      rw [List.length_append]
      omega

theorem checkConformance_calm (id : ClassId) : (l.checkConformance id).Calm u limit := by
  have ample := ready.ample
  refine ready.climbs.checkConformance (fun id w holds => ?_) (fun id m w holds => ?_) id
  · refine abstractSourcesWithin_finishes ready ?_ holds
    rw [remaining_classes, List.length_singleton]
    omega
  · refine implementingWithin_finishes ready id m holds ?_
    rw [remaining_classes, Option.isSome_some, if_pos rfl]
    omega

end Lookups

end Loader

end ClassUniverse
