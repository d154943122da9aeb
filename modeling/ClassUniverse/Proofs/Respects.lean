import ClassUniverse.Ancestor
import ClassUniverse.Encoding
import ClassUniverse.Proofs.Kept
import ClassUniverse.Proofs.LookupSteps

/-! Questions about classes change a world only through the loader they are given, through what they
remember, and through the root class. So a relation between worlds that these respect is respected by every
question, whether it is answered or fails. -/
namespace ClassUniverse

open Run

/-- What a loader does stays within the relation. Where not every goal may be asked for, the last stage is left out. -/
structure Loader.Loads (l : Loader) (R : World → World → Prop) (goals : Goal → Prop := fun _ => True) : Prop where
  find : ∀ name, (l.find name).Within R goals
  stage : ∀ id stage, (stage = .allMembersAdded → ∀ goal, goals goal) → (l.ensure id stage).Within R goals

/-- So do the member classes that are remembered. -/
structure Loader.Tracks (l : Loader) (R : World → World → Prop) (goals : Goal → Prop := fun _ => True) : Prop
    extends l.Loads R goals where
  remembered : ∀ id name, (l.rememberedMember id name).Within R goals

/-- So does the root class. -/
structure Loader.Rooted (l : Loader) (R : World → World → Prop) (goals : Goal → Prop := fun _ => True) : Prop
    extends l.Tracks R goals where
  root : l.object.Within R goals

/-- So does what imports and packages remember. -/
structure Loader.Respects (l : Loader) (R : World → World → Prop) (goals : Goal → Prop := fun _ => True) : Prop
    extends l.Rooted R goals where
  imported : ∀ key name, (ImportTable.find l key name).Within R goals
  packages : ∀ name, (System.packageExists name).Within R goals

theorem Loader.Loads.ensure {l : Loader} (sound : l.Loads R) (id : ClassId) (stage : Stage) :
    (l.ensure id stage).Within R := sound.stage id stage fun _ _ => trivial

section Coercions

variable {l : Loader} {R : World → World → Prop} {goals : Goal → Prop}

instance : Coe (l.Tracks R goals) (l.Loads R goals) := ⟨Loader.Tracks.toLoads⟩

instance : Coe (l.Rooted R goals) (l.Tracks R goals) := ⟨Loader.Rooted.toTracks⟩

instance : Coe (l.Respects R goals) (l.Rooted R goals) := ⟨Loader.Respects.toRooted⟩

end Coercions

section Weaker

variable {l : Loader} {R S G H : World → World → Prop} {goals : Goal → Prop} {P Q : World → Prop}

theorem Loader.Tracks.weaken (sound : l.Tracks R goals) (weaker : ∀ w after, R w after → S w after) :
    l.Tracks S goals where
  find name := (sound.find name).weaken weaker
  stage id stage open_ := (sound.stage id stage open_).weaken weaker
  remembered id name := (sound.remembered id name).weaken weaker

theorem Loader.Rooted.weaken (sound : l.Rooted R goals) (weaker : ∀ w after, R w after → S w after) :
    l.Rooted S goals where
  toTracks := sound.toTracks.weaken weaker
  root := sound.root.weaken weaker

theorem Loader.Respects.weaken (sound : l.Respects R goals) (weaker : ∀ w after, R w after → S w after) :
    l.Respects S goals where
  toRooted := sound.toRooted.weaken weaker
  imported key name := (sound.imported key name).weaken weaker
  packages name := (sound.packages name).weaken weaker

theorem Loader.Respects.also (sound : l.Respects (Kept P G))
    (stable : ∀ {w after}, G w after → Q w → Q after) : l.Respects (Kept (fun w => P w ∧ Q w) G) :=
  sound.weaken fun _ _ kept => kept.also stable

theorem Loader.Respects.both (first : l.Respects (Kept P G)) (second : l.Respects (Kept Q H)) :
    l.Respects (Kept (fun w => P w ∧ Q w) (Both G H)) where
  find name := (first.find name).both (second.find name)
  stage id stage _ := (first.ensure id stage).both (second.ensure id stage)
  remembered id name := (first.remembered id name).both (second.remembered id name)
  root := first.root.both second.root
  imported key name := (first.imported key name).both (second.imported key name)
  packages name := (first.packages name).both (second.packages name)

end Weaker

section Caches

variable {R : World → World → Prop} [WorldOrder R] {goals : Goal → Prop}

variable (free : ∀ w caches, R w { w with caches })
include free

theorem Run.within_fillsCache (slot : Slot) : FillsCache (fun _ x => x.Within R goals) goals slot :=
  { within_composes with
    setPackage := fun _ _ => within_modify fun w => free w _
    insert := fun _ _ => within_modify fun w => free w _
    addPackage := fun _ => within_modify fun w => free w _
    insertMiss := fun _ => within_modify fun w => free w _ }

theorem System.packageExists_within (name : String) : (packageExists name).Within R goals :=
  (within_fillsCache free .session).packageExists within_composes.knowsPackage name

theorem System.addNamed_within (name : String) (named : Named) : (System.addNamed name named).Within R goals :=
  (within_fillsCache free .session).addNamed within_composes.knowsPackage name named

theorem Cache.commit_within (slot : Slot) : (commit slot).Within R goals := by
  refine within_bind within_get fun _ => ?_
  split
  · exact within_modify fun w => free w _
  · exact within_fault _ _

theorem Cache.discard_within (slot : Slot) : (discard slot).Within R goals := by
  refine within_bind within_get fun _ => ?_
  split
  · exact within_modify fun w => free w _
  · exact within_fault _ _

end Caches

namespace Run

variable {R : World → World → Prop} [WorldOrder R] {goals : Goal → Prop}

theorem promotePrimitive_within (type : Ty) : (promotePrimitive type).Within R goals := by
  unfold promotePrimitive
  split
  · exact within_pure _
  · exact within_bind (within_typeName _) fun _ => within_plain rfl

theorem promote_within (type : Ty) : (promote type).Within R goals := within_map (promotePrimitive_within type)

theorem promoteBinary_within (a b : Ty) : (promoteBinary a b).Within R goals :=
  within_bind (promotePrimitive_within a) fun _ => within_bind (promotePrimitive_within b) fun _ => within_pure _

end Run

namespace Loader

variable {R : World → World → Prop} [WorldOrder R] {goals : Goal → Prop} {l : Loader}
  {visible : ClassId → Run (Option ClassId)} {search : Inherited.Search} {w : World}

theorem Loads.steps (sound : l.Loads R goals) : l.LoadsBy (fun _ x => x.Within R goals) goals :=
  { within_composes with find := sound.find, stage := sound.stage }

theorem subtypeBy_within {inherits : ClassId → ClassId → Run Bool} (kept : ∀ a b, (inherits a b).Within R goals)
    (a b : Ty) : (Ty.subtypeBy inherits a b).Within R goals := by
  refine within_bind (within_composes.requireCanonical a) fun _ => within_bind (within_composes.requireCanonical b) fun _ => ?_
  exact within_ite (within_pure _) (within_composes.descendsBy kept a b)

theorem inheritsWithin_within (sound : l.Loads R goals) (steps : Nat) (child ancestor : ClassId) :
    (l.inheritsWithin steps child ancestor).Within R goals := by
  induction steps generalizing child ancestor with
  | zero => exact within_exhausted
  | succ steps ih =>
    have reaches (type : Ty) : (Ty.subtypeBy (l.inheritsWithin steps) type (.cls ancestor)).Within R goals :=
      subtypeBy_within ih type _
    have viaInterfaces : (l.interfaces child >>= anyOf fun type =>
        Ty.subtypeBy (l.inheritsWithin steps) type (.cls ancestor)).Within R goals :=
      within_bind (sound.steps.interfaces child) fun _ => within_anyOf fun type _ => reaches type
    refine within_bind (within_isRoot _) fun _ => within_ite (within_pure _) ?_
    refine within_bind (within_isInterface _) fun _ => within_ite viaInterfaces ?_
    refine within_bind (within_isRoot _) fun _ => within_ite (within_pure _) ?_
    refine within_bind (sound.steps.superType child) fun _ => ?_
    exact within_bind (within_anyOf fun type _ => reaches type) fun _ => within_ite (within_pure _) viaInterfaces

theorem Loads.climbs (sound : l.Loads R goals) : l.ClimbsBy (fun _ x => x.Within R goals) goals :=
  { sound.steps with inherits := inheritsWithin_within sound _ }

theorem isSame_within (a b : Ty) : (l.isSame a b).Within R goals :=
  within_bind (within_composes.requireCanonical a) fun _ => within_bind (within_composes.requireCanonical b) fun _ => within_pure _

theorem isSubtype_within (sound : l.Loads R goals) (a b : Ty) : (l.isSubtype a b).Within R goals :=
  subtypeBy_within sound.climbs.inherits a b

section Searching

variable {P : World → Prop} {G : World → World → Prop} [WorldOrder G] {good : ClassId → World → Prop} {bad : Error → Prop}

/-- An answer is as it should be, or an error is. -/
def Reports (good : α → World → Prop) (bad : Error → Prop) : Except Error α → World → Prop
  | .ok a, w => good a w
  | .error e, _ => bad e

/-- So are the members collected; what is refused asks for nothing. -/
structure Collects (good : ClassId → World → Prop) (found : Inherited) (w : World) : Prop where
  members : ∀ m ∈ found.members, good m w
  refused : ∀ e, found.refused = some e → e.missingGoal? = none

variable (lasting : ∀ m w after, G w after → good m w → good m after)
include lasting

theorem collect_leaves (searches : ∀ visited id {w}, P w →
      (search visited id).Leaves P G w (fun result => Reports good bad result.1) fun _ _ => False)
    (ids : List ClassId) (found : Inherited) (visited : List ClassId) (holds : P w) (collects : Collects good found w) :
    (Inherited.collect search ids found visited).Leaves P G w (fun result => Reports (Collects good) bad result.1)
      fun _ _ => False := by
  induction ids generalizing found visited w with
  | nil => exact leaves_pure holds collects
  | cons id rest ih =>
    refine (searches visited id holds).bind fun result middle holds grown reported => ?_
    have before (m : ClassId) (member : m ∈ found.members) : good m middle := lasting _ _ _ grown (collects.members m member)
    split
    · rename_i member visited
      have new : good member middle := reported
      refine ih _ _ holds ⟨?_, ?_⟩ <;> unfold Inherited.add <;> split
      · exact before
      · exact List.forall_mem_append.mpr ⟨before, List.forall_mem_singleton.mpr new⟩
      · exact collects.refused
      · exact collects.refused
    · split
      · refine ih _ _ holds ⟨before, ?_⟩
        rintro _ ⟨⟩
        rfl
      · exact ih _ _ holds ⟨before, collects.refused⟩
      · exact ih _ _ holds ⟨before, collects.refused⟩
      · exact leaves_pure holds reported

variable (plain : ∀ e : Error, e.missingGoal? = none → bad e)
include plain

omit lasting in
theorem decide_leaves (name : String) (id : ClassId) (holds : P w) (collects : Collects good found w) :
    (found.decide name id).Leaves P G w (Reports good bad) fun _ _ => False := by
  refine leaves_get.mpr ?_
  split
  · refine leaves_pure holds (plain _ ?_)
    cases given : found.refused with
    | none => rfl
    | some e => exact collects.refused e given
  · rename_i member only
    exact leaves_pure holds (collects.members member (by simp [only]))
  · exact leaves_pure holds (plain _ rfl)

theorem searchMember_leaves (name : String)
    (sees : ∀ id {w}, P w → (visible id).Leaves P G w (fun member after => ∀ m ∈ member, good m after) fun e _ => bad e)
    (climbs : ∀ id {w}, P w → (l.supertypes id).Leaves P G w (fun _ _ => True) fun e _ => bad e)
    (steps : Nat) (visited : List ClassId) (id : ClassId) (holds : P w) :
    (l.searchMember name visible steps visited id).Leaves P G w (fun result => Reports good bad result.1)
      fun _ _ => False := by
  induction steps generalizing visited id w with
  | zero => exact leaves_exhausted
  | succ steps ih =>
    refine leaves_ite (fun _ => ?_) fun _ => ?_
    · exact leaves_get.mpr (leaves_pure holds (plain _ rfl))
    refine (sees id holds).outcome.bind fun found middle holds _ reported => ?_
    split
    · exact leaves_pure holds (reported.2 _ rfl)
    · exact leaves_pure holds (reported.1 _ rfl _ rfl)
    · refine (climbs id holds).outcome.bind fun supers last holds _ reported => ?_
      split
      · exact leaves_pure holds (reported.2 _ rfl)
      · refine (collect_leaves lasting (fun visited id _ holds => ih visited id holds) _ _ _ holds ⟨by simp, by simp⟩).bind
          fun collected later holds _ reported => ?_
        split
        · exact leaves_pure holds reported
        · refine (decide_leaves plain name id holds reported).bind fun _ _ holds _ reported => ?_
          exact leaves_pure holds reported

theorem memberClass_leaves (id : ClassId) (name : String) (accessor : Option ClassId)
    (sees : ∀ id {w}, P w → (l.visibleMember (l.declaredMember name) accessor id).Leaves P G w
      (fun member after => ∀ m ∈ member, good m after) fun e _ => bad e)
    (climbs : ∀ id {w}, P w → (l.supertypes id).Leaves P G w (fun _ _ => True) fun e _ => bad e) (holds : P w) :
    (l.memberClass id name accessor).Leaves P G w good fun e _ => bad e := by
  have searched := searchMember_leaves lasting plain name sees climbs l.depth [] id holds
  refine leaves_ite (fun _ => ?_) fun _ => ends_bind.mpr (ends_fault.mpr ⟨⟨holds, WorldOrder.refl w⟩, plain _ rfl⟩)
  refine (searched.mono (fun _ _ _ _ reported => reported) fun _ _ _ _ => False.elim).bind fun result middle holds _ reported => ?_
  split
  · exact leaves_pure holds reported
  · exact leaves_throw holds reported

end Searching

theorem memberClass_within (sound : l.Loads R goals) (id : ClassId) (name : String) (accessor : Option ClassId) :
    (l.memberClass id name accessor).Within R goals := by
  have kept {α : Type} {x : Run α} (kept : x.Within R goals) {w : World} :
      x.Leaves (fun _ => True) R w (fun _ _ => True) fun e _ => e.AsksFor goals :=
    (kept w).mono (fun _ _ kept => ⟨⟨trivial, kept⟩, trivial⟩) fun _ _ failed => ⟨⟨trivial, failed.1⟩, failed.2⟩
  refine fun w => Ends.mono (memberClass_leaves (P := fun _ => True) (G := R) (fun _ _ _ _ _ => trivial) (fun _ => .plain) id name
    accessor (fun id _ _ => ?_) (fun id _ _ => kept (sound.steps.supertypes id)) trivial) ?_ ?_
  · exact (kept (sound.climbs.visibleMember name accessor id)).mono (fun _ _ _ _ _ _ _ => trivial) fun _ _ _ _ asks => asks
  · exact fun _ _ found => found.1.2
  · exact fun _ _ failed => ⟨failed.1.2, failed.2⟩

theorem rememberedMember_within (sound : l.Loads R goals) (free : ∀ w memos, R w { w with memos }) (id : ClassId)
    (name : String) : (l.rememberedMember id name).Within R goals :=
  sound.climbs.rememberedMember (fun _ _ _ => within_modify fun w => free w _) (memberClass_within sound id name none)

theorem Tracks.searches (sound : l.Tracks R goals) : l.SearchesBy (fun _ x => x.Within R goals) goals :=
  { sound.climbs with memberClass := memberClass_within sound, remembered := sound.remembered }

theorem typeForName_within (sound : l.Tracks R goals) (written : String) : (l.typeForName written).Within R goals := by
  refine within_ite (within_pure _) ?_
  split
  · exact within_pure _
  · exact within_bind (sound.searches.classForName _) fun _ => within_pure _

theorem object_within (sound : l.Tracks R goals) (free : ∀ w root, R w { w with root }) : l.object.Within R goals :=
  sound.searches.object fun _ => within_modify fun w => free w _

theorem objectType_within (sound : l.Rooted R goals) : l.objectType.Within R goals :=
  within_bind sound.root fun _ => within_pure _

section Conversions

variable (sound : l.Respects R goals)
include sound

theorem classCast_within (a b : ClassId) : (l.classCast a b).Within R goals := by
  have down := isSubtype_within sound.toLoads (.cls a) (.cls b)
  have up := isSubtype_within sound.toLoads (.cls b) (.cls a)
  refine within_bind within_arena fun arena => ?_
  dsimp only
  split
  · exact within_bind down fun _ => within_ite (within_pure _) up
  · exact within_ite down (within_pure _)
  · exact within_ite up (within_pure _)
  · exact within_pure _

theorem castBetween_within (a b : Ty) : (l.castBetween a b).Within R goals := by
  induction a generalizing b with
  | array base ih =>
    cases b with
    | array other => exact within_ite (within_pure _) (within_ite (within_pure _) (ih other))
    | cls id => exact isSubtype_within sound _ _
    | _ => exact within_pure _
  | cls id =>
    cases b with
    | array base => exact isSubtype_within sound _ _
    | cls other => exact classCast_within sound id other
    | _ => exact within_pure _
  | _ => cases b <;> exact within_pure _

theorem isCastValid_within (a b : Ty) : (l.isCastValid a b).Within R goals := by
  refine within_bind (within_composes.requireCanonical a) fun _ => ?_
  exact within_bind (within_composes.requireCanonical b) fun _ => castBetween_within sound a b

theorem widensBetween_within (a b : Ty) : (l.widensBetween a b).Within R goals := by
  induction a generalizing b with
  | array base ih =>
    cases b with
    | array other => exact within_ite (within_pure _) (ih other)
    | _ => exact isSubtype_within sound _ _
  | cls id =>
    cases b with
    | cls other => exact isSubtype_within sound _ _
    | _ => exact within_pure _
  | _ => cases b <;> exact within_pure _

theorem isImplicitCastValid_within (a b : Ty) : (l.isImplicitCastValid a b).Within R goals := by
  refine within_bind (within_composes.requireCanonical a) fun _ => ?_
  exact within_bind (within_composes.requireCanonical b) fun _ => widensBetween_within sound a b

theorem superOf_within (type : Ty) : (l.superOf type).Within R goals := by
  unfold superOf
  split
  · refine within_bind (sound.steps.superType _) fun found => ?_
    split
    · exact within_pure _
    · exact objectType_within sound
  · exact objectType_within sound

theorem commonReference_within (kept : ∀ a b, (common a b).Within R goals) (a b : Ty) :
    (l.commonReference common a b).Within R goals := by
  refine within_bind (objectType_within sound) fun object => within_bind within_arena fun arena => ?_
  refine within_ite (within_pure _) (within_ite (within_pure _) (within_ite (within_pure _) ?_))
  refine within_bind (isSubtype_within sound a b) fun _ => within_ite (within_pure _) ?_
  refine within_bind (isSubtype_within sound b a) fun _ => within_ite (within_pure _) ?_
  refine within_bind (superOf_within sound a) fun _ => within_bind (kept _ _) fun _ => ?_
  exact within_bind (superOf_within sound b) fun _ => within_bind (kept _ _) fun _ => within_pure _

theorem commonAncestorWithin_within (steps : Nat) (a b : Ty) : (l.commonAncestorWithin steps a b).Within R goals := by
  induction steps generalizing a b with
  | zero => exact within_exhausted
  | succ steps ih =>
    have absent : (do throw (.noCommonAncestor (← typeName a) (← typeName b)) : Run Ty).Within R goals :=
      within_bind (within_typeName a) fun _ => within_bind (within_typeName b) fun _ => within_plain rfl
    refine within_bind (within_composes.requireCanonical a) fun _ => within_bind (within_composes.requireCanonical b) fun _ => ?_
    refine within_ite (within_pure _) ?_
    split
    · split
      · exact within_pure _
      · exact absent
    · exact within_ite (objectType_within sound) (within_bind (ih _ _) fun _ => within_pure _)
    · refine within_ite (within_pure _) (within_ite (within_pure _) (within_ite ?_ absent))
      exact commonReference_within sound ih a b

end Conversions

theorem encodeClass_within (sound : l.Respects R goals) (id : ClassId) : (l.encodeClass id).Within R goals := by
  refine within_bind within_get fun w => ?_
  split
  · exact within_fault _ _
  · refine within_bind (sound.steps.superType id) fun _ => within_bind (sound.steps.interfaces id) fun _ => ?_
    refine within_bind (sound.steps.view id _ (·.fields)) fun _ => within_bind (sound.steps.methods id) fun _ => ?_
    refine within_bind (sound.steps.view id _ (·.constructors)) fun _ => ?_
    refine within_bind (sound.steps.view id _ (·.members)) fun _ => ?_
    exact within_bind within_arena fun _ => within_pure _

theorem encode_within (sound : l.Respects R goals) (id : ClassId) : (l.encode id).Within R goals :=
  within_bind (encodeClass_within sound id) fun _ => within_pure _

end Loader

end ClassUniverse
