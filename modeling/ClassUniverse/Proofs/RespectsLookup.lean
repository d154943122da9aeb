import ClassUniverse.Proofs.Respects

/-! Look-ups of members, of imported names and of names in a scope respect what their loader respects. -/
namespace ClassUniverse

namespace Loader

open Run

variable {R : World → World → Prop} [WorldOrder R] {goals : Goal → Prop} {l : Loader}

section Declared

variable (sound : l.Respects R goals)
include sound

theorem knownClass_within (name : String) : (l.knownClass name).Within R goals := by
  refine within_caught (sound.searches.classForName name) fun found asks => ?_
  split
  · exact within_pure _
  · exact within_ite (within_pure _) (within_raise (asks _ rfl))

theorem knownClasses_within (names : List String) : (l.knownClasses names).Within R goals := by
  induction names with
  | nil => exact within_pure _
  | cons name rest ih =>
    exact within_bind (knownClass_within sound name) fun _ => within_bind ih fun _ => within_pure _

theorem directSupertypes_within (type : Ty) : (l.directSupertypes type).Within R goals := by
  unfold directSupertypes
  split
  · exact sound.steps.supertypes _
  · refine within_bind (objectType_within sound) fun _ => within_bind within_get fun _ => ?_
    exact within_bind (knownClasses_within sound _) fun _ => within_pure _
  · exact within_pure _

theorem declaredMethods_within (name : String) (type : Ty) : (l.declaredMethods name type).Within R goals := by
  unfold declaredMethods
  split
  · exact sound.steps.methodsNamed _ name
  · exact within_ite (within_bind (objectType_within sound) fun _ => within_pure _) (within_pure _)
  · exact within_pure _

theorem declaredField_within (name : String) (type : Ty) : (l.declaredField name type).Within R goals := by
  unfold declaredField
  split
  · exact sound.steps.fieldNamed _ name
  · exact within_ite (within_pure _) (within_pure _)
  · exact within_pure _

end Declared

section Fields

variable (sound : l.Respects R goals)
include sound

theorem fieldsWithin_within (name : String) (steps : Nat) (seen : List Ty) (found : List Field) (pending : List Ty) :
    (l.fieldsWithin name steps seen found pending).Within R goals := by
  induction steps generalizing seen found pending with
  | zero => exact within_exhausted
  | succ steps ih =>
    cases pending with
    | nil => exact within_pure _
    | cons type pending =>
      refine within_ite (ih _ _ _) (within_bind (declaredField_within sound name type) fun declared => ?_)
      split
      · exact ih _ _ _
      · exact within_bind (directSupertypes_within sound type) fun _ => ih _ _ _

theorem findField_within (container : Ty) (name : String) (accessor : Option ClassId) :
    (l.findField container name accessor).Within R goals := by
  refine within_bind (fieldsWithin_within sound name _ _ _ _) fun found => ?_
  split
  · exact within_bind (within_typeName _) fun _ => within_plain rfl
  · split
    · refine within_bind (sound.climbs.isAccessibleIn _ _ _) fun _ => within_ite (within_pure _) ?_
      exact within_bind (within_fullName _) fun _ => within_bind (within_plain rfl) fun _ => within_pure _
    · exact within_pure _
  · exact within_bind within_arena fun _ => within_plain rfl

end Fields

section Overloads

variable (sound : l.Respects R goals)
include sound

theorem callValid_within (p : Procedure) (args : List Ty) : (l.callValid p args).Within R goals := by
  exact within_ite (within_pure _) (within_allOf fun _ _ => isImplicitCastValid_within sound _ _)

theorem containerRelated_within (a b : Ty) : (l.containerRelated a b).Within R goals := by
  refine within_bind (isSubtype_within sound a b) fun _ => within_ite (within_pure _) ?_
  split
  · exact within_bind within_arena fun _ => within_pure _
  · exact within_pure _

theorem moreSpecific_within (p q : Procedure) : (l.moreSpecific p q).Within R goals :=
  within_bind (containerRelated_within sound _ _) fun _ => within_ite (callValid_within sound _ _) (within_pure _)

theorem strictlyMoreSpecific_within (p q : Procedure) : (l.strictlyMoreSpecific p q).Within R goals := by
  refine within_bind (moreSpecific_within sound p q) fun _ => within_ite ?_ (within_pure _)
  exact within_bind (moreSpecific_within sound q p) fun _ => within_pure _

theorem maximal_within (view : α → Procedure) (candidates : List α) : (l.maximal view candidates).Within R goals := by
  refine within_bind (within_keep fun candidate _ => ?_) fun _ => within_pure _
  refine within_bind (within_anyOf fun other _ => ?_) fun _ => within_pure _
  exact within_ite (within_pure _) (strictlyMoreSpecific_within sound _ _)

theorem select_within (kind : MemberKind) (view : α → Procedure) (name : String) (candidates : List α) :
    (l.select kind view name candidates).Within R goals := by
  refine within_bind (maximal_within sound view candidates) fun found => ?_
  split
  · exact within_fault _ _
  · exact within_pure _
  · exact within_bind within_arena fun _ => within_plain rfl

end Overloads

section Overriding

variable (sound : l.Respects R goals)
include sound

theorem overridesWithin_within (m : Method) (steps : Nat) (seen : List Ty) (from? : Option Ty) :
    (l.overridesWithin m steps seen from?).Within R goals := by
  induction steps generalizing seen from? with
  | zero => exact within_exhausted
  | succ steps ih =>
    cases from? with
    | none => exact within_pure _
    | some type =>
      have continued (found : List Method) (above : Option Ty) : (do
          return found ++ (← l.overridesWithin m steps (type :: seen) above) : Run (List Method)).Within R goals :=
        within_bind (ih _ _) fun _ => within_pure _
      refine within_ite (within_pure _) (within_bind (declaredMethods_within sound _ _) fun found => ?_)
      cases type with
      | cls id => exact within_bind (sound.steps.superType id) fun _ => continued _ _
      | array base => exact within_bind (within_map (objectType_within sound)) fun _ => continued _ _
      | _ => exact within_bind (within_pure _) fun _ => continued _ _

theorem overrides_within (m : Method) : (l.overrides m).Within R goals :=
  overridesWithin_within sound m _ _ _

theorem isUnchecked_within (type : Ty) : (l.isUnchecked type).Within R goals := by
  refine within_anyOf fun name _ => within_bind (knownClass_within sound name) fun found => ?_
  split
  · exact isSubtype_within sound _ _
  · exact within_pure _

theorem throwsSubset_within (p q : Procedure) : (l.throwsSubset p q).Within R goals := by
  refine within_allOf fun thrown _ => within_bind (isUnchecked_within sound thrown) fun _ => ?_
  exact within_ite (within_pure _) (within_anyOf fun allowed _ => isSubtype_within sound _ _)

theorem implementingWithin_within (id : ClassId) (m : Method) (steps : Nat) (seen : List ClassId)
    (from? : Option ClassId) : (l.implementingWithin id m steps seen from?).Within R goals := by
  induction steps generalizing seen from? with
  | zero => exact within_exhausted
  | succ steps ih =>
    cases from? with
    | none => exact within_pure _
    | some current =>
      refine within_ite (within_pure _) (within_bind (sound.steps.methodsNamed _ _) fun _ => ?_)
      refine within_bind (sound.climbs.firstImplementing id m _) fun found => ?_
      split
      · exact within_pure _
      · refine within_ite (within_pure _) ?_
        exact within_bind (sound.steps.superType current) fun _ => ih _ _

theorem findImplementing_within (id : ClassId) (m : Method) :
    (l.findImplementing id m).Within R goals := implementingWithin_within sound id m _ _ _

theorem abstractSourcesWithin_within (steps : Nat) (found pending : List ClassId) :
    (l.abstractSourcesWithin steps found pending).Within R goals := by
  induction steps generalizing found pending with
  | zero => exact within_exhausted
  | succ steps ih =>
    cases pending with
    | nil => exact within_pure _
    | cons id pending =>
      refine within_ite (ih _ _) (within_bind (sound.steps.interfaces id) fun _ => ?_)
      exact within_bind (sound.steps.superType id) fun _ => within_bind within_arena fun _ => ih _ _

theorem checkConformance_within (id : ClassId) : (l.checkConformance id).Within R goals :=
  sound.climbs.checkConformance (fun _ => abstractSourcesWithin_within sound _ _ _) (findImplementing_within sound) id

end Overriding

section Methods

variable (sound : l.Respects R goals)
include sound

theorem methodAccessible_within (container : Ty) (accessor : Option ClassId) (m : Method) :
    (l.methodAccessible container accessor m).Within R goals := by
  unfold methodAccessible
  split
  · exact sound.climbs.isAccessibleIn _ _ _
  · exact within_pure _

theorem sortMethods_within (container : Ty) (args : List Ty) (accessor : Option ClassId) (methods : List Method)
    (found : Candidates) : (l.sortMethods container args accessor methods found).Within R goals := by
  induction methods generalizing found with
  | nil => exact within_pure _
  | cons m rest ih =>
    refine within_bind (callValid_within sound _ _) fun _ => within_ite (ih _) ?_
    exact within_bind (methodAccessible_within sound _ _ _) fun _ => within_ite (ih _) (ih _)

theorem candidatesWithin_within (container : Ty) (name : String) (args : List Ty) (accessor : Option ClassId)
    (steps : Nat) (seen : List Ty) (found : Candidates) (pending : List Ty) :
    (l.candidatesWithin container name args accessor steps seen found pending).Within R goals := by
  induction steps generalizing seen found pending with
  | zero => exact within_exhausted
  | succ steps ih =>
    cases pending with
    | nil => exact within_pure _
    | cons type pending =>
      have expanded : (do
          let found ← l.sortMethods container args accessor (← l.declaredMethods name type) found
          l.candidatesWithin container name args accessor steps (type :: seen) found
            (pending ++ (← l.directSupertypes type)) : Run Candidates).Within R goals := by
        refine within_bind (declaredMethods_within sound _ _) fun _ => ?_
        refine within_bind (sortMethods_within sound _ _ _ _ _) fun _ => ?_
        exact within_bind (directSupertypes_within sound type) fun _ => ih _ _ _
      refine within_ite (ih _ _ _) ?_
      refine within_ite expanded ?_
      exact within_bind (within_typeName _) fun _ => within_bind (within_fault _ _) fun _ => expanded

theorem hideOverridden_within (inaccessible accessible : List Method) :
    (l.hideOverridden inaccessible accessible).Within R goals := by
  induction inaccessible generalizing accessible with
  | nil => exact within_pure _
  | cons m rest ih => exact within_bind (overrides_within sound m) fun _ => ih _

theorem findMethod_within (container : Ty) (name : String) (args : List Ty) (accessor : Option ClassId) :
    (l.findMethod container name args accessor).Within R goals := by
  refine within_bind (within_bind (candidatesWithin_within sound _ _ _ _ _ _ _ _) fun _ => hideOverridden_within sound _ _)
    fun acceptable => ?_
  split
  · exact within_bind within_arena fun _ => within_plain rfl
  · exact select_within sound _ _ _ _

theorem constructorAcceptable_within (args : List Ty) (accessor : Option ClassId) (c : Constructor) :
    (l.constructorAcceptable args accessor c).Within R goals := by
  refine within_bind (callValid_within sound _ _) fun _ => within_ite (within_pure _) ?_
  split
  · exact sound.climbs.isAccessible _ _
  · exact within_pure _

theorem findConstructor_within (id : ClassId) (args : List Ty) (accessor : Option ClassId) :
    (l.findConstructor id args accessor).Within R goals := by
  refine within_bind (sound.steps.view id _ (·.constructors)) fun _ => ?_
  refine within_bind (within_keep fun c _ => constructorAcceptable_within sound _ _ c) fun acceptable => ?_
  refine within_bind (within_record id) fun _ => ?_
  split
  · exact within_bind within_arena fun _ => within_plain rfl
  · exact select_within sound _ _ _ _

theorem hasMethodWithin_within (container : Ty) (name : String) (accessor : Option ClassId) (steps : Nat)
    (seen pending : List Ty) : (l.hasMethodWithin container name accessor steps seen pending).Within R goals := by
  induction steps generalizing seen pending with
  | zero => exact within_exhausted
  | succ steps ih =>
    cases pending with
    | nil => exact within_pure _
    | cons type pending =>
      refine within_ite (ih _ _) (within_bind (declaredMethods_within sound _ _) fun _ => ?_)
      refine within_bind (within_anyOf fun m _ => methodAccessible_within sound _ _ m) fun _ => ?_
      refine within_ite (within_pure _) ?_
      exact within_bind (directSupertypes_within sound type) fun _ => ih _ _

theorem hasMethodNamed_within (container : Ty) (name : String) (accessor : Option ClassId) :
    (l.hasMethodNamed container name accessor).Within R goals := hasMethodWithin_within sound _ _ _ _ _ _

end Methods

theorem findImported_within (sound : l.Loads R goals) (free : ∀ w imports, R w { w with imports }) (key : ImportKey)
    (name : String) : (ImportTable.find l key name).Within R goals :=
  sound.steps.findImported (fun _ _ => within_modify fun w => free w _) key name

/-- Where what is remembered outside the arena does not matter, it is enough that loading is respected. -/
theorem Loads.respects (sound : l.Loads R goals) (memos : ∀ w memos, R w { w with memos })
    (imports : ∀ w imports, R w { w with imports }) (root : ∀ w root, R w { w with root })
    (caches : ∀ w caches, R w { w with caches }) : l.Respects R goals := by
  have tracks : l.Tracks R goals := { sound with remembered := rememberedMember_within sound memos }
  exact { tracks with
    root := object_within tracks root
    imported := findImported_within sound imports
    packages := System.packageExists_within caches }

section Names

variable (sound : l.Respects R goals)
include sound

theorem classNamesWithin_within (steps : Nat) (seen : List ClassId) (names : ClassNames) (pending : List ClassId) :
    (l.classNamesWithin steps seen names pending).Within R goals := by
  induction steps generalizing seen names pending with
  | zero => exact within_exhausted
  | succ steps ih =>
    cases pending with
    | nil => exact within_pure _
    | cons id pending =>
      refine within_ite (ih _ _ _) (within_bind (sound.stage id _ nofun) fun _ => ?_)
      exact within_bind within_arena fun _ => within_bind (sound.steps.supertypes id) fun _ => ih _ _ _

theorem classNames_within (id : ClassId) : (l.classNames id).Within R goals :=
  classNamesWithin_within sound _ _ _ _

theorem Respects.resolves : l.ResolvesBy (fun _ x => x.Within R goals) goals :=
  { sound.searches, sound with classNames := classNames_within sound }

end Names

end Loader

theorem Scoped.within_composes [WorldOrder R] :
    Scoped.Composes (fun _ x => x.Within R goals) (fun _ x => x.Within R goals) goals where
  base := Run.within_composes
  pure _ := fun _ w => ends_pure.mpr (WorldOrder.refl w)
  raise asks := fun _ w => ends_throw.mpr ⟨WorldOrder.refl w, asks⟩
  getScope := fun _ w => ends_getScope.mpr (WorldOrder.refl w)
  getWorld := fun _ w => ends_getWorld.mpr (WorldOrder.refl w)
  named _ _ := fun _ w => ends_modifyScope.mpr (WorldOrder.refl w)
  lift kept := fun _ w => ends_lift.mpr (kept w)
  bind first rest := within_bind_answers
    (fun s w => (first s w).mono (fun _ _ _ kept => ⟨kept, trivial⟩) fun _ _ _ failed => failed) fun a _ => rest a
  caught first rest := by
    refine within_bind_answers (fun s w => ends_outcome.mpr ?_) rest
    refine (first s w).mono (fun _ _ _ kept => ⟨kept, nofun⟩) (fun e _ _ failed => ⟨failed.1, ?_⟩)
    rintro _ ⟨⟩
    exact failed.2

end ClassUniverse
