import ClassUniverse.Proofs.Outcome

/-! What holds of the steps of a look-up, and is kept when computations are composed, holds of the look-up. Walks through
the hierarchy count as steps here: whether they come to an end is a question of its own. -/
namespace ClassUniverse

open Run

variable {K : (α : Type) → Run α → Prop} {goals : Goal → Prop} {l : Loader} {α : Type}

/-! ## Caches -/

/-- Such a property that also holds of what is written to a cache. -/
structure Run.FillsCache (K : (α : Type) → Run α → Prop) (goals : Goal → Prop) (slot : Slot) : Prop
    extends Composes K goals where
  setPackage : ∀ name present, K Unit (modifyCache slot (·.setPackage name present))
  insert : ∀ name named, K Unit (modifyCache slot (·.insert name named))
  addPackage : ∀ package, K Unit (modifyCache slot (·.addPackage package))
  insertMiss : ∀ name, K Unit (modifyCache slot (·.insertMiss name))

namespace Run.FillsCache

variable {slot : Slot} (steps : FillsCache K goals slot) {backing : String → Run Bool}
include steps

section Packages

variable (known : ∀ name, K Bool (backing name)) (name : String)
include known name

theorem packageExists : K Bool (Cache.packageExists slot backing name) := by
  have remembered (present : Bool) : K Bool (do
      modifyCache slot (·.setPackage name present)
      return present) := steps.bind (steps.setPackage name present) fun _ => steps.pure _
  refine steps.bind steps.get fun _ => ?_
  dsimp only
  split
  · exact steps.pure _
  · exact steps.ite (steps.bind (steps.pure _) remembered) (steps.bind (known name) remembered)

theorem install (named : Named) : K Unit (Cache.install slot backing name named) := by
  have stored := steps.insert name named
  unfold Cache.install
  split
  · refine steps.bind (steps.packageExists known name) fun _ => steps.ite ?_ stored
    exact steps.bind (steps.record _) fun _ => steps.bind (steps.plain rfl) fun _ => stored
  · exact stored

theorem addNest (nest : List ClassId) : K Unit (Cache.addNest slot backing name nest) := by
  induction nest generalizing name with
  | nil => exact steps.pure _
  | cons id around ih =>
    refine steps.bind (steps.install known name _) fun _ => steps.bind steps.get fun _ => ?_
    dsimp only
    split
    · exact steps.bind (steps.addPackage _) fun _ => steps.ite (steps.insert _ _) (steps.pure _)
    · exact steps.ite (ih _) (steps.pure _)
    · exact steps.pure _

theorem addNamed (named : Named) : K Unit (Cache.addNamed slot backing name named) := by
  cases named with
  | cls id => exact steps.bind steps.arena fun _ => steps.addNest known name _
  | package package => exact steps.bind (steps.install known name _) fun _ => steps.addPackage _

end Packages

theorem find {behind : Backing} (finds : ∀ name, K Named (behind.find name))
    (known : ∀ name, K Bool (behind.packageExists name)) (rememberMisses : Bool) (name : String) :
    K Named (Cache.find slot behind rememberMisses name) := by
  refine steps.bind steps.get fun _ => ?_
  split
  · exact steps.pure _
  · exact steps.plain rfl
  · refine steps.caught (finds name) fun result asks => ?_
    split
    · refine steps.bind steps.get fun _ => steps.ite ?_ (steps.pure _)
      exact steps.bind (steps.addNamed known name _) fun _ => steps.pure _
    · refine steps.ite ?_ (steps.raise (asks _ rfl))
      exact steps.bind (steps.insertMiss name) fun _ => steps.raise (asks _ rfl)

end Run.FillsCache

theorem Run.Composes.knowsPackage (steps : Composes K goals) (name : String) : K Bool (System.knowsPackage name) :=
  steps.bind steps.get fun _ => steps.pure _

/-! ## Classes -/

/-- What a loader does has the property. Where not every goal may be asked for, the last stage is left out. -/
structure Loader.LoadsBy (l : Loader) (K : (α : Type) → Run α → Prop) (goals : Goal → Prop) : Prop
    extends Composes K goals where
  find : ∀ name, K Named (l.find name)
  stage : ∀ id stage, (stage = .allMembersAdded → ∀ goal, goals goal) → K Unit (l.ensure id stage)

/-- So does the walk that decides whether a class inherits from another. -/
structure Loader.ClimbsBy (l : Loader) (K : (α : Type) → Run α → Prop) (goals : Goal → Prop) : Prop
    extends l.LoadsBy K goals where
  inherits : ∀ child ancestor, K Bool (l.inherits child ancestor)

/-- So do the searches for member classes. -/
structure Loader.SearchesBy (l : Loader) (K : (α : Type) → Run α → Prop) (goals : Goal → Prop) : Prop
    extends l.ClimbsBy K goals where
  memberClass : ∀ id name accessor, K ClassId (l.memberClass id name accessor)
  remembered : ∀ id name, K Named (l.rememberedMember id name)

/-- So does whatever else a name in a scope can lead to. -/
structure Loader.ResolvesBy (l : Loader) (K : (α : Type) → Run α → Prop) (goals : Goal → Prop) : Prop
    extends l.SearchesBy K goals where
  root : K ClassId l.object
  imported : ∀ key name, K Named (ImportTable.find l key name)
  packages : ∀ name, K Bool (System.packageExists name)
  classNames : ∀ id, K ClassNames (l.classNames id)

/-- What decides whether a class descends from another has the property. -/
structure Loader.DescendsBy (l : Loader) (K : (α : Type) → Run α → Prop) : Prop extends Sequences K where
  between : ∀ child ancestor, K Bool (l.descendsFrom (.cls child) (.cls ancestor))

theorem Run.Composes.requireCanonical (steps : Composes K goals) (type : Ty) : K Unit (requireCanonical type) := by
  exact steps.ite (steps.pure _) (steps.bind (steps.typeName _) fun _ => steps.plain rfl)

theorem Run.Composes.descendsBy (steps : Composes K goals)
    (climbs : ∀ a b, K Bool (inherits a b)) (child ancestor : Ty) : K Bool (Ty.descendsBy inherits child ancestor) := by
  induction child generalizing ancestor with
  | array base ih =>
    cases ancestor with
    | array other => exact steps.ite (ih other) (steps.pure _)
    | cls id => exact steps.bind steps.get fun _ => steps.pure _
    | _ => exact steps.pure _
  | cls id =>
    cases ancestor with
    | cls other => exact steps.ite (steps.pure _) (climbs id other)
    | _ => exact steps.pure _
  | _ => cases ancestor <;> exact steps.pure _

namespace Loader.LoadsBy

variable (steps : l.LoadsBy K goals)
include steps

theorem view (id : ClassId) (stage : Stage) (view : ClassRecord → α)
    (early : stage = .allMembersAdded → ∀ goal, goals goal := by nofun) : K α (do
      l.ensure id stage
      return view (← Run.record id)) :=
  steps.bind (steps.stage id stage early) fun _ => steps.bind (steps.record id) fun _ => steps.pure _

theorem superType (id : ClassId) : K (Option Ty) (l.superType id) := steps.view id _ (·.superType)

theorem interfaces (id : ClassId) : K (List Ty) (l.interfaces id) := steps.view id _ (·.interfaces)

theorem supertypes (id : ClassId) : K (List Ty) (l.supertypes id) := steps.view id _ (·.supertypes)

theorem methods (id : ClassId) : K (List Method) (l.methods id) := steps.view id _ (·.methods)

theorem memberClassNamed (id : ClassId) (name : String) : K (Option ClassId) (l.memberClassNamed id name) :=
  steps.bind (steps.view id _ (·.members)) fun _ => steps.bind steps.arena fun _ => steps.pure _

theorem fieldNamed (id : ClassId) (name : String) : K (Option Field) (l.fieldNamed id name) := by
  refine steps.bind (steps.stage id _ nofun) fun _ => steps.bind (steps.record id) fun record => ?_
  split
  · exact steps.pure _
  · exact steps.ite (steps.pure _) (steps.view id _ (·.fieldNamed? name))

theorem methodsNamed (id : ClassId) (name : String) : K (List Method) (l.methodsNamed id name) := by
  refine steps.bind (steps.stage id _ nofun) fun _ => steps.bind (steps.record id) fun record => ?_
  exact steps.ite (steps.pure _) (steps.view id _ (·.methodsNamed name))

section Imports

variable (noted : ∀ key change, K Unit (Run.modifyImports key change))
include noted

/-- Import tables remember what they find. -/
theorem lookUpClasses (key : ImportKey) (names : List String) : K Unit (ImportTable.lookUpClasses l key names) := by
  induction names with
  | nil => exact steps.pure _
  | cons full rest ih =>
    have stored (named : Named) : K Unit (do
        modifyImports key fun table =>
          { table with imported := table.imported.insert (shortName full) (full, named) }
        ImportTable.lookUpClasses l key rest) := steps.bind (noted key _) fun _ => ih
    refine steps.bind steps.get fun _ => steps.ite ih (steps.bind (steps.find full) fun named => ?_)
    refine steps.bind steps.get fun _ => ?_
    split
    · exact steps.ite (steps.bind (steps.plain rfl) fun _ => stored named) (stored named)
    · exact stored named

omit noted in
theorem searchPackages (table : ImportTable) (name : String) (packages : List String) :
    K (Option Named) (ImportTable.searchPackages l table name packages) := by
  induction packages with
  | nil => exact steps.pure _
  | cons package rest ih =>
    refine steps.caught (steps.find _) fun found asks => ?_
    split
    · exact steps.bind steps.arena fun _ => steps.ite (steps.pure _) ih
    · exact steps.ite ih (steps.raise (asks _ rfl))

theorem searchShort (key : ImportKey) (name : String) : K Named (ImportTable.searchShort l key name) := by
  have materialized : K Unit (ImportTable.materialize l key) := by
    refine steps.bind steps.get fun _ => steps.ite (steps.pure _) ?_
    exact steps.bind (steps.lookUpClasses noted _ _) fun _ => noted key _
  refine steps.bind materialized fun _ => steps.bind steps.get fun _ => ?_
  dsimp only
  split
  · exact steps.pure _
  · refine steps.bind (steps.searchPackages _ _ _) fun found => ?_
    split
    · exact steps.pure _
    · refine steps.bind (steps.find name) fun _ => steps.bind steps.arena fun _ => ?_
      exact steps.ite (steps.pure _) (steps.plain rfl)

theorem findImported (key : ImportKey) (name : String) : K Named (ImportTable.find l key name) := by
  refine steps.ite (steps.find name) (steps.bind steps.get fun _ => ?_)
  split
  · exact steps.pure _
  · refine steps.bind (steps.searchShort noted key name) fun _ => ?_
    exact steps.bind (noted key _) fun _ => steps.pure _

end Imports

end Loader.LoadsBy

namespace Loader.DescendsBy

variable (steps : l.DescendsBy K)
include steps

theorem declarationAccessible (seen : K Bool visible) (flags : Flags) (target accessor : ClassId) :
    K Bool (l.declarationAccessible visible flags target accessor) := by
  have conclude : K Bool (do
      let arena ← Run.arena
      return accessibleFromPackage flags (arena.get target).package (arena.get accessor).package) :=
    steps.bind steps.arena fun _ => steps.pure _
  refine steps.bind seen fun _ => steps.ite (steps.pure _) ?_
  refine steps.bind steps.arena fun arena => steps.ite (steps.pure _) ?_
  refine steps.ite (steps.pure _) (steps.ite ?_ conclude)
  refine steps.bind (steps.anyOf fun id _ => steps.between id target) fun _ => ?_
  exact steps.ite (steps.pure _) conclude

theorem nestAccessible (accessor : ClassId) (nest : List ClassId) : K Bool (l.nestAccessible accessor nest) := by
  induction nest with
  | nil => exact steps.pure _
  | cons target around ih =>
    refine steps.bind steps.arena fun arena => ?_
    dsimp only
    split
    · exact steps.declarationAccessible ih _ _ _
    · exact steps.pure _
    · exact steps.pure _

theorem classAccessible (target accessor : ClassId) : K Bool (l.classAccessible target accessor) :=
  steps.bind steps.arena fun _ => steps.nestAccessible accessor _

theorem isAccessibleIn {member : Protection} (accessor : ClassId)
    (reached : member.container.isClass = true → K Bool (l.descendsFrom container member.container)) :
    K Bool (l.isAccessibleIn member container accessor) := by
  unfold Loader.isAccessibleIn
  split <;> refine steps.bind ?_ fun inherited => ?_
  case isTrue.refine_1 inside => exact reached (Bool.and_eq_true_iff.mp inside).1
  case isFalse.refine_1 => exact steps.pure _
  all_goals
    dsimp only
    split
    · exact steps.declarationAccessible (steps.classAccessible _ _) _ _ _
    · exact steps.pure _

end Loader.DescendsBy

namespace Loader.ClimbsBy

variable (steps : l.ClimbsBy K goals)
include steps

theorem descendsFrom (child ancestor : Ty) : K Bool (l.descendsFrom child ancestor) := by
  refine steps.bind (steps.requireCanonical child) fun _ => ?_
  exact steps.bind (steps.requireCanonical ancestor) fun _ => steps.descendsBy steps.inherits _ _

theorem descends : l.DescendsBy K := ⟨steps.toSequences, fun _ _ => steps.descendsFrom _ _⟩

theorem classAccessible (target accessor : ClassId) : K Bool (l.classAccessible target accessor) :=
  steps.descends.classAccessible target accessor

theorem isAccessibleIn (member : Protection) (container : Ty) (accessor : ClassId) :
    K Bool (l.isAccessibleIn member container accessor) :=
  steps.descends.isAccessibleIn accessor fun _ => steps.descendsFrom _ _

theorem isAccessible (member : Protection) (accessor : ClassId) : K Bool (l.isAccessible member accessor) :=
  steps.isAccessibleIn member _ accessor

theorem declaredMember (name : String) (id : ClassId) : K (Option ClassId) (l.declaredMember name id) := by
  have only (found : Option Named) : K (Option ClassId) (memberOnly id found) :=
    steps.bind steps.arena fun _ => steps.pure _
  refine steps.bind steps.get fun w => steps.ite (only _) ?_
  refine steps.bind (steps.memberClassNamed id name) fun listed => ?_
  split
  · exact only _
  · refine steps.bind (steps.record id) fun record => ?_
    split
    · refine steps.caught (steps.find _) fun found asks => ?_
      split
      · exact only _
      · exact steps.ite (steps.pure _) (steps.raise (asks _ rfl))
    · exact steps.pure _

theorem visibleMember (name : String) (accessor : Option ClassId) (id : ClassId) :
    K (Option ClassId) (l.visibleMember (l.declaredMember name) accessor id) := by
  refine steps.bind (steps.declaredMember name id) fun found => ?_
  split
  · refine steps.bind (steps.classAccessible _ _) fun _ => steps.ite (steps.pure _) ?_
    exact steps.bind steps.arena fun _ => steps.plain rfl
  · exact steps.pure _

theorem firstImplementing (id : ClassId) (m : Method) (methods : List Method) :
    K (Option Method) (l.firstImplementing id m methods) := by
  have may (other : Method) : K Bool (l.mayImplement id m other) := by
    have decided (visible : Bool) : K Bool (if visible then pure true
        else l.isAccessible m.protection (other.container.class?.getD id)) :=
      steps.ite (steps.pure _) (steps.isAccessible _ _)
    refine steps.bind (steps.isAccessible _ _) fun _ => steps.ite ?_ (steps.bind (steps.pure _) decided)
    exact steps.bind (steps.isAccessible _ _) decided
  induction methods with
  | nil => exact steps.pure _
  | cons other rest ih =>
    refine steps.ite ?_ ih
    exact steps.bind (may other) fun _ => steps.ite (steps.pure _) ih

theorem checkConformance (sources : ∀ id, K (List ClassId) (l.abstractSourcesWithin l.depth [] [id]))
    (implementing : ∀ id m, K (Option Method) (l.findImplementing id m)) (id : ClassId) :
    K Unit (l.checkConformance id) := by
  have implemented (declaredIn : ClassId) (m : Method) : K Unit (l.checkImplemented id declaredIn m) := by
    refine steps.ite (steps.bind (implementing id m) fun _ => steps.ite ?_ (steps.pure _)) (steps.pure _)
    exact steps.bind steps.arena fun _ => steps.fault _ _
  refine steps.bind (steps.record id) fun _ => steps.ite (steps.pure _) ?_
  refine steps.bind (sources id) fun _ => steps.forM fun declaredIn _ => ?_
  exact steps.bind (steps.methods declaredIn) fun _ => steps.forM fun m _ => implemented declaredIn m

theorem findInPackage (package : Package) (name : String) (accessor : Option ClassId) :
    K Named (l.findInPackage package name accessor) := by
  refine steps.ite ?searched (steps.bind (steps.fault _ _) fun _ => ?searched)
  refine steps.caught (steps.find _) fun found asks => ?_
  split
  · split
    · refine steps.bind (steps.classAccessible _ _) fun _ => steps.ite (steps.pure _) ?_
      refine steps.bind (steps.fullName _) fun _ => steps.bind (steps.fullName _) fun _ => ?_
      exact steps.bind (steps.plain rfl) fun _ => steps.pure _
    · exact steps.pure _
  · exact steps.pure _
  · exact steps.ite (steps.pure _) (steps.raise (asks _ rfl))

/-- Member classes are remembered. -/
theorem rememberedMember (noted : ∀ key name entry, K Unit (modifyMemo key (·.insert name entry))) {id : ClassId}
    (searched : K ClassId (l.memberClass id name none)) : K Named (l.rememberedMember id name) := by
  have named : K Named (do return .cls (← l.memberClass id name none)) := steps.bind searched fun _ => steps.pure _
  refine steps.bind steps.get fun w => ?_
  split
  · exact steps.pure _
  · exact steps.plain rfl
  · refine steps.caught named fun found asks => ?_
    split
    · exact steps.bind (noted _ _ _) fun _ => steps.pure _
    · refine steps.ite ?_ (steps.raise (asks _ rfl))
      exact steps.bind (noted _ _ _) fun _ => steps.raise (asks _ rfl)

end Loader.ClimbsBy

namespace Loader.SearchesBy

variable (steps : l.SearchesBy K goals)
include steps

theorem findMemberClass (id : ClassId) (name : String) (accessor : Option ClassId) :
    K ClassId (l.findMemberClass id name accessor) := by
  unfold Loader.findMemberClass
  split
  · exact steps.memberClass id name _
  · refine steps.bind (steps.remembered id name) fun found => ?_
    split
    · exact steps.pure _
    · exact steps.bind (steps.fullName id) fun _ => steps.plain rfl

theorem classForName (name : String) : K ClassId (l.classForName name) := by
  have byName (container name : String) : K ClassId (l.memberByName container name) := by
    refine steps.bind (steps.find container) fun found => ?_
    split
    · exact steps.findMemberClass _ name none
    · exact steps.plain rfl
  refine steps.caught (steps.find name) fun found asks => ?_
  split
  · exact steps.pure _
  · exact steps.fault _ _
  · split
    · refine steps.caught (byName _ _) fun member further => ?_
      split
      · exact steps.pure _
      · refine steps.raise ?_
        split
        · exact further _ rfl
        · exact asks _ rfl
    · exact steps.raise (asks _ rfl)

theorem object (stored : ∀ id, K Unit (modify fun w => { w with root := some id })) : K ClassId l.object := by
  refine steps.bind steps.get fun w => ?_
  split
  · exact steps.pure _
  · exact steps.bind (steps.classForName _) fun id => steps.bind (stored id) fun _ => steps.pure _

end Loader.SearchesBy

theorem Loader.ResolvesBy.objectType (steps : l.ResolvesBy K goals) : K Ty l.objectType :=
  steps.bind steps.root fun _ => steps.pure _

/-! ## Names in a scope -/

/-- A property of computations in scopes that composing them keeps. Frames may collect names. -/
structure Scoped.Composes (K : (α : Type) → Run α → Prop) (L : (α : Type) → Scoped α → Prop) (goals : Goal → Prop) :
    Prop where
  base : Run.Composes K goals
  pure : ∀ {α : Type} (a : α), L α (pure a)
  raise : ∀ {α : Type} {e : Error}, e.AsksFor goals → L α (throw e)
  getScope : L Scope (getThe Scope)
  getWorld : L World (getThe World)
  named : ∀ number names, L Unit (modifyThe Scope (·.setNames number names))
  lift : ∀ {α : Type} {x : Run α}, K α x → L α (liftM x)
  bind : ∀ {α β : Type} {x : Scoped α} {f : α → Scoped β}, L α x → (∀ a, L β (f a)) → L β (x >>= f)
  caught : ∀ {α β : Type} {x : Scoped α} {f : Except Error α → Scoped β}, L α x →
    (∀ result, (∀ e, result = .error e → e.AsksFor goals) → L β (f result)) → L β (x.outcome >>= f)

namespace Scoped.Composes

variable {L : (α : Type) → Scoped α → Prop} (here : Scoped.Composes K L goals)

include here

omit here in
theorem ite (_ : Scoped.Composes K L goals) [Decidable p] (first : L α x)
    (second : L α y) : L α (if p then x else y) := by
  split
  · exact first
  · exact second

theorem plain {e : Error} (plain : e.missingGoal? = none) : L α (throw e) := here.raise (.plain plain)

theorem currentClass : L (Option ClassId) currentClass? := here.bind here.getScope fun _ => here.pure _

theorem map {β : Type} {f : α → β} (once : L α x) : L β (f <$> x) := by
  exact here.bind once fun _ => here.pure _

theorem mapM {ι β : Type} {f : ι → Scoped β} {items : List ι} (each : ∀ a ∈ items, L β (f a)) :
    L (List β) (items.mapM f) := by
  induction items with
  | nil => exact here.pure _
  | cons a rest ih =>
    rw [List.mapM_cons]
    refine here.bind (each a (by simp)) fun b => ?_
    exact here.bind (ih fun c member => each c (by simp [member])) fun bs => here.pure _

theorem fault (fault : Fault) (position : Option Position) : L α (liftM (Run.fault fault position : Run α)) :=
  here.lift (here.base.fault fault position)

section Types

variable (steps : l.ResolvesBy K goals)
include steps

theorem namesOf (frame : Frame) (id : ClassId) : L ClassNames (Scope.namesOf l frame id) := by
  unfold Scope.namesOf
  split
  · exact here.pure _
  · refine here.bind (here.lift (steps.classNames id)) fun _ => ?_
    exact here.bind (here.named _ _) fun _ => here.pure _

theorem typeIn (name : String) (accessor : Option ClassId) (frames : List Frame) :
    L Named (Scope.typeIn l name accessor frames) := by
  induction frames with
  | nil => exact here.plain rfl
  | cons frame rest ih =>
    unfold Scope.typeIn
    split
    · exact here.pure _
    · split
      · refine here.bind (here.namesOf steps _ _) fun _ => here.ite ?_ ih
        exact here.bind (here.lift (steps.memberClass _ _ _)) fun _ => here.pure _
      · exact here.lift (steps.imported _ _)
      · exact here.lift (steps.find name)
      · exact ih
      · exact ih

theorem findShortType (name : String) : L Named (Scope.findShortType l name) :=
  here.bind here.getScope fun _ => here.typeIn steps _ _ _

omit here in
theorem descend (accessor : Option ClassId) (named : Named) (segments : List String) :
    K Named (Scope.descend l accessor named segments) := by
  induction segments generalizing named with
  | nil => cases named <;> exact steps.pure _
  | cons segment rest ih =>
    cases named with
    | cls id => exact steps.bind (steps.findMemberClass _ _ _) fun _ => ih _
    | package package => exact steps.bind (steps.findInPackage _ _ _) fun _ => ih _

theorem findQualified (name : String) : L Named (Scope.findQualified l name) := by
  unfold Scope.findQualified
  split
  · exact here.plain rfl
  · rename_i first rest _
    have descended (start : Named) : L Named (do Scope.descend l (← currentClass?) start rest) :=
      here.bind here.currentClass fun _ => here.lift (descend steps _ _ _)
    refine here.caught (here.findShortType steps first) fun found asks => ?_
    split
    · exact here.bind (here.pure _) descended
    · refine here.ite (here.bind (here.pure _) descended) ?_
      exact here.bind (here.raise (asks _ rfl)) descended

theorem findType (name : String) : L Named (Scope.findType l name) := by
  refine here.ite (here.findShortType steps name) ?_
  rw [lift_outcome]
  refine here.caught (here.lift (steps.find name)) fun found asks => ?_
  split
  · exact here.pure _
  · refine here.ite (here.raise (asks _ rfl)) (here.bind (here.findQualified steps name) fun named => ?_)
    split
    · refine here.bind (here.lift (steps.packages _)) fun _ => ?_
      exact here.ite (here.pure _) (here.raise (asks _ rfl))
    · exact here.pure _

theorem resolveType (written : String) : L Ty (Scope.resolveType l written) := by
  unfold Scope.resolveType
  obtain ⟨base, dims⟩ := splitDims written
  dsimp only
  split
  · exact here.pure _
  · refine here.bind (here.findType steps base) fun named => ?_
    split
    · exact here.pure _
    · exact here.fault _ _

end Types

section Members

variable (steps : l.ResolvesBy K goals)
include steps

theorem findVariable (fields : ∀ container name accessor, K Field (l.findField container name accessor)) (name : String) :
    L Var (Scope.findVariable l name) := by
  refine here.bind here.getScope fun s => ?_
  induction s.frames with
  | nil => exact here.fault _ _
  | cons frame rest ih =>
    unfold Scope.variableIn
    split
    · exact here.pure _
    · refine here.bind (here.namesOf steps _ _) fun _ => here.ite ?_ ih
      exact here.bind (here.lift (fields _ _ _)) fun _ => here.pure _
    · exact ih

omit steps in
theorem noMember (kind : MemberKind) (name : String) : L α (Scope.noMember kind name) :=
  here.bind here.getScope fun _ => here.bind here.getWorld fun _ => here.plain rfl

theorem findFieldScope (name : String) : L ClassId (Scope.findFieldScope l name) := by
  refine here.bind here.getScope fun s => ?_
  induction s.frames with
  | nil => exact here.noMember _ _
  | cons frame rest ih =>
    unfold Scope.fieldScopeIn
    split
    · exact here.bind (here.namesOf steps _ _) fun _ => here.ite (here.pure _) ih
    · exact ih

theorem findField (fields : ∀ container name accessor, K Field (l.findField container name accessor)) (name : String) :
    L Field (Scope.findField l name) := by
  refine here.bind (here.findFieldScope steps name) fun id => here.bind here.currentClass fun _ => ?_
  exact here.lift (fields _ _ _)

theorem findMethodScope (has : ∀ container name accessor, K Bool (l.hasMethodNamed container name accessor))
    (name : String) : L ClassId (Scope.findMethodScope l name) := by
  refine here.bind here.getScope fun s => ?_
  induction s.frames with
  | nil => exact here.noMember _ _
  | cons frame rest ih =>
    unfold Scope.methodScopeIn
    split
    · refine here.bind (here.namesOf steps _ _) fun _ => here.ite ih ?_
      exact here.bind (here.lift (has _ _ _)) fun _ => here.ite (here.pure _) ih
    · exact ih

theorem findMethod (has : ∀ container name accessor, K Bool (l.hasMethodNamed container name accessor))
    (methods : ∀ container name args accessor, K Method (l.findMethod container name args accessor)) (name : String)
    (args : List Ty) : L Method (Scope.findMethod l name args) := by
  refine here.bind (here.findMethodScope steps has name) fun id => here.bind here.currentClass fun _ => ?_
  exact here.lift (methods _ _ _ _)

end Members

end Scoped.Composes

end ClassUniverse
