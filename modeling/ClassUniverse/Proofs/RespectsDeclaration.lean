import ClassUniverse.Declaration
import ClassUniverse.Proofs.Arena
import ClassUniverse.Proofs.RespectsLookup
import Mathlib.Data.List.Forall2

/-! Reading declarations respects what the loader respects. Everything that a pass looks up comes before
anything that it stores. -/
namespace ClassUniverse

open Run

/-- As many answers as items, each as it belongs to its item. -/
theorem Scoped.answers_each {f : α → Scoped β} {R : α → β → Prop} (each : ∀ a, (f a).Answers (R a)) (items : List α) :
    (items.mapM f).Answers (List.Forall₂ R items) := by
  induction items with
  | nil => exact answers_pure .nil
  | cons a rest ih =>
    rw [List.mapM_cons]
    exact answers_bind (each a) fun b first => answers_bind ih fun bs others => answers_pure (.cons first others)

/-- An interface for each name. -/
theorem Loader.declaredSupertypes_each (l : Loader) (id : ClassId) (decl : ClassDecl) :
    (l.declaredSupertypes id decl).Answers fun found => found.2.length = decl.interfaces.length := by
  refine Scoped.answers_bind (Scoped.answers_trivial _) fun _ _ => Scoped.answers_bind (Scoped.answers_trivial _) fun _ _ => ?_
  refine Scoped.answers_bind (Scoped.answers_each (fun _ => Scoped.answers_trivial _) _) fun _ each => ?_
  exact Scoped.answers_pure each.length_eq.symm

section Reading

variable {K : (α : Type) → Run α → Prop} {goals : Goal → Prop} {l : Loader}

namespace Run.Composes

variable (steps : Composes K goals)
include steps

theorem checkFlags (flags : Flags) (what : Declared) (position : Option Position) :
    K Unit (Run.checkFlags flags what position) := by
  unfold Run.checkFlags
  split
  · exact steps.pure _
  · exact steps.plain rfl

theorem declarationOf (id : ClassId) : K ClassDecl (Run.declarationOf id) := by
  refine steps.bind steps.get fun w => ?_
  split
  · exact steps.pure _
  · exact steps.fault _ _

theorem toField (id : ClassId) (owner : ClassRecord) (d : FieldDecl) : K Field (d.toField id owner) :=
  steps.bind (steps.checkFlags _ _ _) fun _ => steps.pure _

theorem toMethod (id : ClassId) (owner : ClassRecord) (d : MethodDecl) : K Method (d.toMethod id owner) := by
  refine steps.bind (steps.checkFlags _ _ _) fun _ => steps.ite ?_ (steps.pure _)
  exact steps.bind (steps.fullName id) fun _ => steps.bind (steps.fault _ _) fun _ => steps.pure _

theorem toConstructor (id : ClassId) (owner : ClassRecord) (d : ConstructorDecl) :
    K Constructor (d.toConstructor id owner) := by
  have checked : K Constructor (do
      Run.checkFlags d.flags .constructor owner.position
      return {
        container := .cls id, flags := d.flags, name := owner.name, formals := d.params.map writtenType,
        throws := d.throws.map writtenType, position := owner.position }) :=
    steps.bind (steps.checkFlags _ _ _) fun _ => steps.pure _
  exact steps.ite (steps.bind (steps.fault _ _) fun _ => checked) checked

theorem headerScope (id : ClassId) : K Scope (Loader.headerScope id) := by
  refine steps.bind steps.get fun w => ?_
  split
  · exact steps.fault _ _
  · exact steps.pure _

theorem bodyScope (id : ClassId) : K Scope (Loader.bodyScope id) :=
  steps.bind (steps.headerScope id) fun _ => steps.bind steps.arena fun _ => steps.pure _

end Run.Composes

namespace Scoped.Composes

variable {L : (α : Type) → Scoped α → Prop} (here : Scoped.Composes K L goals) (steps : l.ResolvesBy K goals)
include here steps

theorem declaredSuper (id : ClassId) (written : Option String) : L (Option Ty) (l.declaredSuper id written) := by
  refine here.bind (here.lift (steps.record id)) fun record => ?_
  split
  · refine here.bind (here.resolveType steps _) fun type => here.bind (here.lift steps.arena) fun arena => ?_
    split
    · exact here.fault _ _
    · exact here.ite (here.fault _ _) (here.ite (here.fault _ _) (here.pure _))
  · refine here.ite (here.pure _) (here.bind (here.lift (steps.isRoot id)) fun _ => here.ite (here.pure _) ?_)
    exact here.bind (here.lift steps.objectType) fun _ => here.pure _

theorem declaredInterface (position : Option Position) (name : String) : L Ty (l.declaredInterface position name) := by
  refine here.bind (here.resolveType steps _) fun type => here.bind (here.lift steps.arena) fun arena => ?_
  exact here.ite (here.pure _) (here.fault _ _)

theorem declaredSupertypes (id : ClassId) (decl : ClassDecl) :
    L (Option Ty × List Ty) (l.declaredSupertypes id decl) := by
  refine here.bind (here.declaredSuper steps id _) fun superType => here.bind (here.lift (steps.record id)) fun record => ?_
  exact here.bind (here.mapM fun name _ => here.declaredInterface steps _ name) fun _ => here.pure _

theorem resolveWritten (type : Ty) : L Ty (l.resolveWritten type) := by
  unfold Loader.resolveWritten
  split
  · exact here.resolveType steps _
  · exact here.pure _

theorem resolveMembers (record : ClassRecord) : L ClassRecord (l.resolveMembers record) := by
  have types (types : List Ty) : L (List Ty) (types.mapM l.resolveWritten) :=
    here.mapM fun type _ => here.resolveWritten steps type
  have procedure (p : Procedure) : L Procedure (l.resolveProcedure p) :=
    here.bind (types _) fun _ => here.bind (types _) fun _ => here.pure _
  refine here.bind (here.mapM fun f _ => ?_) fun fields => here.bind (here.mapM fun m _ => ?_) fun methods => ?_
  · exact here.bind (here.resolveWritten steps _) fun _ => here.pure _
  · exact here.bind (here.resolveWritten steps _) fun _ => here.bind (procedure _) fun _ => here.pure _
  · exact here.bind (here.mapM fun c _ => here.map (procedure _)) fun _ => here.pure _

end Scoped.Composes

end Reading

theorem Arena.checkCycles_plain {arena : Arena} {id : ClassId} {e : Error}
    (failed : arena.checkCycles id = .error e) : e.missingGoal? = none := by
  unfold checkCycles at failed
  split at failed
  · cases failed
    rfl
  · cases failed

/-- The supertypes that the declaration of a class gives it. -/
def Loader.readSupertypes (l : Loader) (id : ClassId) : Run (Option Ty × List Ty) := do
  let decl ← Run.declarationOf id
  let scope ← headerScope id
  (l.declaredSupertypes id decl).within scope

/-- The members that the declaration of a class gives it. -/
def Loader.readMembers (id : ClassId) : Run ClassRecord := do
  let decl ← Run.declarationOf id
  let owner ← Run.record id
  let fields ← decl.fields.mapM (FieldDecl.toField id owner)
  let methods ← decl.methods.mapM (MethodDecl.toMethod id owner)
  let constructors ← decl.constructors.mapM (ConstructorDecl.toConstructor id owner)
  return { owner with
    fields, methods, constructors := if constructors.isEmpty then owner.defaultConstructors id else constructors }

/-- The members of a class, with the names in their signatures resolved. -/
def Loader.readSignatures (l : Loader) (id : ClassId) : Run ClassRecord := do
  let scope ← bodyScope id
  (l.resolveMembers (← Run.record id)).within scope

def Run.storeMembers (id : ClassId) (stage : Stage) (given : ClassRecord) : Run Unit :=
  Run.update id fun record => { record with
    fields := given.fields, methods := given.methods, constructors := given.constructors }.markStage stage

/-- Supertypes are stored, and taken back if the class does not pass its check. -/
def Run.storeSupertypes (id : ClassId) (superType : Option Ty) (interfaces : List Ty) : Run Unit := do
  let previous ← Run.record id
  Run.update id fun record => { record with superType, interfaces }
  match (← Run.arena).checkCycles id with
  | .ok () => Run.mark id .supertypesResolved
  | .error e =>
    Run.update id fun record =>
      { record with superType := previous.superType, interfaces := previous.interfaces }
    throw e

/-- The check decides whether the supertypes stay. A world in which a class is refused is as it was. -/
theorem Run.on_storeSupertypes (id : ClassId) (superType : Option Ty) (interfaces : List Ty) (w : World) :
    (storeSupertypes id superType interfaces).on w =
      let stored := w.arena.withSupertypes id superType interfaces
      match stored.checkCycles id with
      | .ok () => some (.ok (), { w with arena := stored.modify id (·.markStage .supertypesResolved) })
      | .error e => some (.error e, w) := by
  let stored := w.arena.withSupertypes id superType interfaces
  have taken : stored.modify id (fun record => { record with
      superType := (w.arena.get id).superType, interfaces := (w.arena.get id).interfaces }) = w.arena :=
    w.arena.modify_undo rfl
  -- Reading the record and storing the supertypes cannot fail, so from here on the goal is about the check.
  change (match stored.checkCycles id with
    | .ok () => Run.mark id .supertypesResolved
    | .error e => do
      Run.update id fun record =>
        { record with superType := (w.arena.get id).superType, interfaces := (w.arena.get id).interfaces }
      throw e : Run Unit).on { w with arena := stored } = _
  dsimp only
  cases stored.checkCycles id with
  | ok done => rfl
  | error e =>
    change some (Except.error e, { w with arena := stored.modify id _ }) = _
    rw [taken]

theorem Run.ends_storeSupertypes {id : ClassId} {w : World}
    (stays : (w.arena.withSupertypes id superType interfaces).checkCycles id = .ok () → ok () { w with
      arena := (w.arena.withSupertypes id superType interfaces).modify id (·.markStage .supertypesResolved) })
    (taken : ∀ e, bad e w) : (storeSupertypes id superType interfaces).Ends w ok bad := by
  unfold Ends
  rw [on_storeSupertypes]
  dsimp only
  cases passed : (w.arena.withSupertypes id superType interfaces).checkCycles id with
  | ok => exact stays passed
  | error e => exact taken e

namespace Loader

variable {R : World → World → Prop} [WorldOrder R] {goals : Goal → Prop} {l : Loader}

section Passes

variable {id : ClassId}

theorem resolveSupertypes_eq (l : Loader) (id : ClassId) : l.resolveSupertypes id = (do
    let declared ← l.readSupertypes id
    Run.storeSupertypes id declared.1 declared.2) := by
  simp only [readSupertypes, bind_assoc]
  rfl

theorem addMembers_eq (id : ClassId) : addMembers id = readMembers id >>= storeMembers id .membersAdded := by
  simp only [readMembers, bind_assoc, pure_bind]
  rfl

theorem resolveSignatures_eq (l : Loader) (id : ClassId) :
    l.resolveSignatures id = l.readSignatures id >>= storeMembers id .signaturesResolved := by
  simp only [readSignatures, bind_assoc]
  rfl

theorem readSupertypes_within (sound : l.Respects R goals) (id : ClassId) : (l.readSupertypes id).Within R goals := by
  refine within_bind (within_composes.declarationOf id) fun decl => within_bind (within_composes.headerScope id) fun scope => ?_
  exact (Scoped.within_composes.declaredSupertypes sound.resolves id decl).inScope scope

theorem readMembers_within (id : ClassId) : (readMembers id).Within R goals := by
  refine within_bind (within_composes.declarationOf id) fun decl => within_bind (within_record id) fun owner => ?_
  refine within_bind (within_mapM fun d _ => within_composes.toField id owner d) fun fields => ?_
  refine within_bind (within_mapM fun d _ => within_composes.toMethod id owner d) fun methods => ?_
  exact within_bind (within_mapM fun d _ => within_composes.toConstructor id owner d) fun constructors => within_pure _

theorem readSignatures_within (sound : l.Respects R goals) (id : ClassId) : (l.readSignatures id).Within R goals := by
  refine within_bind (within_composes.bodyScope id) fun scope => within_bind (within_record id) fun record => ?_
  exact (Scoped.within_composes.resolveMembers sound.resolves record).inScope scope

/-- Supertypes are stored before it is known whether they stay. -/
theorem resolveSupertypes_within (sound : l.Respects R goals)
    (stored : ∀ superType interfaces, (Run.update id fun record => { record with superType, interfaces }).Within R goals)
    (marked : (Run.mark id .supertypesResolved).Within R goals) : (l.resolveSupertypes id).Within R goals := by
  rw [resolveSupertypes_eq]
  refine within_bind (readSupertypes_within sound id) fun declared => ?_
  refine within_bind (within_record id) fun previous => within_bind (stored _ _) fun _ => ?_
  refine within_bind within_arena fun arena => ?_
  split
  · exact marked
  · rename_i failed
    exact within_bind (stored _ _) fun _ => within_plain (Arena.checkCycles_plain failed)

theorem addMembers_within (stored : ∀ fields methods constructors, (Run.update id fun record =>
      { record with fields, methods, constructors }.markStage .membersAdded).Within R goals) :
    (addMembers id).Within R goals := by
  rw [addMembers_eq]
  exact within_bind (readMembers_within id) fun _ => stored _ _ _

theorem resolveSignatures_within (sound : l.Respects R goals)
    (stored : ∀ fields methods constructors, (Run.update id fun record =>
      { record with fields, methods, constructors }.markStage .signaturesResolved).Within R goals) :
    (l.resolveSignatures id).Within R goals := by
  rw [resolveSignatures_eq]
  exact within_bind (readSignatures_within sound id) fun _ => stored _ _ _

theorem reachStage_within (sound : l.Respects R goals) (attempt : Attempt) (early : stage ≠ .allMembersAdded)
    (supertypes : stage = .supertypesResolved → (∀ superType interfaces,
      (Run.update id fun record => { record with superType, interfaces }).Within R goals) ∧
      (Run.mark id .supertypesResolved).Within R goals)
    (members : ∀ fields methods constructors, (Run.update id fun record =>
      { record with fields, methods, constructors }.markStage stage).Within R goals) :
    (l.reachStage attempt id stage).Within R goals := by
  cases stage with
  | supertypesResolved => exact resolveSupertypes_within sound (supertypes rfl).1 (supertypes rfl).2
  | membersAdded => exact addMembers_within members
  | signaturesResolved => exact resolveSignatures_within sound members
  | allMembersAdded => exact absurd rfl early

end Passes

end Loader

end ClassUniverse
