import ClassUniverse.Proofs.Declaring
import ClassUniverse.Proofs.StagesCompletion

/-! The passes over declarations keep the stages in order, and each brings its class to the stage it is for. -/
namespace ClassUniverse

open Run Loader StagesKept ClassRecord

section Resolved

variable (l : Loader)

open Scoped

theorem Scope.resolveType_canonical (written : String) :
    (Scope.resolveType l written).Answers fun type => type.isCanonical := by
  unfold resolveType
  dsimp only
  split
  · exact answers_pure (Ty.isCanonical_arrayOf _ _)
  · refine answers_bind (answers_trivial _) fun named _ => ?_
    split
    · exact answers_pure (Ty.isCanonical_arrayOf _ _)
    · exact answers_lift (meets_fault trivial)

theorem Loader.resolveWritten_canonical {type : Ty} (written : type.Written) :
    (l.resolveWritten type).Answers fun type => type.isCanonical := by
  cases written with
  | name name => exact Scope.resolveType_canonical l name
  | resolved canonical =>
    cases type with
    | unknown name => exact Scope.resolveType_canonical l name
    | _ => exact answers_pure canonical

theorem Loader.resolveField_canonical {f : Field} (container : f.container.isCanonical) (written : f.type.Written) :
    (l.resolveField f).Answers fun f => f.isCanonical := by
  refine answers_bind (l.resolveWritten_canonical written) fun type canonical => answers_pure ?_
  simpa [Field.isCanonical] using ⟨container, canonical⟩

theorem Loader.resolveAll_canonical {types : List Ty} (written : ∀ type ∈ types, type.Written) :
    (types.mapM l.resolveWritten).Answers fun types => ∀ type ∈ types, type.isCanonical :=
  answers_mapM fun type member => l.resolveWritten_canonical (written type member)

theorem Loader.resolveProcedure_canonical {p : Procedure} (written : p.Written) :
    (l.resolveProcedure p).Answers fun p => p.isCanonical := by
  refine answers_bind (l.resolveAll_canonical written.formals) fun formals known => ?_
  refine answers_bind (l.resolveAll_canonical written.throws) fun throws thrown => answers_pure ?_
  exact (Procedure.isCanonical_iff _).mpr ⟨written.container, known, thrown⟩

theorem Loader.resolveMethod_canonical {m : Method} (written : m.toProcedure.Written) (returned : m.returns.Written) :
    (l.resolveMethod m).Answers fun m => m.isCanonical := by
  refine answers_bind (l.resolveWritten_canonical returned) fun returns canonical => ?_
  refine answers_bind (l.resolveProcedure_canonical written) fun p known => answers_pure ?_
  simpa [Method.isCanonical] using ⟨known, canonical⟩

theorem Loader.resolveMembers_canonical {record : ClassRecord} (written : record.MembersWritten) :
    (l.resolveMembers record).Answers fun resolved => resolved.signaturesCanonical := by
  have field (f : Field) (member : f ∈ record.fields) := written.fields f member
  have method (m : Method) (member : m ∈ record.methods) := written.methods m member
  refine answers_bind (answers_mapM fun f member => l.resolveField_canonical (field f member).1 (field f member).2)
    fun fields fieldsKnown => ?_
  refine answers_bind
    (answers_mapM fun m member => l.resolveMethod_canonical (method m member).1 (method m member).2)
    fun methods methodsKnown => ?_
  have resolved (c : Constructor) (member : c ∈ record.constructors) :
      (Constructor.mk <$> l.resolveProcedure c.toProcedure).Answers fun c => c.isCanonical :=
    fun s w => ends_map.mpr (l.resolveProcedure_canonical (written.constructors c member) s w)
  refine answers_bind (answers_mapM resolved) fun constructors constructorsKnown => answers_pure ?_
  exact signaturesCanonical_of fieldsKnown methodsKnown constructorsKnown

end Resolved

theorem writtenType_written (written : String) : (writtenType written).Written := by
  unfold writtenType
  dsimp only
  split
  · exact .resolved (Ty.isCanonical_arrayOf _ _)
  · exact .name _

section Members

variable {id : ClassId} {owner : ClassRecord}

theorem FieldDecl.toField_written (d : FieldDecl) :
    (d.toField id owner).Meets (fun f => f.container.isCanonical ∧ f.type.Written) (fun _ => True) := by
  refine meets_bind_last fun _ => meets_pure ?_
  exact ⟨rfl, writtenType_written d.type⟩

theorem map_writtenType_written (written : List String) : ∀ type ∈ written.map writtenType, type.Written := by
  intro type member
  obtain ⟨name, _, rfl⟩ := List.mem_map.mp member
  exact writtenType_written name

theorem MethodDecl.toMethod_written (d : MethodDecl) :
    (d.toMethod id owner).Meets (fun m => m.toProcedure.Written ∧ m.returns.Written) (fun _ => True) := by
  refine meets_bind_last fun _ => ?_
  have built : (pure {
      container := .cls id, flags := d.flags.impliedForMethod owner.flags.isInterface, name := d.name,
      formals := d.params.map writtenType, throws := d.throws.map writtenType, returns := writtenType d.returns,
      position := owner.position } : Run Method).Meets
        (fun m => m.toProcedure.Written ∧ m.returns.Written) (fun _ => True) := by
    refine meets_pure ?_
    exact ⟨⟨rfl, map_writtenType_written d.params, map_writtenType_written d.throws⟩, writtenType_written d.returns⟩
  exact meets_ite (meets_bind_last fun _ => meets_bind_last fun _ => built) built

theorem ConstructorDecl.toConstructor_written (d : ConstructorDecl) :
    (d.toConstructor id owner).Meets (fun c => c.toProcedure.Written) (fun _ => True) := by
  have built : (pure {
      container := .cls id, flags := d.flags, name := owner.name, formals := d.params.map writtenType,
      throws := d.throws.map writtenType, position := owner.position } : Run Constructor).Meets
        (fun c => c.toProcedure.Written) (fun _ => True) :=
    meets_pure ⟨rfl, map_writtenType_written d.params, map_writtenType_written d.throws⟩
  exact meets_ite (meets_bind_last fun _ => meets_bind_last fun _ => built) (meets_bind_last fun _ => built)

end Members

theorem StagesKept.declare {w : World} {id : ClassId} (decl : ClassDecl) (jobbed : (w.arena.get id).job.isSome) :
    StagesKept w { w with declarations := w.declarations.insert id decl } := by
  intro sound
  refine ⟨⟨sound.records, fun other found => ?_, sound.free⟩, ⟨Nat.le_refl _, fun _ _ has => has, fun _ member => member, rfl⟩⟩
  simp only [Assoc.contains, Assoc.find?_insert] at found
  split at found
  · rename_i same
    exact same ▸ jobbed
  · exact sound.declared other found

/-- The class is in the arena, with its job, when its declaration is recorded. -/
theorem StagesKept.addDeclared_within {record : ClassRecord} {f : ClassId → Run α} (fresh : record.Sound)
    (jobbed : record.job.isSome) (decl : ClassDecl) (rest : ∀ id, (f id).Within StagesKept) : (do
      let id ← addClass record
      modify fun w => { w with declarations := w.declarations.insert id decl }
      f id : Run α).Within StagesKept := by
  refine within_of_worlds fun w => ?_
  rw [ends_bind, ends_addClass, ends_bind, ends_modify]
  have added : StagesKept w { w with arena := (w.arena.add record).2 } := of_add fresh
  have recorded : StagesKept { w with arena := (w.arena.add record).2 } {
      w with arena := (w.arena.add record).2, declarations := w.declarations.insert (w.arena.add record).1 decl } := by
    refine declare decl ?_
    rwa [Arena.add_fst, Arena.get_add_new]
  have both := WorldOrder.trans added recorded
  exact ((rest _).worlds _).mono (fun _ _ later => WorldOrder.trans both later)
    (fun _ _ later => WorldOrder.trans both later)

theorem ClassDecl.declareShell_within (job : JobId) (path : String) (kind : ClassKind) (package : Option Package)
    (full : String) (decl : ClassDecl) : (decl.declareShell job path kind package full).Within StagesKept := by
  refine within_bind within_arena fun arena => within_bind (within_composes.checkFlags _ _ _) fun _ => ?_
  refine addDeclared_within ?_ ?_ decl fun id => ?_
  · exact Shell.sound ⟨⟨rfl, nofun⟩, rfl, rfl, rfl, nofun, by rintro _ ⟨⟩; exact nofun⟩
  · rfl
  refine within_bind (within_modify fun w => of_same rfl rfl rfl) fun _ => ?_
  exact within_bind (addNamed_within _ _) fun _ => within_pure _

theorem Loader.initializeTypes_within (job : JobId) : (initializeTypes job).Within StagesKept := by
  have steps : DeclaresBy fun _ x => x.Within StagesKept := {
    pure := within_pure
    bind := within_bind
    get := within_get
    fault := fun fault => within_fault fault none
    shell := fun job path kind package full decl => decl.declareShell_within job path kind package full
    listed := fun _ _ => update_within fun r => advances_memberClasses r _
    imported := fun _ _ => within_modify fun w => of_same rfl rfl rfl }
  exact steps.initializeTypes job

section Passes

variable {l : Loader} {w : World} {id : ClassId}

theorem Run.declarationOf_gives (holds : w.StagesSound) : (declarationOf id).Gives World.StagesSound World.Grows w
    fun _ after => after = w ∧ (w.arena.get id).job.isSome := by
  refine gives_get.mpr ?_
  split
  · rename_i decl found
    refine gives_pure holds ⟨rfl, holds.declared id ?_⟩
    rw [Assoc.contains, found]
    rfl
  · exact gives_fault holds

theorem Loader.resolveSupertypes_completes (sound : l.Respects StagesKept) (holds : w.StagesSound) :
    (l.resolveSupertypes id).Completes w id .supertypesResolved := by
  refine (declarationOf_gives holds).bind fun decl _ _ _ given => ?_
  obtain ⟨rfl, jobbed⟩ := given
  have inside := Arena.inside_of_job jobbed
  refine (within_composes.headerScope id).andThen holds fun scope first holds grown => ?_
  refine ((Scoped.within_composes.declaredSupertypes sound.resolves id decl).inScope scope).andThen holds fun found second holds further => ?_
  have inside := further.inside (grown.inside inside)
  have stored : (update id fun r => { r with superType := found.1, interfaces := found.2 }).Within StagesKept :=
    update_within fun r => r.advances_supertypes found.1 found.2
  obtain ⟨kept, grown⟩ := ends_update.mp (stored.ends holds)
  have marked : (mark id .supertypesResolved).Completes _ id .supertypesResolved :=
    mark_completes kept (grown.inside inside) (by simp [Stage.prerequisites]) nofun
  exact ends_storeSupertypes (fun _ => ends_mark.mp (Gives.since grown marked)) fun _ => ⟨holds, WorldOrder.refl second⟩

theorem ClassRecord.advances_written {r : ClassRecord} {fields : List Field} {methods : List Method}
    {constructors : List Constructor} (jobbed : r.job.isSome) (fresh : ¬ r.stages.has .membersAdded)
    (fieldsWritten : ∀ f ∈ fields, f.container.isCanonical ∧ f.type.Written)
    (methodsWritten : ∀ m ∈ methods, m.toProcedure.Written ∧ m.returns.Written)
    (constructorsWritten : ∀ c ∈ constructors, c.toProcedure.Written) :
    r.Advances ({ r with fields, methods, constructors }.markStage .membersAdded) := by
  have unresolved (sound : r.Sound) : ¬ r.stages.has .signaturesResolved := fun has =>
    fresh (sound.ordered _ has .membersAdded (by decide))
  have stored : r.Advances { r with fields, methods, constructors } := by
    refine ⟨fun sound => ?_, fun _ has => has, rfl⟩
    exact {
      ordered := sound.ordered, pending := sound.pending, unbuilt := sound.unbuilt, filed := sound.filed,
      fields := fieldsWritten, methods := methodsWritten, constructors := constructorsWritten,
      canonical := fun has => absurd has (unresolved sound),
      unsourced := fun unjobbed => by rw [show r.job = none from unjobbed] at jobbed; cases jobbed }
  exact stored.trans (advances_first rfl)

theorem ClassRecord.defaultConstructors_written (owner : ClassRecord) :
    ∀ c ∈ owner.defaultConstructors id, c.toProcedure.Written := by
  unfold defaultConstructors
  split
  · simp
  · simp only [List.mem_singleton, forall_eq]
    exact ⟨rfl, by simp, by simp⟩

/-- Nothing is looked up, so the members do not exist when they are stored. -/
theorem Loader.addMembers_completes (holds : w.StagesSound) (fresh : ¬ w.hasStage id .membersAdded) :
    (addMembers id).Completes w id .membersAdded := by
  refine (declarationOf_gives holds).bind fun decl after _ _ given => gives_record.mpr ?_
  obtain ⟨rfl, jobbed⟩ := given
  have failed (_ : Error) : after.StagesSound ∧ after.Grows after := ⟨holds, WorldOrder.refl after⟩
  refine Within.thenAt (within_mapM fun d _ => within_composes.toField id _ d) (meets_mapM fun d _ => d.toField_written)
    (fun fields fieldsWritten => ?_) failed
  refine Within.thenAt (within_mapM fun d _ => within_composes.toMethod id _ d) (meets_mapM fun d _ => d.toMethod_written)
    (fun methods methodsWritten => ?_) failed
  refine Within.thenAt (within_mapM fun d _ => within_composes.toConstructor id _ d)
    (meets_mapM fun d _ => d.toConstructor_written) (fun constructors constructorsWritten => ?_) failed
  refine update_marks holds (Arena.inside_of_job jobbed) ?_ fun r => by simp [has_markStage]
  refine advances_written jobbed fresh fieldsWritten methodsWritten fun c member => ?_
  split at member
  · exact defaultConstructors_written _ c member
  · exact constructorsWritten c member

theorem Loader.resolveSignatures_completes (sound : l.Respects StagesKept) (holds : w.StagesSound)
    (added : w.hasStage id .membersAdded) : (l.resolveSignatures id).Completes w id .signaturesResolved := by
  have inside := Arena.inside_of_stage added
  refine (within_composes.bodyScope id).andThen holds fun scope first holds grown => ?_
  have inside := grown.inside inside
  refine gives_record.mpr ?_
  have written := (holds.records id inside).toMembersWritten
  refine ((Scoped.within_composes.resolveMembers sound.resolves _).inScope scope).andThenMeets
    ((l.resolveMembers_canonical written).inScope scope) holds fun resolved last holds further canonical => ?_
  have ready := further.stages id _ (grown.stages id _ added)
  refine update_marks holds (further.inside inside) ?_ fun r => by simp [has_markStage]
  refine (advances_members ?_).trans (advances_markStage ?_ fun _ _ => ?_)
  · exact canonical
  · exact fun earlier member => List.mem_singleton.mp member ▸ ready
  · exact canonical

end Passes

end ClassUniverse
