import ClassUniverse.Proofs.Loading
import ClassUniverse.Proofs.Stages

/-! Loading classes and completing them on demand keeps the stages in order. -/
namespace ClassUniverse

open Run Loader

section Answers

variable (l : Loader)

theorem Loader.typeForName_canonical (written : String) :
    (l.typeForName written).Meets (fun type => type.isCanonical) (fun _ => True) := by
  refine meets_ite (meets_pure ?_) ?_
  · exact Ty.isCanonical_arrayOf _ _
  · split
    · exact meets_pure (Ty.isCanonical_arrayOf _ _)
    · exact meets_bind_last fun id => meets_pure (Ty.isCanonical_arrayOf _ _)

theorem Metadata.types_canonical (written : List String) :
    (Metadata.types l written).Meets (fun types => ∀ type ∈ types, type.isCanonical) (fun _ => True) :=
  meets_mapM fun written _ => l.typeForName_canonical written

theorem Metadata.field_canonical (id : ClassId) (d : FieldDecl) :
    (field l (.cls id) d).Meets (fun f => f.isCanonical) (fun _ => True) := by
  refine meets_bind (l.typeForName_canonical d.type) fun type canonical => meets_pure ?_
  simpa [Field.isCanonical, Ty.isCanonical] using canonical

theorem Metadata.method_canonical (id : ClassId) (d : MethodDecl) :
    (method l (.cls id) d).Meets (fun m => m.isCanonical) (fun _ => True) := by
  refine meets_bind (l.typeForName_canonical d.returns) fun returns canonical => ?_
  refine meets_bind (types_canonical l d.params) fun formals written => ?_
  refine meets_bind (types_canonical l d.throws) fun throws thrown => meets_pure ?_
  simpa [Method.isCanonical, Procedure.isCanonical, Ty.isCanonical] using ⟨⟨written, thrown⟩, canonical⟩

theorem Metadata.constructor_canonical (id : ClassId) (name : String) (d : ConstructorDecl) :
    (constructor l (.cls id) name d).Meets (fun c => c.isCanonical) (fun _ => True) := by
  refine meets_bind (types_canonical l d.params) fun formals written => ?_
  refine meets_bind (types_canonical l d.throws) fun throws thrown => meets_pure ?_
  simpa [Procedure.isCanonical, Ty.isCanonical] using ⟨written, thrown⟩

theorem RawClass.typeOf_canonical (descriptor : Descriptor) :
    (typeOf l descriptor).Meets (fun type => type.isCanonical) (fun _ => True) := by
  induction descriptor with
  | primitive kind => exact meets_pure rfl
  | cls name => exact meets_bind_last fun id => meets_pure rfl
  | array base ih => exact meets_bind ih fun type canonical => meets_pure canonical

theorem RawClass.fieldsOf_canonical (raw : RawClass) (id : ClassId) :
    (raw.fieldsOf l id).Meets (fun fields => ∀ f ∈ fields, f.isCanonical) (fun _ => True) := by
  refine meets_mapM fun field _ => meets_bind_last fun descriptor => ?_
  refine meets_bind (typeOf_canonical l descriptor) fun type canonical => meets_bind_last fun _ => meets_pure ?_
  simpa [Field.isCanonical, Ty.isCanonical] using canonical

/-- Both a method's and a constructor's signature. -/
theorem RawClass.procedureOf_canonical (id : ClassId) (name : String) (hidden : Nat) (raw : RawMember) :
    (RawClass.procedureOf l id name hidden raw).Meets
      (fun answer => answer.1.isCanonical ∧ ∀ returns, answer.2 = some returns → returns.isCanonical)
      (fun _ => True) := by
  refine meets_bind_last fun parsed => ?_
  obtain ⟨params, result⟩ := parsed
  refine meets_bind (meets_mapM fun param _ => typeOf_canonical l param) fun formals written => ?_
  have thrown : (raw.exceptions.mapM fun e => Ty.cls <$> l.classForName (dotted e)).Meets
      (fun types => ∀ type ∈ types, type.isCanonical) (fun _ => True) :=
    meets_mapM fun e _ w => ends_map.mpr ((meets_trivial _ w).mono (fun _ _ _ => rfl) (fun _ _ _ => trivial))
  refine meets_bind thrown fun throws canonical => meets_ite (meets_pure ⟨?_, by simp⟩) ?_
  · rw [Procedure.isCanonical_iff]
    refine ⟨rfl, fun type member => ?_, canonical⟩
    split at member
    · exact written type (List.mem_of_mem_drop member)
    · exact written type member
  · refine meets_bind (typeOf_canonical l result) fun returns known => meets_pure ⟨?_, ?_⟩
    · exact (Procedure.isCanonical_iff _).mpr ⟨rfl, written, canonical⟩
    · rintro _ ⟨⟩
      exact known

end Answers

namespace ClassRecord

variable {r : ClassRecord}

theorem signaturesCanonical_of (fields : ∀ f ∈ r.fields, f.isCanonical) (methods : ∀ m ∈ r.methods, m.isCanonical)
    (constructors : ∀ c ∈ r.constructors, c.isCanonical) : r.signaturesCanonical := by
  simp only [signaturesCanonical, Bool.and_eq_true, List.all_eq_true]
  exact ⟨⟨fields, methods⟩, constructors⟩

theorem advances_first {stage : Stage} (first : stage.prerequisites = []) : r.Advances (r.markStage stage) := by
  refine advances_markStage (by simp [first]) fun _ same => ?_
  subst same
  simp [Stage.prerequisites] at first

theorem advances_signatures (canonical : r.signaturesCanonical) :
    r.Advances (r.markStages [.membersAdded, .signaturesResolved]) := by
  have added : r.Advances (r.markStage .membersAdded) := advances_first rfl
  refine added.trans (advances_markStage (fun earlier member => ?_) fun _ _ => canonical)
  rw [List.mem_singleton.mp member, has_markStage]
  simp

section Filled

variable {fields : List Field} {methods : List Method} {constructors : List Constructor}
  (fieldsKnown : ∀ f ∈ fields, f.isCanonical) (methodsKnown : ∀ m ∈ methods, m.isCanonical)
  (constructorsKnown : ∀ c ∈ constructors, c.isCanonical)

include fieldsKnown methodsKnown constructorsKnown

/-- All members at once, with resolved signatures. -/
theorem advances_derived (members : List ClassId) :
    r.Advances ({ r with members, fields, methods, constructors }.markStages [.membersAdded, .signaturesResolved]) := by
  have filled : r.Advances { r with fields, methods, constructors } :=
    advances_members (signaturesCanonical_of fieldsKnown methodsKnown constructorsKnown)
  have listed := filled.trans (advances_memberClasses _ members)
  exact listed.trans (advances_signatures (signaturesCanonical_of fieldsKnown methodsKnown constructorsKnown))

theorem advances_decoded (superType : Option Ty) (interfaces : List Ty) (members : List ClassId) :
    r.Advances ({ r with superType, interfaces, fields, methods, constructors, members }.markStages
      [.supertypesResolved, .membersAdded, .signaturesResolved]) := by
  have resolved : r.Advances ({ r with superType, interfaces }.markStage .supertypesResolved) :=
    (r.advances_supertypes superType interfaces).trans (advances_first rfl)
  exact resolved.trans (advances_derived fieldsKnown methodsKnown constructorsKnown members)

end Filled

theorem Shell.sound (shell : r.Shell) : r.Sound := by
  have canonical : r.signaturesCanonical := by
    simp [signaturesCanonical, shell.fields, shell.methods, shell.constructors]
  refine { MembersWritten.of_canonical canonical with
    ordered := fun stage has => ?_, pending := ?_, canonical := fun _ => canonical, unbuilt := shell.unbuilt,
    filed := shell.filed }
  · simp [shell.stages, Stages.none] at has
  · simp [shell.pending, shell.stages, Stages.none, isComplete_iff]

end ClassRecord

namespace StagesKept

theorem update_within {id : ClassId}
    (advances : ∀ r : ClassRecord, r.Advances (change r)) : (update id change).Within StagesKept :=
  within_modify fun _ => of_modify fun _ => advances _

theorem free_caches (w : World) (caches : Assoc Slot Layers) : StagesKept w { w with caches } := of_same rfl rfl rfl

theorem addNamed_within (name : String) (named : Named) : (System.addNamed name named).Within StagesKept :=
  System.addNamed_within free_caches name named

theorem addShell_within {record : ClassRecord} (shell : record.Shell) : (addClass record).Within StagesKept :=
  fun _ => ends_addClass.mpr (of_add shell.sound)

end StagesKept

section Loading

open StagesKept

variable {l : Loader}

theorem Metadata.populate_within (sound : l.Tracks StagesKept) (m : Metadata) (id : ClassId) :
    (m.populate l id).Within StagesKept := by
  refine within_bind (within_optionMapM fun _ _ => typeForName_within sound _) fun superType => ?_
  refine within_bind (types_respects sound _) fun interfaces => ?_
  refine within_bind_meets (within_mapM fun d _ => field_respects sound _ d)
    (meets_mapM fun d _ => field_canonical l id d) fun fields fieldsKnown => ?_
  refine within_bind_meets (within_mapM fun d _ => method_respects sound _ d)
    (meets_mapM fun d _ => method_canonical l id d) fun methods methodsKnown => ?_
  refine within_bind (within_record id) fun owner => ?_
  refine within_bind_meets (within_mapM fun d _ => constructor_respects sound _ _ d)
    (meets_mapM fun d _ => constructor_canonical l id owner.name d) fun constructors constructorsKnown => ?_
  refine within_bind (within_mapM fun name _ => sound.searches.classForName name) fun members => ?_
  refine update_within fun r => ?_
  exact ClassRecord.advances_decoded fieldsKnown methodsKnown constructorsKnown superType interfaces members

theorem StagesKept.load (w : World) (source : SourceFile) :
    StagesKept w { w with schedule := (w.schedule.load source).2 } := by
  unfold Schedule.load
  split
  · exact WorldOrder.refl w
  · exact of_schedule (fun _ => rfl) (fun _ member => member) rfl

/-- Completing classes is another matter: what that takes depends on the stage. -/
theorem StagesKept.loadSteps : LoadSteps StagesKept where
  jobs _ := trivial
  loaded source w := ends_modifyGet.mpr (load w source)
  shell record shell := addShell_within shell
  addNamed := addNamed_within
  find := (within_fillsCache free_caches .session).find
  forked := Cache.forked_within free_caches
  filled sound m kind package name := by
    refine within_bind (m.declare_respects (fun record shell => addShell_within shell)
      (fun name id => addNamed_within name (.cls id)) kind package name) fun id => ?_
    exact within_bind (m.populate_within sound id) fun _ => within_pure _

end Loading

end ClassUniverse
