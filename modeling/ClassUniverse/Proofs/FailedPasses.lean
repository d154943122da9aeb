import ClassUniverse.Proofs.CheckedSupertypes
import ClassUniverse.Proofs.LastStage

/-! Passes over declared classes that fail. What a pass looks up leaves its class as it is, and what it has found is
stored at once, so a pass gives the class all that belongs to its stage, or nothing. -/
namespace ClassUniverse

open Run Loader Scoped

variable {id : ClassId} {l : Loader} {stage : Stage} {depth : Nat}

/-- The class has what it had, and has the stage if it had it. -/
structure World.Spares (w : World) (id : ClassId) (stage : Stage) (after : World) : Prop where
  size : w.arena.size ≤ after.arena.size
  lineage : (after.arena.get id).lineage = (w.arena.get id).lineage
  body : (after.arena.get id).body = (w.arena.get id).body
  stage : after.hasStage id stage ↔ w.hasStage id stage

theorem World.Spares.refl (w : World) : w.Spares id stage w := ⟨Nat.le_refl _, rfl, rfl, Iff.rfl⟩

/-- Look-ups on behalf of a class from a source spare it. But signatures come to count as resolved if there is nothing to
be resolved in them. -/
theorem World.StagesSound.spares (sound : w.StagesSound) (source : (w.arena.get id).job.isSome) {x : Run α}
    (settles : x.Within Settles) (early : x.Within EarlyKept Goal.Early)
    (open_ : stage = .signaturesResolved → ¬ (w.arena.get id).signaturesCanonical)
    (ran : x.on w = some (result, after)) : w.Spares id stage after := by
  have inside := Arena.inside_of_job source
  have record := sound.records id inside
  have settled := (settles.left ran).records id inside
  have pending : (w.arena.get id).completion = none ∨ (w.arena.get id).completion = some .scheduled := by
    cases completion : (w.arena.get id).completion with
    | none => exact .inl rfl
    | some way =>
      cases way with
      | scheduled => exact .inr rfl
      | assembled => exact absurd completion record.unbuilt
      | _ => simp [record.filed _ completion rfl] at source
  have underived : (w.arena.get id).Underived := fun file => by rcases pending with none | scheduled <;> simp [*]
  refine ⟨(settles.left ran).size, settled.lineage (.inl underived), settled.body (.inl underived), fun has => ?_,
    settled.stages stage⟩
  rcases settled.gains with finished | gains
  · have last := ((early.left ran) sound.unbuilt).2 id (finished.2 _)
    exact (sound.complete (.inr last) stage).resolve_left (Nat.not_le.mpr inside)
  · rcases gains stage has with had | free | ⟨last, -, canonical⟩
    · exact had
    · exact (ClassRecord.isComplete_iff _).mp (record.pending.mp (pending.resolve_right free)) stage
    · exact absurd canonical (open_ last)

/-- The members that a class is declared with: one for each declaration, in their order. A class without constructors
has one, unless it is an interface. -/
structure ClassDecl.Gives (decl : ClassDecl) (w : World) (id : ClassId) (given : ClassRecord) : Prop where
  fields : List.Forall₂ (fun d f => (FieldDecl.toField id (w.arena.get id) d).on w = some (.ok f, w)) decl.fields given.fields
  methods : List.Forall₂ (fun d m => (MethodDecl.toMethod id (w.arena.get id) d).on w = some (.ok m, w)) decl.methods given.methods
  constructors : if decl.constructors = [] then given.constructors = (w.arena.get id).defaultConstructors id else
    List.Forall₂ (fun d c => (ConstructorDecl.toConstructor id (w.arena.get id) d).on w = some (.ok c, w)) decl.constructors
      given.constructors

/-- The same procedure with as many types of its own. -/
def Procedure.Retyped (p q : Procedure) : Prop :=
  q = { p with formals := q.formals, throws := q.throws } ∧ q.formals.length = p.formals.length ∧
    q.throws.length = p.throws.length

/-- The same members, one for one, with types of their own. -/
structure ClassRecord.Retyped (r next : ClassRecord) : Prop where
  fields : List.Forall₂ (fun f g => g = { f with type := g.type }) r.fields next.fields
  methods : List.Forall₂ (fun m n => m.toProcedure.Retyped n.toProcedure) r.methods next.methods
  constructors : List.Forall₂ (fun c d => c.toProcedure.Retyped d.toProcedure) r.constructors next.constructors

/-- Of what the class has, only its fields, methods and constructors are other ones. -/
structure World.Refills (w : World) (id : ClassId) (given : ClassRecord) (after : World) : Prop where
  lineage : (after.arena.get id).lineage = (w.arena.get id).lineage
  members : (after.arena.get id).members = (w.arena.get id).members
  given : (after.arena.get id).body.2 = given.body.2

/-- What belongs to a stage of a class from a source. -/
def World.Provided (w : World) (l : Loader) (id : ClassId) (after : World) : Stage → Prop
  | .supertypesResolved => (after.arena.get id).body = (w.arena.get id).body ∧
      ∃ decl middle, w.declarations.find? id = some decl ∧
        (l.readSupertypes id).on w = some (.ok (after.arena.get id).lineage, middle) ∧
        (after.arena.get id).interfaces.length = decl.interfaces.length
  | .membersAdded => ∃ decl given, w.declarations.find? id = some decl ∧ decl.Gives w id given ∧ w.Refills id given after
  | .signaturesResolved => ∃ given middle, (l.readSignatures id).on w = some (.ok given, middle) ∧
      (w.arena.get id).Retyped given ∧ w.Refills id given after
  | .allMembersAdded => True

/-- The class has got the stage with all that belongs to it, or is as it was. -/
abbrev Run.Provides (x : Run Unit) (l : Loader) (w : World) (id : ClassId) (stage : Stage) : Prop :=
  x.Ends w (fun _ after => after.hasStage id stage ∧ w.Provided l id after stage) fun _ after => w.Spares id stage after

/-! ## Supertypes -/

theorem Loader.readSupertypes_ends (l : Loader) (id : ClassId) (w : World) : (l.readSupertypes id).Ends w
    (fun found _ => ∃ decl, w.declarations.find? id = some decl ∧ found.2.length = decl.interfaces.length)
    fun _ _ => True := by
  refine ends_bind.mpr (ends_bind.mpr (ends_get.mpr ?_))
  split
  · rename_i decl given
    refine ends_pure.mpr (ends_bind.mpr (ends_of_outcomes (fun scope middle _ => ?_) fun _ _ _ => trivial))
    exact ((l.declaredSupertypes_each id decl).inScope scope middle).mono (fun _ _ many => ⟨decl, given, many⟩)
      fun _ _ _ => trivial
  · exact ends_fault.mpr trivial

theorem Loader.resolveSupertypes_ends (sound : w.StagesSound) (source : (w.arena.get id).job.isSome) :
    ((ofDepth depth).resolveSupertypes id).Provides (ofDepth depth) w id .supertypesResolved := by
  have spared {result : Except Error (Option Ty × List Ty)} {middle : World}
      (ran : ((ofDepth depth).readSupertypes id).on w = some (result, middle)) : w.Spares id .supertypesResolved middle :=
    sound.spares source (readSupertypes_within (World.Settles.loadRelation.ofDepth depth) id)
      (readSupertypes_within (ofDepth_early depth) id) nofun ran
  rw [resolveSupertypes_eq]
  refine ends_bind.mpr (ends_of_outcomes (fun found middle ran => ?_) fun e middle => spared)
  refine ends_storeSupertypes (fun _ => ?_) fun _ => spared ran
  have inside := Nat.lt_of_lt_of_le (Arena.inside_of_job source) (spared ran).size
  have same : ((middle.arena.withSupertypes id found.1 found.2).modify id (·.markStage .supertypesResolved)).get id =
      { middle.arena.get id with superType := found.1, interfaces := found.2 }.markStage .supertypesResolved := by
    rw [Arena.withSupertypes, Arena.get_modify_self _ (by simpa using inside), Arena.get_modify_self _ inside]
  obtain ⟨decl, given, many⟩ := ((ofDepth depth).readSupertypes_ends id w).answer ran
  rw [World.hasStage, World.Provided, same]
  exact ⟨by simp [ClassRecord.has_markStage], (spared ran).body, decl, middle, given, ran, many⟩

/-! ## Members and their signatures -/

theorem Run.storeMembers_ends {read : Run ClassRecord} (inside : id.index < w.arena.size)
    (spared : ∀ given middle, read.on w = some (.ok given, middle) → w.Spares id .membersAdded middle)
    (failed : ∀ e middle, read.on w = some (.error e, middle) → w.Spares id stage middle)
    (provided : ∀ given middle after, read.on w = some (.ok given, middle) → w.Refills id given after →
      w.Provided l id after stage) : (read >>= storeMembers id stage).Provides l w id stage := by
  refine ends_bind.mpr (ends_of_outcomes (fun given middle ran => ends_update.mpr ?_) failed)
  have kept := spared given middle ran
  have same := middle.arena.get_modify_self (Nat.lt_of_lt_of_le inside kept.size)
  refine ⟨by simp [World.hasStage, same, ClassRecord.has_markStage], provided given middle _ ran ?_⟩
  constructor
  · exact (congrArg ClassRecord.lineage (same _)).trans kept.lineage
  · exact (congrArg ClassRecord.members (same _)).trans (congrArg Prod.fst kept.body)
  · exact congrArg (·.body.2) (same _)

theorem Run.ends_mapM_on {f : α → Run β} (still : ∀ a, (f a).Within Unchanged) (items : List α) (w : World) :
    (items.mapM f).Ends w (fun found after => after = w ∧ List.Forall₂ (fun a b => (f a).on w = some (.ok b, w)) items found)
      fun _ _ => True := by
  induction items with
  | nil => exact ends_pure.mpr ⟨rfl, .nil⟩
  | cons a rest ih =>
    rw [List.mapM_cons]
    refine ends_bind.mpr (ends_of_outcomes (fun b after ran => ?_) fun _ _ _ => trivial)
    obtain rfl : after = w := (still a).left ran
    refine ends_bind.mpr (ih.mono ?_ fun _ _ _ => trivial)
    rintro found _ ⟨rfl, each⟩
    exact ends_pure.mpr ⟨rfl, .cons ran each⟩

theorem Loader.readMembers_ends (id : ClassId) (w : World) : (readMembers id).Ends w
    (fun given _ => ∃ decl, w.declarations.find? id = some decl ∧ decl.Gives w id given) fun _ _ => True := by
  refine ends_bind.mpr (ends_bind.mpr (ends_get.mpr ?_))
  split
  · rename_i decl declared
    refine ends_pure.mpr (ends_bind.mpr (ends_record.mpr (ends_bind.mpr ?_)))
    refine (ends_mapM_on (within_composes.toField id _) _ w).mono ?_ fun _ _ _ => trivial
    rintro fields _ ⟨rfl, fields_⟩
    refine ends_bind.mpr ((ends_mapM_on (within_composes.toMethod id _) _ _).mono ?_ fun _ _ _ => trivial)
    rintro methods _ ⟨rfl, methods_⟩
    refine ends_bind.mpr ((ends_mapM_on (within_composes.toConstructor id _) _ _).mono ?_ fun _ _ _ => trivial)
    rintro constructors _ ⟨rfl, constructors_⟩
    refine ends_pure.mpr ⟨decl, declared, fields_, methods_, ?_⟩
    generalize decl.constructors = written at constructors_ ⊢
    cases constructors_ with
    | nil => rfl
    | cons first rest => exact .cons first rest
  · exact ends_fault.mpr trivial

theorem Loader.addMembers_ends (source : (w.arena.get id).job.isSome) :
    (addMembers id).Provides l w id .membersAdded := by
  have spared (result : Except Error ClassRecord) (middle : World)
      (ran : (readMembers id).on w = some (result, middle)) : w.Spares id .membersAdded middle := by
    obtain rfl : middle = w := (readMembers_within id : (readMembers id).Within Unchanged).left ran
    exact .refl _
  rw [addMembers_eq]
  refine storeMembers_ends (Arena.inside_of_job source) (fun _ => spared _) (fun _ => spared _)
    fun given middle after ran refills => ?_
  obtain ⟨decl, declared, gives⟩ := (readMembers_ends id w).answer ran
  exact ⟨decl, given, declared, gives, refills⟩

theorem Loader.resolveMembers_retyped (l : Loader) (r : ClassRecord) : (l.resolveMembers r).Answers r.Retyped := by
  have types (types : List Ty) := answers_each (fun type => answers_trivial (l.resolveWritten type)) types
  have field (f : Field) : (l.resolveField f).Answers fun g => g = { f with type := g.type } :=
    answers_bind (answers_trivial _) fun _ _ => answers_pure rfl
  have procedure (p : Procedure) : (l.resolveProcedure p).Answers p.Retyped :=
    answers_bind (types _) fun _ formals => answers_bind (types _) fun _ throws =>
      answers_pure ⟨rfl, formals.length_eq.symm, throws.length_eq.symm⟩
  have method (m : Method) : (l.resolveMethod m).Answers fun n => m.toProcedure.Retyped n.toProcedure :=
    answers_bind (answers_trivial _) fun _ _ => answers_bind (procedure _) fun _ same => answers_pure same
  have constructor (c : Constructor) : (Constructor.mk <$> l.resolveProcedure c.toProcedure).Answers fun d =>
      c.toProcedure.Retyped d.toProcedure := fun s w => Scoped.ends_map.mpr (procedure _ s w)
  refine answers_bind (answers_each field _) fun fields first => answers_bind (answers_each method _) fun _ second => ?_
  exact answers_bind (answers_each constructor _) fun _ third => answers_pure ⟨first, second, third⟩

theorem Scoped.mapM_eq_pure {f : α → Scoped α} {items : List α} (each : ∀ a ∈ items, f a = pure a) :
    items.mapM f = pure items := by
  induction items with
  | nil => rfl
  | cons a rest ih => simp [List.mapM_cons, each a, ih fun b member => each b (List.mem_cons_of_mem a member)]

/-- Where all names are resolved, none is looked up. -/
theorem Loader.resolveMembers_resolved (canonical : r.signaturesCanonical) :
    l.resolveMembers r = pure r := by
  have written {type : Ty} (canonical : type.isCanonical) : l.resolveWritten type = pure type := by
    cases type with
    | unknown => cases canonical
    | _ => rfl
  have procedure {p : Procedure} (canonical : p.isCanonical) : l.resolveProcedure p = pure p := by
    obtain ⟨-, formals, throws⟩ := p.isCanonical_iff.mp canonical
    simp [resolveProcedure, mapM_eq_pure fun _ listed => written (formals _ listed),
      mapM_eq_pure fun _ listed => written (throws _ listed)]
  simp only [ClassRecord.signaturesCanonical, Bool.and_eq_true, List.all_eq_true, Field.isCanonical, Method.isCanonical] at canonical
  obtain ⟨⟨fields, methods⟩, constructors⟩ := canonical
  have first : r.fields.mapM l.resolveField = pure r.fields :=
    mapM_eq_pure fun f listed => by simp [resolveField, written (fields f listed).2]
  have second : r.methods.mapM l.resolveMethod = pure r.methods :=
    mapM_eq_pure fun m listed => by simp [resolveMethod, written (methods m listed).2, procedure (methods m listed).1]
  have third : (r.constructors.mapM fun c => Constructor.mk <$> l.resolveProcedure c.toProcedure) = pure r.constructors :=
    mapM_eq_pure fun c listed => by simp [procedure (constructors c listed)]
  simp [resolveMembers, first, second, third]

theorem Loader.readSignatures_ends (l : Loader) (id : ClassId) (w : World) : (l.readSignatures id).Ends w
    (fun resolved _ => (w.arena.get id).Retyped resolved) fun _ after => (w.arena.get id).signaturesCanonical → after = w := by
  have still : (bodyScope id).Within Unchanged := within_composes.bodyScope id
  refine ends_bind.mpr (ends_of_outcomes (fun scope middle ran => ?_) fun e middle ran _ => still.left ran)
  obtain rfl : middle = w := still.left ran
  refine ends_bind.mpr (ends_record.mpr (ends_of_outcomes (fun resolved after found => ?_) fun e after failed canonical => ?_))
  · exact ((l.resolveMembers_retyped _).inScope scope _).answer found
  · rw [resolveMembers_resolved canonical] at failed
    cases failed

theorem Loader.resolveSignatures_ends (sound : w.StagesSound) (source : (w.arena.get id).job.isSome) :
    ((ofDepth depth).resolveSignatures id).Provides (ofDepth depth) w id .signaturesResolved := by
  have reads := (ofDepth depth).readSignatures_ends id w
  have spared {stage : Stage} {result : Except Error ClassRecord} {middle : World}
      (open_ : stage = .signaturesResolved → ¬ (w.arena.get id).signaturesCanonical)
      (ran : ((ofDepth depth).readSignatures id).on w = some (result, middle)) : w.Spares id stage middle :=
    sound.spares source (readSignatures_within (World.Settles.loadRelation.ofDepth depth) id)
      (readSignatures_within (ofDepth_early depth) id) open_ ran
  rw [resolveSignatures_eq]
  refine storeMembers_ends (Arena.inside_of_job source) (fun _ _ => spared nofun) (fun e middle ran => ?_)
    fun given middle after ran refills => ⟨given, middle, ran, reads.answer ran, refills⟩
  by_cases canonical : (w.arena.get id).signaturesCanonical
  · exact reads.error ran canonical ▸ .refl w
  · exact spared (fun _ => canonical) ran

/-- A pass over a class from a source gives it the stage with all that belongs to it, or leaves the class as it was. -/
theorem stage_passes_all_or_nothing {attempt : Attempt} {result : Except Error Unit} (sound : w.StagesSound)
    (source : (w.arena.get id).job.isSome) (early : stage ≠ .allMembersAdded)
    (ran : ((ofDepth depth).reachStage attempt id stage).on w = some (result, after)) :
    (∀ e, result = .error e → w.Spares id stage after) ∧
      (result = .ok () → after.hasStage id stage ∧ w.Provided (ofDepth depth) id after stage) := by
  have provides : ((ofDepth depth).reachStage attempt id stage).Provides (ofDepth depth) w id stage := by
    cases stage with
    | supertypesResolved => exact resolveSupertypes_ends sound source
    | membersAdded => exact addMembers_ends source
    | signaturesResolved => exact resolveSignatures_ends sound source
    | allMembersAdded => exact absurd rfl early
  refine ⟨fun e failed => ?_, fun passed => ?_⟩
  · exact provides.error (failed ▸ ran)
  · exact provides.answer (passed ▸ ran)

/-- The superclass and one of the interfaces are found before it turns out that there is no other interface. -/
theorem supertypes_spared_for_absent_interface :
    let source : SourceFile := {
      path := "A.java"
      classes := [{ name := "A", superclass := some "B", interfaces := ["I", "Absent"] }, { name := "B" },
        { name := "I", flags := .ofList [.interface] }] }
    let pass := (ofDepth 6).reachStage (fun _ => pure true) ⟨0⟩ .supertypesResolved
    ∃ w after, (loadSource source >>= initializeTypes).on (.ofUniverse {} {}) = some (.ok (), w) ∧
      pass.on w = some (.error (.notFound "Absent"), after) ∧ (after.arena.get ⟨0⟩).superType = none ∧
      ¬ after.hasStage ⟨0⟩ .supertypesResolved := by
  intro source pass
  obtain ⟨w, made, job, bare, after, failed, -⟩ : ∃ w, (loadSource source >>= initializeTypes).on (.ofUniverse {} {}) =
      some (.ok (), w) ∧ (w.arena.get ⟨0⟩).job.isSome ∧ ((w.arena.get ⟨0⟩).superType = none ∧
        ¬ w.hasStage ⟨0⟩ .supertypesResolved) ∧
      ∃ after, pass.on w = some (.error (.notFound "Absent"), after) ∧ True := by
    decide +kernel
  have kept : (loadSource source >>= initializeTypes).Within StagesKept :=
    within_bind (fun w => ends_modifyGet.mpr (StagesKept.load w source)) initializeTypes_within
  have sound : w.StagesSound := (kept.left made (World.stagesSound_ofUniverse {} {})).1
  have early : Stage.supertypesResolved ≠ .allMembersAdded := by decide
  have spared := (stage_passes_all_or_nothing sound job early failed).1 _ rfl
  exact ⟨w, after, made, failed, (congrArg Prod.fst spared.lineage).trans bare.1, mt spared.stage.mp bare.2⟩

end ClassUniverse
