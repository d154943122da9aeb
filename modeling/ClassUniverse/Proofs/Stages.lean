import ClassUniverse.Proofs.Arena
import ClassUniverse.Proofs.Scheduled

/-! How far the classes of a world are known. The stages of a class only grow, each comes after those it
needs, and once the signatures are resolved no unresolved name is left in them. -/
namespace ClassUniverse

/-- Canonical, or a name as it was written. -/
inductive Ty.Written : Ty → Prop where
  | name (name : String) : Written (.unknown name)
  | resolved {type : Ty} (canonical : type.isCanonical) : Written type

theorem Ty.isCanonical_arrayOf (base : Ty) (dims : Nat) : (Ty.arrayOf base dims).isCanonical = base.isCanonical := by
  induction dims with
  | zero => rfl
  | succ dims ih => exact ih

structure Procedure.Written (p : Procedure) : Prop where
  container : p.container.isCanonical
  formals : ∀ type ∈ p.formals, type.Written
  throws : ∀ type ∈ p.throws, type.Written

theorem Procedure.isCanonical_iff (p : Procedure) : p.isCanonical ↔
    p.container.isCanonical ∧ (∀ type ∈ p.formals, type.isCanonical) ∧ ∀ type ∈ p.throws, type.isCanonical := by
  simp [Procedure.isCanonical, and_assoc]

theorem Procedure.Written.resolved {p : Procedure} (canonical : p.isCanonical) : p.Written := by
  obtain ⟨container, formals, throws⟩ := p.isCanonical_iff.mp canonical
  exact ⟨container, fun type member => Ty.Written.resolved (formals type member),
    fun type member => Ty.Written.resolved (throws type member)⟩

/-- The stages of a class are in order. -/
structure ClassRecord.Staged (r : ClassRecord) : Prop where
  ordered : ∀ stage, r.stages.has stage → ∀ earlier ∈ stage.prerequisites, r.stages.has earlier
  /-- The completion is given up exactly when nothing is left to complete. -/
  pending : r.completion = none ↔ r.stages.isComplete
  canonical : r.stages.has .signaturesResolved → r.signaturesCanonical

/-- Names are left unresolved only in members of classes from sources. -/
structure ClassRecord.MembersWritten (r : ClassRecord) : Prop where
  fields : ∀ f ∈ r.fields, f.container.isCanonical ∧ f.type.Written
  methods : ∀ m ∈ r.methods, m.toProcedure.Written ∧ m.returns.Written
  constructors : ∀ c ∈ r.constructors, c.toProcedure.Written
  unsourced : r.job = none → r.signaturesCanonical

/-- What keeps the stages in order while the class is completed. -/
structure ClassRecord.Sound (r : ClassRecord) : Prop extends r.Staged, r.MembersWritten where
  unbuilt : r.completion ≠ some .assembled
  filed : ∀ completion, r.completion = some completion → completion.isFromClassFile → r.job = none

namespace ClassRecord

variable {r : ClassRecord}

theorem has_markStage (stage other : Stage) :
    (r.markStage stage).stages.has other = (r.stages.has other || other == stage) := rfl

theorem isComplete_iff (stages : Stages) : stages.isComplete ↔ ∀ stage, stages.has stage := by
  refine ⟨fun complete stage => ?_, fun every => ?_⟩
  · have := List.all_eq_true.mp complete stage
    cases stage <;> exact this (by decide)
  · exact List.all_eq_true.mpr fun stage _ => every stage

theorem MembersWritten.of_canonical (canonical : r.signaturesCanonical) : r.MembersWritten := by
  have parts := canonical
  simp only [signaturesCanonical, Bool.and_eq_true, List.all_eq_true] at parts
  obtain ⟨⟨fields, methods⟩, constructors⟩ := parts
  refine ⟨fun f member => ?_, fun m member => ?_, fun c member => ?_, fun _ => canonical⟩
  · have both := fields f member
    simp only [Field.isCanonical, Bool.and_eq_true] at both
    exact ⟨both.1, Ty.Written.resolved both.2⟩
  · have both := methods m member
    simp only [Method.isCanonical, Bool.and_eq_true] at both
    exact ⟨Procedure.Written.resolved both.1, Ty.Written.resolved both.2⟩
  · exact Procedure.Written.resolved (constructors c member)

theorem Sound.markStage (sound : r.Sound) (ready : ∀ earlier ∈ stage.prerequisites, r.stages.has earlier)
    (canonical : stage = .signaturesResolved → r.signaturesCanonical) : (r.markStage stage).Sound := { sound with
  ordered := fun other marked earlier member => by
    rw [has_markStage] at marked ⊢
    simp only [Bool.or_eq_true, beq_iff_eq] at marked ⊢
    rcases marked with marked | rfl
    · exact .inl (sound.ordered other marked earlier member)
    · exact .inl (ready earlier member)
  pending := by
    by_cases complete : (r.stages.add stage).isComplete
    · simp [ClassRecord.markStage, complete]
    · have incomplete : ¬ r.stages.isComplete := by
        intro before
        exact complete ((isComplete_iff _).mpr fun other => by
          simp [Stages.add, (isComplete_iff _).mp before other])
      simp [ClassRecord.markStage, complete, sound.pending, incomplete]
  canonical := fun marked => by
    rw [has_markStage] at marked
    simp only [Bool.or_eq_true, beq_iff_eq] at marked
    rcases marked with marked | same
    · exact sound.canonical marked
    · exact canonical same.symm
  unbuilt := by
    unfold ClassRecord.markStage
    dsimp only
    split
    · simp
    · exact sound.unbuilt
  filed := fun completion => by
    unfold ClassRecord.markStage
    dsimp only
    split
    · simp
    · exact sound.filed completion }

/-- Canonical members may replace whatever members there are. -/
theorem Sound.withMembers (sound : r.Sound) {fields : List Field} {methods : List Method}
    {constructors : List Constructor}
    (canonical : ({ r with fields, methods, constructors } : ClassRecord).signaturesCanonical) :
    ({ r with fields, methods, constructors } : ClassRecord).Sound :=
  { MembersWritten.of_canonical canonical, sound with canonical := fun _ => canonical }

/-- A change of a record that keeps it in order and takes no stage back. -/
structure Advances (r next : ClassRecord) : Prop where
  sound : r.Sound → next.Sound
  stages : ∀ stage, r.stages.has stage → next.stages.has stage
  job : next.job = r.job

theorem Advances.trans (first : r.Advances middle) (second : middle.Advances next) :
    r.Advances next :=
  ⟨fun sound => second.sound (first.sound sound), fun stage has => second.stages stage (first.stages stage has),
    second.job.trans first.job⟩

/-- Supertypes and member classes take no part in what the stages promise. -/
theorem advances_supertypes (r : ClassRecord) (superType : Option Ty) (interfaces : List Ty) :
    r.Advances { r with superType, interfaces } where
  sound sound := { sound with }
  stages _ has := has
  job := rfl

theorem advances_memberClasses (r : ClassRecord) (members : List ClassId) : r.Advances { r with members } where
  sound sound := { sound with }
  stages _ has := has
  job := rfl

theorem advances_members {fields : List Field} {methods : List Method} {constructors : List Constructor}
    (canonical : ({ r with fields, methods, constructors } : ClassRecord).signaturesCanonical) :
    r.Advances { r with fields, methods, constructors } where
  sound sound := sound.withMembers canonical
  stages _ has := has
  job := rfl

theorem advances_markStage (ready : ∀ earlier ∈ stage.prerequisites, r.stages.has earlier)
    (canonical : r.Sound → stage = .signaturesResolved → r.signaturesCanonical) : r.Advances (r.markStage stage) where
  sound sound := sound.markStage ready (canonical sound)
  stages other has := by rw [has_markStage, has, Bool.true_or]
  job := rfl

end ClassRecord

/-- Every class is in order, only classes of jobs have declarations, and jobs wait for nothing. -/
structure World.StagesSound (w : World) : Prop where
  records : ∀ id, id.index < w.arena.size → (w.arena.get id).Sound
  declared : ∀ id, w.declarations.contains id → (w.arena.get id).job.isSome
  free : ∀ job, w.schedule.prerequisites.getD (.typesInitialized job) [] = []

/-- Nothing that was reached is lost, and the goals being run are the same again. -/
structure World.Grows (w after : World) : Prop where
  size : w.arena.size ≤ after.arena.size
  stages : ∀ id stage, w.hasStage id stage → after.hasStage id stage
  initialized : ∀ job ∈ w.schedule.initialized, job ∈ after.schedule.initialized
  running : after.schedule.running = w.schedule.running

instance : WorldOrder World.Grows where
  refl _ := ⟨Nat.le_refl _, fun _ _ has => has, fun _ member => member, rfl⟩
  trans first second :=
    ⟨Nat.le_trans first.size second.size, fun id stage has => second.stages id stage (first.stages id stage has),
      fun job member => second.initialized job (first.initialized job member),
      second.running.trans first.running⟩

abbrev StagesKept : World → World → Prop := Kept World.StagesSound World.Grows

namespace StagesKept

open Run

theorem of_same (arena : after.arena = w.arena) (declarations : after.declarations = w.declarations)
    (schedule : after.schedule = w.schedule) : StagesKept w after := by
  intro sound
  refine ⟨⟨?_, ?_, ?_⟩, ⟨?_, ?_, ?_, ?_⟩⟩
  · rw [arena]
    exact sound.records
  · rw [arena, declarations]
    exact sound.declared
  · rw [schedule]
    exact sound.free
  · exact Nat.le_of_eq (congrArg Arena.size arena.symm)
  · intro id stage has
    rwa [World.hasStage, arena]
  · rw [schedule]
    exact fun _ member => member
  · rw [schedule]

theorem of_schedule
    (free : ∀ job, schedule.prerequisites.getD (.typesInitialized job) [] =
      w.schedule.prerequisites.getD (.typesInitialized job) [])
    (initialized : ∀ job ∈ w.schedule.initialized, job ∈ schedule.initialized)
    (running : schedule.running = w.schedule.running) : StagesKept w { w with schedule } := by
  intro sound
  refine ⟨⟨sound.records, sound.declared, fun job => ?_⟩, ⟨Nat.le_refl _, fun _ _ has => has, initialized, running⟩⟩
  exact (free job).trans (sound.free job)

theorem of_modify {id : ClassId}
    (advances : id.index < w.arena.size → (w.arena.get id).Advances (change (w.arena.get id))) :
    StagesKept w { w with arena := w.arena.modify id change } := by
  intro sound
  -- Only the record of `id` differs.
  have each (other : ClassId) : (w.arena.get other).Advances ((w.arena.modify id change).get other) := by
    rw [Arena.get_modify]
    split
    · rename_i both
      exact both.1 ▸ advances both.2
    · exact ⟨fun sound => sound, fun _ has => has, rfl⟩
  refine ⟨⟨fun other inside => ?_, fun other found => ?_, sound.free⟩, ⟨?_, ?_, ?_, rfl⟩⟩
  · rw [Arena.size_modify] at inside
    exact (each other).sound (sound.records other inside)
  · rw [(each other).job]
    exact sound.declared other found
  · exact Nat.le_of_eq (Arena.size_modify ..).symm
  · exact fun other stage has => (each other).stages stage has
  · exact fun _ member => member

theorem of_add {record : ClassRecord} (fresh : record.Sound) :
    StagesKept w { w with arena := (w.arena.add record).2 } := by
  intro sound
  refine ⟨⟨fun id inside => ?_, fun id found => ?_, sound.free⟩, ⟨?_, fun id stage has => ?_, ?_, rfl⟩⟩
  · rw [Arena.get_add]
    split
    · exact fresh
    · rename_i apart
      rw [Arena.size_add] at inside
      exact sound.records id (by omega)
  · have old := sound.declared id found
    rw [Arena.get_add]
    split
    · rename_i last
      rw [Arena.get_absent _ (Nat.le_of_eq last.symm)] at old
      simp at old
    · exact old
  · rw [Arena.size_add]
    omega
  · rw [World.hasStage] at has ⊢
    rw [Arena.get_add]
    split
    · rename_i last
      rw [Arena.get_absent _ (Nat.le_of_eq last.symm)] at has
      simp [Stages.none] at has
    · exact has
  · exact fun _ member => member

end StagesKept

end ClassUniverse
