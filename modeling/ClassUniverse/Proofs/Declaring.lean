import ClassUniverse.Proofs.Loading
import ClassUniverse.Proofs.RespectsDeclaration
import ClassUniverse.Proofs.Yields

/-! Declaring the classes of a job is a sequence of shells, so what holds of the shells holds of the job. -/
namespace ClassUniverse

open Run

/-- A property of computations that the steps of a declaration have, and that sequencing keeps. -/
structure Run.DeclaresBy (C : (α : Type) → Run α → Prop) : Prop where
  pure : ∀ {α : Type} (a : α), C α (pure a)
  bind : ∀ {α β : Type} {x : Run α} {f : α → Run β}, C α x → (∀ a, C β (f a)) → C β (x >>= f)
  get : C World get
  fault : ∀ fault, C Unit (Run.fault fault)
  shell : ∀ job path kind package full (decl : ClassDecl), C ClassId (decl.declareShell job path kind package full)
  listed : ∀ outer id, C Unit (update outer fun record => { record with members := record.members ++ [id] })
  imported : ∀ key table, C Unit (modifyImports key fun _ => table)

namespace Run.DeclaresBy

variable (steps : DeclaresBy C)

include steps

mutual

theorem declare (job : JobId) (path : String) (kind : ClassKind) (package : Option Package) (full : String) :
    (decl : ClassDecl) → C ClassId (decl.declare job path kind package full)
  | ⟨name, flags, superclass, interfaces, fields, methods, constructors, members, line⟩ => by
    refine steps.bind (steps.shell _ _ _ _ _ _) fun id => ?_
    exact steps.bind (declareMembers job path id package full members) fun _ => steps.pure _

theorem declareMembers (job : JobId) (path : String) (outer : ClassId) (package : Option Package) (full : String) :
    (members : List ClassDecl) → C Unit (ClassDecl.declareMembers job path outer package full members)
  | [] => by
    exact steps.pure _
  | member :: rest => by
    refine steps.bind (declare job path _ package _ member) fun id => steps.bind (steps.listed _ _) fun _ => ?_
    exact declareMembers job path outer package full rest

end

theorem forM (items : List α) (each : ∀ a, C Unit (f a)) : C Unit (items.forM f) := by
  induction items with
  | nil => exact steps.pure _
  | cons a rest ih => exact steps.bind (each a) fun _ => ih

theorem discarded (once : C α x) : C Unit (discard x) := by
  have parts : discard x = x >>= fun _ => Pure.pure () := (bind_pure_comp _ x).symm
  exact parts ▸ steps.bind once fun _ => steps.pure _

theorem declareClass (source : SourceFile) (job : JobId) (decl : ClassDecl) :
    C Unit (source.declareClass job decl) := by
  have declared (full : String) : C Unit (discard
      (decl.declare job source.path .topLevel (source.package.map Package.mk) full)) :=
    steps.discarded (steps.declare _ _ _ _ _ decl)
  refine steps.bind steps.get fun w => ?_
  dsimp only
  split
  · split
    · exact steps.pure _
    · exact declared _
  · split
    · exact steps.pure _
    · exact declared _

theorem initializeTypes (job : JobId) : C Unit (Loader.initializeTypes job) := by
  refine steps.bind steps.get fun w => ?_
  split
  · refine steps.bind steps.get fun w => steps.bind (steps.imported _ _) fun _ => ?_
    exact steps.forM _ fun decl => steps.declareClass _ job decl
  · exact steps.fault _

end Run.DeclaresBy

theorem Run.ends_congr {x y : Run α} (same : x.on w = y.on other) : x.Ends w ok bad ↔ y.Ends other ok bad := by
  unfold Ends
  rw [same]

/-- A shell is added with its declaration and its place in the table. -/
def World.addShell (w : World) (record : ClassRecord) (decl : ClassDecl) (full : String) : World :=
  { w with
    arena := (w.arena.add record).2
    declarations := w.declarations.insert ⟨w.arena.size⟩ decl
    tables := w.tables.insert .session ((w.table .session).insert full (.cls ⟨w.arena.size⟩)) }

/-- The record of a declared class before anything about it is resolved. -/
def ClassDecl.shell (decl : ClassDecl) (job : JobId) (path : String) (kind : ClassKind) (package : Option Package)
    (flags : Flags) : ClassRecord :=
  { name := decl.name, package, kind, flags, position := some { file := path, line := decl.line }, job := some job,
    completion := some .scheduled }

section Shell

variable (decl : ClassDecl) (job : JobId) (path : String) (kind : ClassKind) (package : Option Package) (full : String)
  (w : World)

/-- The flags with which a class is declared, and what they must be legal for. -/
def ClassDecl.shellFlags : Flags := decl.flags.impliedForClass (kind.outer?.any w.arena.isInterface)

def ClassKind.declared : Declared := if kind.isMember then .memberClass else .topLevelClass

theorem ClassDecl.on_declareShell_illegal {fault : FlagFault}
    (illegal : (decl.shellFlags kind w).check kind.declared = .error fault) :
    (decl.declareShell job path kind package full).on w =
      some (.error (.invalidFlags fault (some { file := path, line := decl.line })), w) := by
  unfold declareShell
  rw [on_bind_ok (show Run.arena.on w = some (.ok w.arena, w) from rfl)]
  unfold shellFlags ClassKind.declared at illegal
  simp only [checkFlags, illegal]
  rfl

theorem ClassDecl.on_declareShell_legal (legal : (decl.shellFlags kind w).check kind.declared = .ok ()) :
    (decl.declareShell job path kind package full).on w =
      (System.addNamed full (.cls ⟨w.arena.size⟩) >>= fun _ => pure ⟨w.arena.size⟩ : Run ClassId).on
        (w.addShell (decl.shell job path kind package (decl.shellFlags kind w)) decl full) := by
  unfold declareShell
  rw [on_bind_ok (show Run.arena.on w = some (.ok w.arena, w) from rfl)]
  unfold shellFlags ClassKind.declared at legal
  simp only [checkFlags, legal]
  rfl

end Shell

theorem ClassDecl.declareShell_gives [WorldOrder G] (holds : P w)
    (grown : G w (w.addShell (decl.shell job path kind package (decl.shellFlags kind w)) decl full))
    (named : (System.addNamed full (.cls ⟨w.arena.size⟩)).Gives P G
      (w.addShell (decl.shell job path kind package (decl.shellFlags kind w)) decl full) fun _ => good ⟨w.arena.size⟩) :
    (decl.declareShell job path kind package full).Gives P G w good := by
  cases checked : (decl.shellFlags kind w).check kind.declared with
  | error fault =>
    exact (ends_congr (y := throw _) (on_declareShell_illegal decl job path kind package full w checked)).mpr (gives_throw _ holds)
  | ok _ =>
    refine (ends_congr (on_declareShell_legal decl job path kind package full w checked)).mpr (Gives.since grown ?_)
    exact named.bind fun _ _ holds _ found => gives_pure holds found

section Declaring

variable [WorldOrder R]

section Shells

variable (added : ∀ record : ClassRecord, record.Bare → (addClass record).Within R goals)
  (named : ∀ name id, (System.addNamed name (.cls id)).Within R goals)
  (declared : ∀ w declarations, R w { w with declarations }) (tabled : ∀ w tables, R w { w with tables })
include added named declared tabled

theorem ClassDecl.declareShell_respects
    (job : JobId) (path : String) (kind : ClassKind) (package : Option Package) (full : String) (decl : ClassDecl) :
    (decl.declareShell job path kind package full).Within R goals := by
  refine within_bind within_arena fun _ => within_bind (within_composes.checkFlags _ _ _) fun _ => ?_
  refine within_bind (added _ ⟨rfl, nofun⟩) fun id => within_bind (within_modify fun w => declared w _) fun _ => ?_
  refine within_bind (within_modify fun w => tabled w _) fun _ => ?_
  exact within_bind (named full id) fun _ => within_pure _

/-- Shells are added, installed and listed in the classes around them. -/
theorem Loader.initializeTypes_respects (listed : ∀ outer id, (update outer fun record =>
      { record with members := record.members ++ [id] }).Within R goals)
    (imported : ∀ w imports, R w { w with imports }) (job : JobId) : (initializeTypes job).Within R goals := by
  have steps : DeclaresBy fun _ x => x.Within R goals := {
    pure := within_pure
    bind := within_bind
    get := within_get
    fault := fun fault => within_fault fault none
    shell := fun job path kind package full decl =>
      decl.declareShell_respects added named declared tabled job path kind package full
    listed
    imported := fun _ _ => within_modify fun w => imported w _ }
  exact steps.initializeTypes job

end Shells

theorem Loader.initializeTypes_elsewhere (elsewhere : ∀ {w after : World}, after.schedule = w.schedule → R w after)
    (job : JobId) : (initializeTypes job).Within R goals := by
  refine initializeTypes_respects (fun record _ w => ends_addClass.mpr (elsewhere rfl)) (fun name id => ?_)
    (fun _ _ => elsewhere rfl) (fun _ _ => elsewhere rfl) (fun _ _ => within_modify fun _ => elsewhere rfl)
    (fun _ _ => elsewhere rfl) job
  exact System.addNamed_within (fun _ _ => elsewhere rfl) name (.cls id)

end Declaring

end ClassUniverse
