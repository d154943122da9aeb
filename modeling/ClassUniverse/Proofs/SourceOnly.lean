import ClassUniverse.Resolver
import ClassUniverse.Proofs.Cycles
import ClassUniverse.Proofs.Dotted
import ClassUniverse.Proofs.Halting
import ClassUniverse.Proofs.RespectsLookup
import Mathlib.Algebra.Order.BigOperators.Group.List
import Mathlib.Algebra.Order.Ring.Nat

/-! Sessions over sources alone, whatever the sources say. Their jobs and their declarations are those of the
universe, no class has more supertypes than were declared, and the known supertypes close no cycle. A look-up
leaves all classes as they are, apart from the stages that they have. -/
namespace ClassUniverse

open Run

variable {source : SourceFile} {w after : World} {id : ClassId} {decl : ClassDecl}

section Declarations

mutual

/-- A declared class and all classes in it. -/
def ClassDecl.nested : ClassDecl → List ClassDecl
  | ⟨name, flags, superclass, interfaces, fields, methods, constructors, members, line⟩ =>
    ⟨name, flags, superclass, interfaces, fields, methods, constructors, members, line⟩ :: nestedIn members

def ClassDecl.nestedIn : List ClassDecl → List ClassDecl
  | [] => []
  | decl :: rest => decl.nested ++ nestedIn rest

end

def SourceFile.declarations (source : SourceFile) : List ClassDecl := ClassDecl.nestedIn source.classes

def Universe.declarations (u : Universe) : List ClassDecl := u.sources.flatMap SourceFile.declarations

/-- No class is declared with more supertypes. -/
def Universe.width (u : Universe) : Nat := 1 + (u.declarations.map fun decl => decl.interfaces.length).sum

variable {u : Universe}

theorem Universe.length_declarations (listed : source ∈ u.sources) :
    source.declarations.length ≤ u.declarations.length := by
  rw [declarations, List.length_flatMap]
  exact List.single_le_sum (by simp) _ (List.mem_map.mpr ⟨source, listed, rfl⟩)

theorem Universe.interfaces_lt_width (listed : decl ∈ u.declarations) : decl.interfaces.length < u.width := by
  have bound : decl.interfaces.length ≤ (u.declarations.map fun decl => decl.interfaces.length).sum :=
    List.single_le_sum (by simp) _ (List.mem_map.mpr ⟨decl, listed, rfl⟩)
  rw [width]
  omega

end Declarations

section Finding

variable {u : Universe} {P : World → Prop} {G : World → World → Prop} [WorldOrder G]

/-- There are no class files, and the sources are those of the universe. -/
structure Sourced (u : Universe) (P : World → Prop) (G : World → World → Prop) : Prop where
  sources : ∀ {w}, P w → w.sources = .ofList u.sources
  files : ∀ {w}, P w → ∀ name, w.classPath.find? name = none
  load : ∀ {w source}, source ∈ u.sources → P w →
    P { w with schedule := (w.schedule.load source).2 } ∧ G w { w with schedule := (w.schedule.load source).2 }

variable (sourced : Sourced u P G) (l : Loader) (name : String) (holds : P w)
include sourced holds

/-- A source is only loaded, so what is found in it is known already. -/
theorem Loader.findSourced_finishes : (l.findSourced name).Finishes P G w fun named after => after.system.check name = some named := by
  apply finishes_read rfl
  rw [sourced.files holds name]
  split
  · unfold findLoaded
    apply finishes_read rfl
    rw [sourced.files holds name]
    exact finishes_throw _ holds
  · rename_i source found
    rw [sourced.sources holds] at found
    obtain ⟨holds, grown⟩ := sourced.load ((SourceSet.find_foldl found).resolve_right nofun) holds
    have compiled : (fromSource source name).Finishes P G w fun named after => after.system.check name = some named := by
      refine finishes_step (H := G) rfl (finishes_read rfl ?_) fun _ _ later => WorldOrder.trans grown later
      split
      · rename_i named hit
        exact finishes_pure holds hit
      · exact finishes_read rfl (finishes_ite (fun _ => finishes_throw _ holds) fun _ => finishes_throw _ holds)
    cases w.schedule.jobOf? source.path <;> exact compiled

theorem Resolver.session_finishes : (Resolver.session.find l name).Finishes P G w fun named after =>
    after.system.check name = some named ∨ (after.table .session).find? name = some named := by
  have tabled : (Resolver.find l (.table .session) name).Finishes P G w fun named after =>
      (after.table .session).find? name = some named := by
    apply finishes_read rfl
    split
    · rename_i named hit
      exact finishes_pure holds hit
    · exact finishes_throw _ holds
  refine tabled.outcome.bind fun result middle holds _ found => ?_
  cases result with
  | ok named => exact finishes_pure holds (.inr (found named rfl))
  | error e =>
    refine finishes_ite (fun _ => ?_) fun _ => finishes_throw _ holds
    refine (l.findSourced_finishes sourced name holds).outcome.bind fun result last holds _ found => ?_
    cases result with
    | ok named => exact finishes_pure holds (.inl (found named rfl))
    | error e => exact finishes_ite (fun _ => finishes_throw _ holds) fun _ => finishes_throw _ holds

end Finding

/-- A world that a session over sources alone can be in. -/
structure World.SourceOnly (u : Universe) (w : World) : Prop where
  sources : w.sources = .ofList u.sources
  files : ∀ name, w.classPath.find? name = none
  jobs : ∀ source ∈ w.schedule.jobs, source ∈ u.sources
  paths : (w.schedule.jobs.map SourceFile.path).Nodup
  declared : ∀ id decl, w.declarations.find? id = some decl → id.index < w.arena.size ∧ decl ∈ u.declarations
  scheduled : ∀ id, (w.arena.get id).completion = none ∨ (w.arena.get id).completion = some .scheduled
  width : ∀ id, (w.arena.get id).supertypes.length ≤ u.width
  acyclic : w.arena.Acyclic

/-- At most so many classes are added, and jobs are only loaded. -/
structure World.Widens (more : Nat) (w after : World) : Prop where
  size : w.arena.size ≤ after.arena.size
  bound : after.arena.size ≤ w.arena.size + more
  schedule : ∃ loaded, after.schedule = { w.schedule with jobs := w.schedule.jobs ++ loaded }

/-- No class is added, and supertypes stay as they are. -/
structure World.Looks (w after : World) : Prop extends w.Widens 0 after where
  superType : ∀ id, (after.arena.get id).superType = (w.arena.get id).superType
  interfaces : ∀ id, (after.arena.get id).interfaces = (w.arena.get id).interfaces

theorem World.Widens.trans {middle : World} (first : w.Widens m middle)
    (second : middle.Widens n after) : w.Widens (m + n) after := by
  obtain ⟨loaded, early⟩ := first.schedule
  obtain ⟨further, late⟩ := second.schedule
  have sizes := And.intro first.bound second.bound
  refine ⟨Nat.le_trans first.size second.size, by omega, loaded ++ further, ?_⟩
  rw [late, early]
  simp

theorem World.Widens.mono (widens : w.Widens m after) (more : m ≤ n) :
    w.Widens n after := ⟨widens.size, Nat.le_trans widens.bound (by omega), widens.schedule⟩

theorem World.Widens.refl (n : Nat) (w : World) : w.Widens n w := ⟨Nat.le_refl _, by omega, [], by simp⟩

instance : WorldOrder (World.Widens 0) where
  refl := World.Widens.refl 0
  trans first second := first.trans second

instance : WorldOrder World.Looks where
  refl w := ⟨.refl 0 w, fun _ => rfl, fun _ => rfl⟩
  trans first second := ⟨first.toWidens.trans second.toWidens,
    fun id => (second.superType id).trans (first.superType id),
    fun id => (second.interfaces id).trans (first.interfaces id)⟩

namespace World.Looks

variable {w after : World}

theorem size_eq (looks : w.Looks after) : after.arena.size = w.arena.size :=
  Nat.le_antisymm looks.bound looks.size

theorem supertypes (looks : w.Looks after) (id : ClassId) :
    (after.arena.get id).supertypes = (w.arena.get id).supertypes := by
  rw [ClassRecord.supertypes, looks.superType, looks.interfaces, ClassRecord.supertypes]

theorem parents (looks : w.Looks after) (id : ClassId) : after.arena.parents id = w.arena.parents id := by
  rw [Arena.parents, looks.supertypes, Arena.parents]

theorem inherits_iff (looks : w.Looks after) :
    after.arena.Inherits child ancestor ↔ w.arena.Inherits child ancestor := by
  unfold Arena.Inherits
  simp only [looks.parents]

end World.Looks

abbrev SourceKept (u : Universe) : World → World → Prop := Kept (World.SourceOnly u) World.Looks

/-- The computation comes to an end over sources and only looks. -/
abbrev Run.Looks (u : Universe) (x : Run α) : Prop := x.Steady (World.SourceOnly u) World.Looks

section Frames

variable {u : Universe} {w after : World}

theorem SourceKept.of_same (arena : after.arena = w.arena) (declarations : after.declarations = w.declarations)
    (schedule : after.schedule = w.schedule) (sources : after.sources = w.sources)
    (classPath : after.classPath = w.classPath) : SourceKept u w after := by
  intro holds
  refine ⟨⟨?_, ?_, ?_, ?_, ?_, ?_, ?_, ?_⟩, ⟨?_, ?_, [], ?_⟩, ?_, ?_⟩
  · rw [sources]
    exact holds.sources
  · rw [classPath]
    exact holds.files
  · rw [schedule]
    exact holds.jobs
  · rw [schedule]
    exact holds.paths
  · rw [arena, declarations]
    exact holds.declared
  · rw [arena]
    exact holds.scheduled
  · rw [arena]
    exact holds.width
  · rw [arena]
    exact holds.acyclic
  · rw [arena]
  · rw [arena, Nat.add_zero]
  · simp [schedule]
  · simp [arena]
  · simp [arena]

theorem SourceKept.of_caches (w : World) (caches : Assoc Slot Layers) : SourceKept u w { w with caches } :=
  of_same rfl rfl rfl rfl rfl

theorem World.SourceOnly.withSchedule (holds : w.SourceOnly u) {schedule : Schedule}
    (same : schedule.jobs = w.schedule.jobs) : SourceOnly u { w with schedule } := by
  refine { holds with jobs := ?_, paths := ?_ }
  · rw [same]
    exact holds.jobs
  · rw [same]
    exact holds.paths

theorem SourceKept.load (listed : source ∈ u.sources) (w : World) :
    SourceKept u w { w with schedule := (w.schedule.load source).2 } := by
  intro holds
  unfold Schedule.load
  cases known : w.schedule.jobOf? source.path with
  | some job => exact ⟨{ holds with }, WorldOrder.refl w⟩
  | none =>
    have fresh : source.path ∉ w.schedule.jobs.map SourceFile.path := by
      have absent : w.schedule.jobs.findIdx? (fun other => other.path == source.path) = none := by
        simpa [Schedule.jobOf?] using known
      simpa [List.findIdx?_eq_none_iff] using absent
    refine ⟨{ holds with jobs := fun other member => ?_, paths := ?_ }, ⟨?_, ?_, [source], rfl⟩, ?_, ?_⟩
    · rcases List.mem_append.mp member with before | last
      · exact holds.jobs other before
      · rw [List.mem_singleton.mp last]
        exact listed
    · rw [List.map_append, List.map_singleton]
      exact List.nodup_append.mpr ⟨holds.paths, by simp, by grind⟩
    · exact Nat.le_refl _
    · exact Nat.le_refl _
    · exact fun _ => rfl
    · exact fun _ => rfl

theorem SourceKept.of_modify (superType : (change (w.arena.get id)).superType = (w.arena.get id).superType)
    (interfaces : (change (w.arena.get id)).interfaces = (w.arena.get id).interfaces)
    (completion : (change (w.arena.get id)).completion = none ∨
      (change (w.arena.get id)).completion = (w.arena.get id).completion) :
    SourceKept u w { w with arena := w.arena.modify id change } := by
  intro holds
  have looks : w.Looks { w with arena := w.arena.modify id change } := by
    refine ⟨⟨?_, ?_, [], by simp⟩, fun other => ?_, fun other => ?_⟩
    · exact Nat.le_of_eq (Arena.size_modify ..).symm
    · exact Nat.le_of_eq (Arena.size_modify ..)
    · rw [Arena.get_modify]
      split
      · rename_i both
        rw [both.1, superType]
      · rfl
    · rw [Arena.get_modify]
      split
      · rename_i both
        rw [both.1, interfaces]
      · rfl
  refine ⟨{ holds with declared := ?_, scheduled := ?_, width := ?_, acyclic := ?_ }, looks⟩
  · intro other decl found
    rw [Arena.size_modify]
    exact holds.declared other decl found
  · intro other
    rw [Arena.get_modify]
    split
    · rcases completion with dropped | same
      · exact .inl dropped
      · rw [same]
        exact holds.scheduled id
    · exact holds.scheduled other
  · intro other
    rw [looks.supertypes]
    exact holds.width other
  · exact holds.acyclic.of_parents looks.parents

/-- A stage may be marked once other things than the supertypes are stored. -/
theorem SourceKept.store_steady (id : ClassId) (stage : Stage) (change : ClassRecord → ClassRecord)
    (superType : ∀ r, (change r).superType = r.superType) (interfaces : ∀ r, (change r).interfaces = r.interfaces)
    (completion : ∀ r, (change r).completion = r.completion) :
    (update id fun r => (change r).markStage stage).Looks u := by
  refine steady_modify fun w => of_modify (superType _) (interfaces _) ?_
  unfold ClassRecord.markStage
  dsimp only
  split
  · exact .inl rfl
  · exact .inr (completion _)

theorem SourceKept.mark_steady (id : ClassId) (stage : Stage) : (mark id stage).Looks u :=
  store_steady id stage (fun r => r) (fun _ => rfl) (fun _ => rfl) fun _ => rfl

theorem SourceKept.members_steady (id : ClassId) (stage : Stage) (fields : List Field) (methods : List Method)
    (constructors : List Constructor) : (update id fun r =>
      { r with fields, methods, constructors }.markStage stage).Looks u :=
  store_steady id stage (fun r => { r with fields, methods, constructors }) (fun _ => rfl) (fun _ => rfl) fun _ => rfl

end Frames

section Finding

variable {u : Universe} {w : World}

theorem SourceOnly.sourced (u : Universe) : Sourced u (World.SourceOnly u) World.Looks where
  sources holds := holds.sources
  files holds := holds.files
  load listed holds := SourceKept.load listed _ holds

theorem Resolver.sessionKnows_steady (name : String) : (Resolver.session.packageExists name).Looks u := by
  have read (test : World → Bool) : (do return test (← get) : Run Bool).Looks u :=
    steady_bind reads_get.steady fun _ => steady_pure _
  refine steady_bind (read _) fun _ => steady_ite (steady_pure _) ?_
  exact steady_bind (read _) fun _ => steady_ite (steady_pure _) (steady_pure _)

/-- Finding a name needs no further look-ups, so it always comes to an end. -/
theorem Loader.find_steady (depth : Nat) (name : String) : ((Loader.ofDepth (depth + 1)).find name).Looks u := by
  refine steady_bind reads_get.steady fun w => ?_
  have session (name : String) : (Resolver.session.find (ofDepth depth) name).Looks u := fun _ holds =>
    (Resolver.session_finishes (SourceOnly.sourced u) _ name holds).mono fun _ _ _ _ _ => trivial
  exact (steady_fillsCache SourceKept.of_caches _).find session Resolver.sessionKnows_steady _ name

end Finding

section Ensuring

variable {u : Universe} {l : Loader} {stage : Stage}

/-- What is left of a class is marked, or missing. -/
theorem Loader.complete_finishes (holds : w.SourceOnly u) (id : ClassId) (stage : Stage) :
    (l.complete id stage (w.arena.get id).completion).Finishes (World.SourceOnly u) World.Looks w fun _ _ => True := by
  have marked := SourceKept.mark_steady (u := u) id stage w holds
  rcases holds.scheduled id with done | waiting
  · rw [done]
    exact marked
  · rw [waiting]
    apply finishes_read rfl
    refine finishes_ite (fun _ => finishes_pure holds trivial) fun _ => ?_
    exact finishes_ite (fun _ => marked) fun _ => finishes_throw _ holds

theorem Loader.ensureStage_steady (before : ∀ earlier ∈ stage.prerequisites, (l.ensure id earlier).Looks u) :
    (l.ensureStage id stage).Looks u := by
  intro w holds
  apply finishes_read rfl
  refine finishes_ite (fun _ => finishes_pure holds trivial) fun _ => ?_
  refine (steady_composes.forM before w holds).bind fun _ middle holds _ _ => ?_
  apply finishes_read rfl
  exact complete_finishes holds id stage

theorem Loader.ensureStage_looks
    (before : ∀ earlier ∈ stage.prerequisites, (l.ensure id earlier).Within (SourceKept u)) :
    (l.ensureStage id stage).Within (SourceKept u) := by
  refine within_bind within_get fun w => within_ite (within_pure _) (within_bind (within_forM before) fun _ => ?_)
  exact within_of_gives fun w holds => gives_record.mpr (complete_finishes holds id stage).gives

/-- The stages of a class wait for one another, but not in circles. -/
theorem Loader.ensure_steady (depth : Nat) (id : ClassId) (stage : Stage) :
    ((Loader.ofDepth (depth + 3)).ensure id stage).Looks u := by
  have first (depth : Nat) (stage : Stage) (free : stage.prerequisites = []) :
      ((Loader.ofDepth (depth + 1)).ensure id stage).Looks u :=
    ensureStage_steady (by simp [free])
  have signatures (depth : Nat) :
      ((Loader.ofDepth (depth + 2)).ensure id .signaturesResolved).Looks u := by
    apply ensureStage_steady
    intro earlier member
    rw [List.mem_singleton.mp member]
    exact first depth .membersAdded rfl
  cases stage with
  | supertypesResolved => exact first (depth + 2) .supertypesResolved rfl
  | membersAdded => exact first (depth + 2) .membersAdded rfl
  | signaturesResolved => exact signatures (depth + 1)
  | allMembersAdded =>
    apply ensureStage_steady
    intro earlier member
    rcases List.mem_cons.mp member with rfl | member
    · exact first (depth + 1) .supertypesResolved rfl
    · rw [List.mem_singleton.mp member]
      exact signatures depth

theorem SourceKept.respects (sound : l.Loads (SourceKept u)) : l.Respects (SourceKept u) :=
  sound.respects (fun _ _ => of_same rfl rfl rfl rfl rfl) (fun _ _ => of_same rfl rfl rfl rfl rfl)
    (fun _ _ => of_same rfl rfl rfl rfl rfl) of_caches

theorem Loader.ofDepth_looks (depth : Nat) : (Loader.ofDepth depth).Respects (SourceKept u) := by
  induction depth with
  | zero => exact SourceKept.respects ⟨fun _ => within_exhausted, fun _ _ _ => within_exhausted⟩
  | succ depth ih =>
    refine SourceKept.respects ⟨fun name => (find_steady depth name).within, fun id stage _ => ?_⟩
    exact ensureStage_looks fun earlier _ => ih.ensure id earlier

end Ensuring

end ClassUniverse
