import ClassUniverse.Proofs.Answers
import ClassUniverse.Proofs.Cycles
import ClassUniverse.Proofs.Dotted
import ClassUniverse.Proofs.LayerSteps
import Mathlib.Data.List.Nodup

/-! Sessions over sources alone. All their classes are declared in a source, what the session's cache holds
under a name belongs to that name, and the supertypes that are known fit together. -/
namespace ClassUniverse

variable {arena after : Arena} {id : ClassId} {change : ClassRecord → ClassRecord} {record : ClassRecord}
  {flags : Flags} {u : Universe}

mutual

/-- Full names and written flags of a class and of all classes in it. -/
def ClassDecl.declared (full : String) : ClassDecl → List (String × Flags)
  | ⟨_, flags, _, _, _, _, _, members, _⟩ => (full, flags) :: declaredIn full members

def ClassDecl.declaredIn (container : String) : List ClassDecl → List (String × Flags)
  | [] => []
  | decl :: rest => decl.declared (qualify container decl.name) ++ declaredIn container rest

end

/-- The full name of a class at the top of a source. -/
def SourceFile.nameOf (source : SourceFile) (decl : ClassDecl) : String :=
  match source.package with
  | some package => qualify package decl.name
  | none => decl.name

def SourceFile.declared (source : SourceFile) : List (String × Flags) :=
  source.classes.flatMap fun decl => decl.declared (source.nameOf decl)

def Universe.declared (u : Universe) : List (String × Flags) := u.sources.flatMap SourceFile.declared

def Universe.HasPackage (u : Universe) (name : String) : Prop := (SourceSet.ofList u.sources).packageExists name

theorem ClassDecl.declared_self (decl : ClassDecl) (full : String) : (full, decl.flags) ∈ decl.declared full := by
  obtain ⟨_, _, _, _, _, _, _, _, _⟩ := decl
  simp [declared]

theorem Universe.mem_declared {source : SourceFile} {decl : ClassDecl} (listed : source ∈ u.sources)
    (top : decl ∈ source.classes) : ∀ entry ∈ decl.declared (source.nameOf decl), entry ∈ u.declared :=
  fun _ member => List.mem_flatMap.mpr ⟨source, listed, List.mem_flatMap.mpr ⟨decl, top, member⟩⟩

/-- No class is declared twice, and the root is a class at the top of a source that others may extend. -/
structure Universe.Rooted (config : Config) (u : Universe) : Prop where
  unique : (u.declared.map (·.1)).Nodup
  root : ∃ source ∈ u.sources, ∃ decl ∈ source.classes, source.nameOf decl = config.rootClass ∧
    isShortName decl.name ∧ decl.flags.isInterface = false ∧ decl.flags.isFinal = false

namespace Universe.Rooted

variable {config : Config} {u : Universe}

/-- What lies around the root is a package. -/
theorem package_of_below (rooted : u.Rooted config) (below : isBelow above config.rootClass) :
    u.HasPackage above := by
  obtain ⟨source, listed, decl, _, named, simple, _⟩ := rooted.root
  rw [← named] at below
  unfold SourceFile.nameOf at below
  split at below
  · rename_i package lies
    have present : u.HasPackage package := SourceSet.packageExists_iff.mpr
      ⟨package, SourceSet.mem_packages_foldl.mpr (.inr ⟨source, listed, lies⟩), .inl rfl⟩
    rcases below_of_qualify simple below with rfl | deeper
    · exact present
    · exact SourceSet.packageExists_of_below deeper present
  · exact absurd below (not_isBelow_short simple)

theorem flags_of_named (rooted : u.Rooted config) (listed : (config.rootClass, flags) ∈ u.declared) :
    flags.isInterface = false ∧ flags.isFinal = false := by
  obtain ⟨source, member, decl, top, named, _, open_, extendable⟩ := rooted.root
  have declared := mem_declared member top _ (decl.declared_self _)
  rw [named] at declared
  have same := List.inj_on_of_nodup_map rooted.unique listed declared rfl
  cases same
  exact ⟨open_, extendable⟩

end Universe.Rooted

namespace Arena

/-- The type is a class that others may extend. -/
def Extendable (arena : Arena) (type : Ty) : Prop := ∃ above : ClassId, type = .cls above ∧ above.index < arena.size ∧
  (arena.get above).flags.isInterface = false ∧ (arena.get above).flags.isFinal = false

def Implementable (arena : Arena) (type : Ty) : Prop := ∃ above : ClassId, type = .cls above ∧
  above.index < arena.size ∧ (arena.get above).flags.isInterface = true

/-- A class may do without a superclass. -/
def Topmost (root : String) (arena : Arena) (id : ClassId) : Prop :=
  (arena.get id).flags.isInterface = true ∨ arena.fullName id = root

theorem Keeps.extendable (kept : arena.Keeps after) (known : arena.Extendable type) : after.Extendable type := by
  obtain ⟨above, rfl, inside, flags⟩ := known
  exact ⟨above, rfl, kept.inside inside, by rwa [kept.flags inside]⟩

theorem Keeps.implementable (kept : arena.Keeps after) (known : arena.Implementable type) :
    after.Implementable type := by
  obtain ⟨above, rfl, inside, flags⟩ := known
  exact ⟨above, rfl, kept.inside inside, by rwa [kept.flags inside]⟩

theorem Keeps.topmost (kept : arena.Keeps after) (nested : arena.Nested)
    (inside : id.index < arena.size) : after.Topmost root id ↔ arena.Topmost root id := by
  rw [Topmost, kept.flags inside, kept.fullName nested inside, Topmost]

/-- The supertypes that are known fit together. A class without a superclass is an interface or the root. -/
structure Hierarchy (root : String) (arena : Arena) : Prop where
  superclass : ∀ id type, (arena.get id).superType = some type → arena.Extendable type
  interfaces : ∀ id, ∀ type ∈ (arena.get id).interfaces, arena.Implementable type
  rooted : ∀ id, (arena.get id).stages.has .supertypesResolved → (arena.get id).superType = none →
    arena.Topmost root id
  acyclic : arena.Acyclic

namespace Hierarchy

variable {arena after : Arena} {root : String} {id : ClassId}

/-- A change of one class, or none, whose supertypes afterwards fit as well. -/
theorem step (id : ClassId) (sound : arena.Hierarchy root) (nested : arena.Nested) (kept : arena.Keeps after)
    (superclass : ∀ type, (after.get id).superType = some type → arena.Extendable type)
    (interfaces : ∀ type ∈ (after.get id).interfaces, arena.Implementable type)
    (rooted : id.index < arena.size → (after.get id).stages.has .supertypesResolved →
      (after.get id).superType = none → arena.Topmost root id)
    (fresh : arena.size ≤ id.index → ¬ (after.get id).stages.has .supertypesResolved)
    (others : ∀ other, other ≠ id → after.get other = arena.get other) (acyclic : after.Acyclic) :
    after.Hierarchy root := by
  refine ⟨fun other type given => ?_, fun other type member => ?_, fun other has none => ?_, acyclic⟩
  · apply kept.extendable
    by_cases same : other = id
    · exact superclass type (same ▸ given)
    · exact sound.superclass other type (others other same ▸ given)
  · apply kept.implementable
    by_cases same : other = id
    · exact interfaces type (same ▸ member)
    · exact sound.interfaces other type (others other same ▸ member)
  · by_cases same : other = id
    · subst same
      by_cases inside : other.index < arena.size
      · exact (kept.topmost nested inside).mpr (rooted inside has none)
      · exact absurd has (fresh (Nat.le_of_not_lt inside))
    · rw [others other same] at has none
      exact (kept.topmost nested (inside_of_stage has)).mpr (sound.rooted other has none)

section Sound

variable (sound : arena.Hierarchy root) (nested : arena.Nested)
include sound nested

theorem modify (header : (change (arena.get id)).header = (arena.get id).header)
    (superType : (change (arena.get id)).superType = (arena.get id).superType)
    (interfaces : (change (arena.get id)).interfaces = (arena.get id).interfaces)
    (stage : (change (arena.get id)).stages.has .supertypesResolved → (arena.get id).superType = none →
      arena.Topmost root id) : (arena.modify id change).Hierarchy root := by
  by_cases inside : id.index < arena.size
  · have changed := arena.get_modify_self inside change
    have others (other : ClassId) (apart : other ≠ id) := arena.get_modify_other apart change
    refine sound.step id nested (.modify header) ?_ ?_ ?_ (fun outside => by omega) others ?_
    · rw [changed, superType]
      exact sound.superclass id
    · rw [changed, interfaces]
      exact sound.interfaces id
    · rw [changed, superType]
      exact fun _ has none => stage has none
    · refine sound.acyclic.of_parents fun other => ?_
      by_cases same : other = id
      · simp [parents, ClassRecord.supertypes, same, changed, superType, interfaces]
      · rw [parents, others other same, parents]
  · rwa [arena.modify_absent (Nat.le_of_not_lt inside)]

theorem add
    (superType : record.superType = none) (interfaces : record.interfaces = []) (stages : record.stages = .none) :
    (arena.add record).2.Hierarchy root := by
  have added := arena.get_add_new record
  have others (other : ClassId) (apart : other ≠ ⟨arena.size⟩) : (arena.add record).2.get other = arena.get other := by
    rw [get_add, if_neg fun same => apart (by cases other; simp_all)]
  refine sound.step ⟨arena.size⟩ nested (.add arena record) ?_ ?_ ?_ ?_ others ?_
  · simp [added, superType]
  · simp [added, interfaces]
  · simp [added, stages, Stages.none]
  · simp [added, stages, Stages.none]
  · refine sound.acyclic.of_parents fun other => ?_
    by_cases same : other = ⟨arena.size⟩
    · have absent : arena.get other = { name := "" } := arena.get_absent (by simp [same])
      rw [parents, parents, absent]
      simp [ClassRecord.supertypes, same, added, superType, interfaces]
    · rw [parents, others other same, parents]

theorem withSupertypes (inside : id.index < arena.size)
    {interfaces : List Ty} (superclass : ∀ type, superType = some type → arena.Extendable type)
    (implemented : ∀ type ∈ interfaces, arena.Implementable type) (rooted : superType = none → arena.Topmost root id)
    (passed : (arena.withSupertypes id superType interfaces).checkCycles id = .ok ()) :
    (arena.withSupertypes id superType interfaces).Hierarchy root := by
  have changed : (arena.withSupertypes id superType interfaces).get id = _ := arena.get_modify_self inside _
  refine sound.step id nested (.modify rfl) ?_ ?_ ?_ (fun outside => by omega)
    (fun other apart => arena.get_modify_other apart _) (sound.acyclic.withSupertypes passed)
  · rw [changed]
    exact superclass
  · rw [changed]
    exact implemented
  · rw [changed]
    exact fun _ _ none => rooted none

end Sound

end Hierarchy

/-- Every class is declared in a source, and a goal must produce what is left of it. -/
structure FromSources (config : Config) (u : Universe) (arena : Arena) : Prop extends
    arena.Hierarchy config.rootClass where
  nested : arena.Nested
  outers : ∀ id : ClassId, id.index < arena.size → ∀ outer, arena.outer? id = some outer →
    ¬ u.HasPackage (arena.fullName outer)
  declared : ∀ id : ClassId, id.index < arena.size → ∃ flags, (arena.fullName id, flags) ∈ u.declared ∧
    (arena.get id).flags.isInterface = flags.isInterface ∧ (arena.get id).flags.isFinal = flags.isFinal
  jobbed : ∀ id : ClassId, id.index < arena.size → (arena.get id).job.isSome
  scheduled : ∀ id : ClassId, id.index < arena.size → (arena.get id).completion = some .scheduled ∨
    (arena.get id).completion = none ∧ (arena.get id).stages.has .supertypesResolved

end Arena

/-- What a name may stand for: the class of that name, or one that the name lies below. Packages stand for
no class, nor does anything below a class that was taken for one. -/
structure Arena.Names (u : Universe) (arena : Arena) (name : String) (id : ClassId) : Prop where
  inside : id.index < arena.size
  free : ¬ u.HasPackage name
  fits : arena.fullName id = name ∨ isBelow (arena.fullName id) name ∧ ¬ u.HasPackage (arena.fullName id)

/-- A cache answers a name only with a class that the name may stand for, and it takes no package for missing. -/
structure Layers.FromSources (u : Universe) (arena : Arena) (layers : Layers) : Prop where
  cached : ∀ name id, layers.check name = some (.cls id) → arena.Names u name id
  packages : ∀ name, layers.knownPackage name = some false → ¬ u.HasPackage name

/-- A world that a session over sources alone can be in. -/
structure World.FromSources (config : Config) (u : Universe) (w : World) : Prop where
  configured : w.config = config
  sources : w.sources = .ofList u.sources
  files : ∀ name, w.classPath.find? name = none
  jobs : ∀ source ∈ w.schedule.jobs, source ∈ u.sources
  arena : w.arena.FromSources config u
  root : ∀ id, w.root = some id → id.index < w.arena.size ∧ w.arena.fullName id = config.rootClass
  system : w.system.FromSources u w.arena
  tabled : ∀ name id, (w.table .session).find? name = some (.cls id) →
    id.index < w.arena.size ∧ w.arena.fullName id = name
  memos : ∀ key name id, (w.memo key).find? name = some (.found (.cls id)) → id.index < w.arena.size
  imports : ∀ key, (w.importTable key).Inside w.arena.size

theorem Arena.Names.later (names : arena.Names u name id) (nested : arena.Nested)
    (kept : arena.Keeps after) : after.Names u name id := by
  refine ⟨kept.inside names.inside, names.free, ?_⟩
  rw [kept.fullName nested names.inside]
  exact names.fits

abbrev SourcesKept (config : Config) (u : Universe) : World → World → Prop :=
  Kept (World.FromSources config u) World.Keeps

namespace World.FromSources

variable {config : Config} {u : Universe} {w : World} {full : String}

theorem withArena (sound : w.FromSources config u) (kept : w.arena.Keeps arena) (next : arena.FromSources config u) :
    ({ w with arena } : World).FromSources config u := by
  have nested := sound.arena.nested
  refine { sound with arena := next, root := ?_, system := ?_, tabled := ?_, memos := ?_, imports := ?_ }
  · intro id found
    obtain ⟨inside, named⟩ := sound.root id found
    exact ⟨kept.inside inside, (kept.fullName nested inside).trans named⟩
  · exact ⟨fun name id found => (sound.system.cached name id found).later nested kept, sound.system.packages⟩
  · intro name id found
    obtain ⟨inside, named⟩ := sound.tabled name id found
    exact ⟨kept.inside inside, (kept.fullName nested inside).trans named⟩
  · exact fun key name id found => kept.inside (sound.memos key name id found)
  · intro key
    have known := sound.imports key
    exact ⟨fun short full id found => kept.inside (known.imported short full id found),
      fun name id found => kept.inside (known.memo name id found)⟩

section Frames

variable (sound : w.FromSources config u)
include sound

theorem withMemo (key : MemoKey) {memo : Memo}
    (found : ∀ name id, memo.find? name = some (.found (.cls id)) → id.index < w.arena.size) :
    ({ w with memos := w.memos.insert key memo } : World).FromSources config u := by
  refine { sound with memos := fun other name id hit => ?_ }
  simp only [World.memo, Assoc.getD, Assoc.find?_insert] at hit
  split at hit
  · exact found name id hit
  · exact sound.memos other name id hit

theorem withImports (key : ImportKey) {table : ImportTable} (found : table.Inside w.arena.size) :
    ({ w with imports := w.imports.insert key table } : World).FromSources config u := by
  refine { sound with imports := fun other => ?_ }
  simp only [importTable, Assoc.getD, Assoc.find?_insert]
  split
  · exact found
  · exact sound.imports other

theorem withTable (inside : id.index < w.arena.size) (named : w.arena.fullName id = full) :
    ({ w with tables := w.tables.insert .session ((w.table .session).insert full (.cls id)) } : World).FromSources
      config u := by
  refine { sound with tabled := fun name other hit => ?_ }
  simp only [World.table, Assoc.getD, Assoc.find?_insert, if_true, Option.getD_some] at hit
  split at hit
  · rename_i same
    cases hit
    exact ⟨inside, same ▸ named⟩
  · exact sound.tabled name other hit

theorem recached {after : World} {layers : Layers} (same : w.Recaches after) (left : after.system = layers)
    (held : layers.FromSources u w.arena) : after.FromSources config u := by
  rw [← left, same] at held
  rw [same]
  exact { sound with system := held }

theorem withSchedule {schedule : Schedule} (jobs : ∀ source ∈ schedule.jobs, source ∈ u.sources) :
    ({ w with schedule } : World).FromSources config u :=
  { sound with jobs }

theorem withRoot (inside : id.index < w.arena.size) (named : w.arena.fullName id = config.rootClass) :
    ({ w with root := some id } : World).FromSources config u := by
  refine { sound with root := fun other hit => ?_ }
  cases hit
  exact ⟨inside, named⟩

end Frames

section Arenas

variable {id : ClassId}

theorem withRecord (sound : w.FromSources config u)
    (header : (change (w.arena.get id)).header = (w.arena.get id).header)
    (hierarchy : (w.arena.modify id change).Hierarchy config.rootClass)
    (scheduled : id.index < w.arena.size → (change (w.arena.get id)).completion = some .scheduled ∨
      (change (w.arena.get id)).completion = none ∧ (change (w.arena.get id)).stages.has .supertypesResolved) :
    ({ w with arena := w.arena.modify id change } : World).FromSources config u ∧
      w.Keeps { w with arena := w.arena.modify id change } := by
  have kept : w.arena.Keeps (w.arena.modify id change) := .modify header
  have nested := sound.arena.nested
  have outer (other : ClassId) (inside : other.index < w.arena.size) :
      (w.arena.modify id change).outer? other = w.arena.outer? other := by
    rw [Arena.outer?, kept.kind inside, Arena.outer?]
  refine ⟨sound.withArena kept {
    hierarchy with nested := ?_, outers := ?_, declared := ?_, jobbed := ?_, scheduled := ?_ }, kept⟩
  · exact nested.keeps kept (by simp)
  · intro other inside around encloses
    rw [Arena.size_modify] at inside
    rw [outer other inside] at encloses
    rw [kept.fullName nested (Nat.lt_trans (nested other inside around encloses) inside)]
    exact sound.arena.outers other inside around encloses
  · intro other inside
    rw [Arena.size_modify] at inside
    rw [kept.fullName nested inside, kept.flags inside]
    exact sound.arena.declared other inside
  · intro other inside
    rw [Arena.size_modify] at inside
    rw [kept.job inside]
    exact sound.arena.jobbed other inside
  · intro other inside
    rw [Arena.size_modify] at inside
    rw [Arena.get_modify]
    split
    · rename_i both
      exact scheduled both.2
    · exact sound.arena.scheduled other inside

theorem withShell (sound : w.FromSources config u) (listed : (full, flags) ∈ u.declared)
    (sameFlags : record.flags.isInterface = flags.isInterface ∧ record.flags.isFinal = flags.isFinal)
    (shell : record.superType = none ∧ record.interfaces = [] ∧ record.stages = .none)
    (scheduled : record.job.isSome ∧ record.completion = some .scheduled)
    (around : ∀ outer, record.kind.outer? = some outer → outer.index < w.arena.size ∧
      ¬ u.HasPackage (w.arena.fullName outer)) (named : (w.arena.add record).2.fullName ⟨w.arena.size⟩ = full) :
    ({ w with arena := (w.arena.add record).2 } : World).FromSources config u := by
  have kept : w.arena.Keeps (w.arena.add record).2 := .add w.arena record
  have nested := sound.arena.nested
  have added := w.arena.get_add_new record
  refine sound.withArena kept {
    sound.arena.toHierarchy.add nested shell.1 shell.2.1 shell.2.2 with
    nested := ?_, outers := ?_, declared := ?_, jobbed := ?_, scheduled := ?_ }
  · exact nested.add fun outer encloses => (around outer encloses).1
  · intro id inside outer encloses
    rcases w.arena.cases_add inside with ⟨before, same⟩ | rfl
    · rw [Arena.outer?, same] at encloses
      rw [kept.fullName nested (Nat.lt_trans (nested id before outer encloses) before)]
      exact sound.arena.outers id before outer encloses
    · rw [Arena.outer?, added] at encloses
      rw [kept.fullName nested (around outer encloses).1]
      exact (around outer encloses).2
  · intro id inside
    rcases w.arena.cases_add inside with ⟨before, same⟩ | rfl
    · rw [kept.fullName nested before, same]
      exact sound.arena.declared id before
    · rw [added, named]
      exact ⟨flags, listed, sameFlags⟩
  · intro id inside
    rcases w.arena.cases_add inside with ⟨before, same⟩ | rfl
    · rw [same]
      exact sound.arena.jobbed id before
    · rw [added]
      exact scheduled.1
  · intro id inside
    rcases w.arena.cases_add inside with ⟨before, same⟩ | rfl
    · rw [same]
      exact sound.arena.scheduled id before
    · rw [added]
      exact .inl scheduled.2

end Arenas

end World.FromSources

end ClassUniverse
