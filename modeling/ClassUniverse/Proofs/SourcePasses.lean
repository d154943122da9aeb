import ClassUniverse.Proofs.SourceScopes
import ClassUniverse.Proofs.StagesPasses

/-! What is done to classes in a session over sources: stages are ensured, shells declared, supertypes set and
members added. Each step keeps the hierarchy sound. -/
namespace ClassUniverse

open Run Loader

/-- Supertypes, and the promise that they are known, stay as they were. -/
structure ClassRecord.SameLineage (r after : ClassRecord) : Prop where
  header : after.header = r.header
  superType : after.superType = r.superType
  interfaces : after.interfaces = r.interfaces
  resolved : after.stages.has .supertypesResolved = r.stages.has .supertypesResolved
  completion : after.completion = r.completion ∨ after.completion = none ∧ after.stages.has .supertypesResolved

theorem ClassRecord.completion_markStage (r : ClassRecord) (stage : Stage) :
    (r.markStage stage).completion = r.completion ∨
      (r.markStage stage).completion = none ∧ (r.markStage stage).stages.has .supertypesResolved := by
  simp only [markStage]
  split
  · rename_i complete
    exact .inr ⟨rfl, (isComplete_iff _).mp complete _⟩
  · exact .inl rfl

namespace ClassRecord.SameLineage

variable {r middle after : ClassRecord}

theorem trans (first : r.SameLineage middle) (second : middle.SameLineage after) : r.SameLineage after where
  header := second.header.trans first.header
  superType := second.superType.trans first.superType
  interfaces := second.interfaces.trans first.interfaces
  resolved := second.resolved.trans first.resolved
  completion := by
    rcases second.completion with same | dropped
    · rw [same, second.resolved]
      exact first.completion
    · exact .inr dropped

theorem markStage (stage : Stage) (known : stage = .supertypesResolved → r.stages.has .supertypesResolved) :
    r.SameLineage (r.markStage stage) := by
  have resolved : (r.markStage stage).stages.has .supertypesResolved = r.stages.has .supertypesResolved := by
    rw [has_markStage]
    cases stage with
    | supertypesResolved => simp [known rfl]
    | _ => simp
  exact ⟨rfl, rfl, rfl, resolved, r.completion_markStage stage⟩

theorem withMembers (r : ClassRecord) (fields : List Field) (methods : List Method) (constructors : List Constructor)
    (stage : Stage) (later : stage ≠ .supertypesResolved) :
    r.SameLineage ({ r with fields, methods, constructors }.markStage stage) := by
  have stored : r.SameLineage { r with fields, methods, constructors } := ⟨rfl, rfl, rfl, rfl, .inl rfl⟩
  exact stored.trans (.markStage stage fun first => absurd first later)

end ClassRecord.SameLineage

variable {config : Config} {u : Universe} {w : World} {l : Loader} {id : ClassId}

section Records

variable {change : ClassRecord → ClassRecord}

theorem update_finds (holds : w.FromSources config u)
    (same : (w.arena.get id).SameLineage (change (w.arena.get id))) :
    (update id change).Finds config u w fun _ _ => True := by
  refine ends_update.mpr ⟨holds.withRecord same.header ?_ fun inside => ?_, trivial⟩
  · refine holds.arena.toHierarchy.modify holds.arena.nested same.header same.superType same.interfaces ?_
    rw [same.resolved]
    exact holds.arena.rooted id
  · rcases same.completion with kept | dropped
    · rw [kept, same.resolved]
      exact holds.arena.scheduled id inside
    · exact .inr dropped

theorem update_sources (same : ∀ r : ClassRecord, r.SameLineage (change r)) (id : ClassId) :
    (update id change).Within (SourcesKept config u) :=
  within_of_gives fun w holds => update_finds holds (same (w.arena.get id))

theorem mark_finds (holds : w.FromSources config u) (stage : Stage)
    (known : stage = .supertypesResolved → (w.arena.get id).stages.has .supertypesResolved) :
    (mark id stage).Finds config u w fun _ _ => True :=
  update_finds holds (.markStage stage known)

/-- The first stage may be marked once the supertypes are set. -/
theorem markResolved_finds (holds : w.FromSources config u)
    (rooted : (w.arena.get id).superType = none → w.arena.Topmost config.rootClass id) :
    (mark id .supertypesResolved).Finds config u w fun _ _ => True := by
  refine ends_mark.mpr ⟨holds.withRecord rfl ?_ fun inside => ?_, trivial⟩
  · exact holds.arena.toHierarchy.modify holds.arena.nested rfl rfl rfl fun _ none => rooted none
  · rcases (w.arena.get id).completion_markStage .supertypesResolved with kept | dropped
    · rcases holds.arena.scheduled id inside with waiting | ⟨done, resolved⟩
      · exact .inl (kept.trans waiting)
      · refine .inr ⟨kept.trans done, ?_⟩
        simp [ClassRecord.has_markStage]
    · exact .inr dropped

end Records

theorem checkScheduled_finds (holds : w.FromSources config u) (stage : Stage) :
    (checkScheduled id stage).Finds config u w fun _ _ => True := by
  refine gives_record.mpr (gives_ite (fun _ => gives_pure holds trivial) fun _ => ?_)
  refine gives_ite (fun short => mark_finds holds _ ?_) fun _ => gives_throw _ holds
  simp only [Bool.and_eq_true, decide_eq_true_eq] at short
  rw [short.1.1]
  nofun

/-- A class that is still incomplete waits for a goal; the others have all their stages. -/
theorem complete_finds (holds : w.FromSources config u) (stage : Stage) :
    (l.complete id stage (w.arena.get id).completion).Finds config u w fun _ _ => True := by
  by_cases inside : id.index < w.arena.size
  · rcases holds.arena.scheduled id inside with waiting | ⟨done, resolved⟩
    · rw [waiting]
      exact checkScheduled_finds holds stage
    · rw [done]
      exact mark_finds holds stage fun _ => resolved
  · rw [Arena.get_absent _ (Nat.le_of_not_lt inside)]
    refine ends_mark.mpr ?_
    rw [Arena.modify_absent _ (Nat.le_of_not_lt inside)]
    exact ⟨⟨holds, WorldOrder.refl w⟩, trivial⟩

theorem ensureStage_sources (sound : l.FromSources config u) (id : ClassId) (stage : Stage) :
    (l.ensureStage id stage).Within (SourcesKept config u) := by
  have ensured (w : World) (holds : w.FromSources config u) :
      (l.ensureStage id stage).Finds config u w fun _ _ => True := by
    have before : (stage.prerequisites.forM (l.ensure id)).Within (SourcesKept config u) :=
      within_forM fun earlier _ => sound.ensure id earlier
    refine gives_get.mpr (gives_ite (fun _ => gives_pure holds trivial) fun _ => ?_)
    refine (before.gives holds).bind fun _ middle holds _ _ => gives_record.mpr ?_
    exact complete_finds holds stage
  exact within_of_gives ensured

theorem Loader.ofDepth_fromSources (depth : Nat) : (Loader.ofDepth depth).FromSources config u := by
  induction depth with
  | zero => exact ⟨fun _ _ => within_exhausted, fun _ => ends_exhausted.mpr trivial⟩
  | succ depth ih =>
    refine ⟨fun id stage => ensureStage_sources ih id stage, fun {name w} holds => ?_⟩
    refine gives_get.mpr ?_
    exact (Resolver.system_gives w.config _ name holds).coarsen fun _ same => same.keeps

theorem Flags.has_impliedForClass (flags : Flags) (inInterface : Bool)
    (other : flag ∉ [Flag.abstract, .publicAccess, .static]) :
    (flags.impliedForClass inInterface).has flag = flags.has flag := by
  have apart : flag ≠ .abstract ∧ flag ≠ .publicAccess ∧ flag ≠ .static := by simpa using other
  unfold impliedForClass
  split <;> split <;> simp [union, ofList, apart]

/-- A declared class exists under its name, which is no package. -/
structure World.Declares (u : Universe) (w : World) (full : String) (id : ClassId) : Prop where
  has : w.Has id
  named : w.arena.fullName id = full
  free : ¬ u.HasPackage full

theorem World.Declares.later {after : World} (declares : w.Declares u full id)
    (holds : w.FromSources config u) (kept : w.Keeps after) : after.Declares u full id :=
  ⟨kept.has declares.has, (Arena.Keeps.fullName kept holds.arena.nested declares.has).trans declares.named,
    declares.free⟩

/-- How a class comes by its full name. -/
inductive Arena.Placed (u : Universe) (arena : Arena) (name : String) : ClassKind → Option Package → String → Prop where
  | top (package : Option Package) : Placed u arena name .topLevel package
      (match package with
        | some package => qualify package.fullName name
        | none => name)
  | member {outer : ClassId} (package : Option Package) (inside : outer.index < arena.size)
      (free : ¬ u.HasPackage (arena.fullName outer)) :
      Placed u arena name (.memberOf outer) package (qualify (arena.fullName outer) name)

theorem Arena.Placed.around {arena : Arena} {kind : ClassKind}
    (placed : arena.Placed u name kind package full) (outer : ClassId) (encloses : kind.outer? = some outer) :
    outer.index < arena.size ∧ ¬ u.HasPackage (arena.fullName outer) := by
  cases placed with
  | top => cases encloses
  | member package inside free =>
    cases encloses
    exact ⟨inside, free⟩

theorem Arena.Placed.fullName_add {arena : Arena} {record : ClassRecord}
    (placed : arena.Placed u record.name record.kind record.package full) (nested : arena.Nested) :
    (arena.add record).2.fullName ⟨arena.size⟩ = full := by
  generalize kind : record.kind = k at placed
  generalize package : record.package = p at placed
  cases placed with
  | top =>
    have named := fullName_add_topLevel arena kind
    rw [package] at named
    cases p <;> exact named
  | member _ inside _ => rw [fullName_add_memberOf nested kind inside]

theorem System.addClass_finds (holds : w.FromSources config u) (has : w.Has id)
    (named : w.arena.fullName id = full) : (System.addNamed full (.cls id)).Finds config u w
      fun _ after => after.Declares u full id := by
  have fits (other : ClassId) (same : Named.cls id = .cls other) : other.index < w.arena.size ∧
      w.arena.fullName other = full := by
    cases same
    exact ⟨has, named⟩
  have added := ((reads w).addNamed_gives holds fits).coarsen fun _ same => same.keeps
  refine added.mono fun _ after _ kept names => ⟨kept.has has, ?_, (names id rfl).free⟩
  exact (Arena.Keeps.fullName kept holds.arena.nested has).trans named

theorem ClassDecl.declareShell_finds (job : JobId) (path : String)
    {decl : ClassDecl} (listed : (full, decl.flags) ∈ u.declared)
    (placed : w.arena.Placed u decl.name kind package full) (holds : w.FromSources config u) :
    (decl.declareShell job path kind package full).Finds config u w fun id after => after.Declares u full id := by
  let record := decl.shell job path kind package (decl.shellFlags kind w)
  have sameFlags : record.flags.isInterface = decl.flags.isInterface ∧ record.flags.isFinal = decl.flags.isFinal :=
    ⟨decl.flags.has_impliedForClass _ (by decide), decl.flags.has_impliedForClass _ (by decide)⟩
  have named : (w.arena.add record).2.fullName ⟨w.arena.size⟩ = full := placed.fullName_add holds.arena.nested
  have has : ({ w with arena := (w.arena.add record).2 } : World).Has ⟨w.arena.size⟩ := by
    simp [World.Has]
  have shelled := holds.withShell listed sameFlags ⟨rfl, rfl, rfl⟩ ⟨rfl, rfl⟩ placed.around named
  have tabled := shelled.withTable has named
  refine declareShell_gives holds (Arena.Keeps.add w.arena record) (System.addClass_finds ?_ has named)
  exact { tabled with }

mutual

theorem ClassDecl.declare_finds (job : JobId) (path : String)
    {w : World} : {decl : ClassDecl} → (∀ entry ∈ decl.declared full, entry ∈ u.declared) →
      w.arena.Placed u decl.name kind package full → w.FromSources config u →
      (decl.declare job path kind package full).Finds config u w fun id after => after.Declares u full id
  | ⟨name, flags, superclass, interfaces, fields, methods, constructors, members, line⟩, listed, placed, holds => by
    unfold declared at listed
    refine (declareShell_finds job path (listed _ (by simp)) placed holds).bind fun id middle holds _ declares => ?_
    have inner (entry : String × Flags) (member : entry ∈ declaredIn full members) : entry ∈ u.declared :=
      listed entry (by simp [member])
    refine (declareMembers_finds job path package inner declares holds).bind fun _ last holds _ declares => ?_
    exact gives_pure holds declares

theorem ClassDecl.declareMembers_finds (job : JobId) (path : String) (package : Option Package)
    {w : World} : {members : List ClassDecl} →
      (∀ entry ∈ declaredIn full members, entry ∈ u.declared) → w.Declares u full outer →
      w.FromSources config u → (declareMembers job path outer package full members).Finds config u w
        fun _ after => after.Declares u full outer
  | [], _, declares, holds => by
    exact gives_pure holds declares
  | member :: rest, listed, declares, holds => by
    unfold declaredIn at listed
    have placed : w.arena.Placed u member.name (.memberOf outer) package (qualify full member.name) := by
      rw [← declares.named]
      exact .member package declares.has (declares.named ▸ declares.free)
    refine (declare_finds job path (fun entry inside => listed entry (by simp [inside])) placed holds).bind
      fun id middle between kept _ => ?_
    have declares := declares.later holds kept
    have noted : (update outer fun record => { record with members := record.members ++ [id] }).Finds config u
        middle fun _ _ => True := update_finds between ⟨rfl, rfl, rfl, rfl, .inl rfl⟩
    refine noted.bind fun _ last holds kept _ => ?_
    exact declareMembers_finds job path package (fun entry inside => listed entry (by simp [inside]))
      (declares.later between kept) holds

end

theorem SourceFile.importTable_inside (source : SourceFile) (config : Config) (size : Nat) :
    (source.importTable config).Inside size := by
  have added (imports : List String) (table : ImportTable) (fresh : table.Inside size) :
      (imports.foldl ImportTable.add table).Inside size := by
    induction imports generalizing table with
    | nil => exact fresh
    | cons written rest ih =>
      refine ih _ ?_
      unfold ImportTable.add ImportTable.addPackage ImportTable.addClass
      split
      · split
        · exact fresh
        · exact ⟨fresh.imported, fresh.memo⟩
      · exact ⟨fresh.imported, fresh.memo⟩
  exact added _ _ ⟨nofun, nofun⟩

theorem SourceFile.declareClass_finds {source : SourceFile} (listed : source ∈ u.sources) (job : JobId)
    (top : decl ∈ source.classes) (holds : w.FromSources config u) :
    (source.declareClass job decl).Finds config u w fun _ _ => True := by
  refine gives_get.mpr (gives_ite (fun _ => gives_pure holds trivial) fun _ => ?_)
  have placed : w.arena.Placed u decl.name .topLevel (source.package.map Package.mk) (source.nameOf decl) := by
    have here : w.arena.Placed u decl.name .topLevel (source.package.map Package.mk) _ := .top _
    unfold nameOf
    cases lies : source.package with
    | none => simpa [lies] using here
    | some package => simpa [lies] using here
  exact (decl.declare_finds job source.path (Universe.mem_declared listed top) placed holds).discard

theorem SourceFile.declareAll_finds {source : SourceFile} (listed : source ∈ u.sources) (job : JobId)
    (holds : w.FromSources config u) : (source.declareAll job).Finds config u w fun _ _ => True := by
  refine gives_get.mpr ?_
  have imported : (modifyImports (.unit job) fun _ => source.importTable w.config).Finds config u w
      fun _ _ => True :=
    ends_modify.mpr ⟨⟨holds.withImports _ (source.importTable_inside _ _), Arena.Keeps.refl w.arena⟩, trivial⟩
  refine imported.bind fun _ middle holds _ _ => ?_
  exact gives_forM (fun decl top w holds => declareClass_finds listed job top holds) holds

theorem Loader.initializeTypes_finds (job : JobId) (holds : w.FromSources config u) :
    (initializeTypes job).Finds config u w fun _ _ => True := by
  refine gives_get.mpr ?_
  split
  · rename_i source known
    exact SourceFile.declareAll_finds (holds.jobs source (List.mem_of_getElem? known)) job holds
  · exact gives_fault holds

theorem Run.storeSupertypes_finds (holds : w.FromSources config u) (has : w.Has id) {superType : Option Ty}
    {interfaces : List Ty} (fits : (∀ type, superType = some type → w.arena.Extendable type) ∧
      (superType = none → w.arena.Topmost config.rootClass id))
    (implementable : ∀ type ∈ interfaces, w.arena.Implementable type) :
    (storeSupertypes id superType interfaces).Finds config u w fun _ _ => True := by
  refine ends_storeSupertypes (fun passed => ?_) fun _ => ⟨holds, WorldOrder.refl w⟩
  obtain ⟨extendable, topmost⟩ := fits
  have hierarchy := holds.arena.toHierarchy.withSupertypes holds.arena.nested has extendable implementable topmost passed
  have stored := holds.withRecord rfl hierarchy fun inside => holds.arena.scheduled id inside
  have changed := w.arena.get_modify_self has fun record => { record with superType, interfaces }
  refine ends_mark.mp (Gives.since stored.2 (markResolved_finds stored.1 fun none => ?_))
  rw [changed] at none
  exact (Arena.Keeps.topmost stored.2 holds.arena.nested has).mpr (topmost none)

theorem Loader.resolveSupertypes_finds (rooted : u.Rooted config) (sound : l.FromSources config u)
    (holds : w.FromSources config u) : (l.resolveSupertypes id).Finds config u w fun _ _ => True := by
  have declared : (declarationOf id).Within (SourcesKept config u) := within_composes.declarationOf id
  refine (declared.gives holds).bind fun decl first holds _ _ => ?_
  refine (headerScope_finds holds.arena.nested holds).bind fun scope second holds _ given => ?_
  refine (declaredSupertypes_finds (sound.explores rooted) (fromSources_supers rooted sound id) decl holds given.1
    given.2).within.bind fun found third holds kept fits => ?_
  exact storeSupertypes_finds holds (kept.has given.2) fits.1 fits.2

end ClassUniverse
