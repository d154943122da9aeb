import ClassUniverse.Proofs.HaltingLookups
import ClassUniverse.Proofs.RespectsDeclaration

/-! Passes over declarations in sessions over sources. A pass over a class adds no class, and a pass over a job
adds no more classes than are declared. -/
namespace ClassUniverse

open Run

variable {x : Run α}

/-- At most one superclass, besides the interfaces. -/
theorem Loader.declaredSupertypes_few {u : Universe} (l : Loader) (id : ClassId) (listed : decl ∈ u.declarations) :
    (l.declaredSupertypes id decl).Answers fun found => found.1.toList.length + found.2.length ≤ u.width := by
  refine fun s w => (l.declaredSupertypes_each id decl s w).mono (fun found _ _ same => ?_) fun _ _ _ _ => trivial
  have bound := Universe.interfaces_lt_width listed
  have single := found.1.length_toList_le
  omega

/-- As far as the computation comes to an end, everything is still from sources. -/
abbrev Run.StaysSourced (u : Universe) (x : Run α) : Prop := x.Within (Kept (World.SourceOnly u) Anything)

/-- The computation comes to an end, and adds so many classes at most. -/
abbrev Run.Adds (u : Universe) (more : Nat) (x : Run α) : Prop := x.Steady (World.SourceOnly u) (World.Widens more)

/-- The computation comes to an end, and adds no class. -/
abbrev Run.AddsNone (u : Universe) (limit : Nat) (x : Run α) : Prop :=
  x.Steady (World.Limited u limit) (World.Widens 0)

section Judgements

variable {f : α → Run β}

theorem Run.Steady.staysSourced (steady : x.Steady (World.SourceOnly u) G) :
    x.StaysSourced u := steady.within.weaken fun _ _ kept holds => ⟨(kept holds).1, trivial⟩

theorem Loader.Respects.staysSourced {l : Loader} (sound : l.Respects (SourceKept u)) :
    l.Respects (Kept (World.SourceOnly u) Anything) := sound.weaken fun _ _ kept holds => ⟨(kept holds).1, trivial⟩

theorem Run.Steady.addsNone (calm : x.Calm u limit) : x.AddsNone u limit :=
  calm.weaken (fun _ holds => holds) fun _ _ _ later looks => ⟨later, looks.toWidens⟩

theorem Run.Finishes.limited
    (finishes : x.Finishes (World.SourceOnly u) (World.Widens 0) w good) (holds : w.Limited u limit) :
    x.Finishes (World.Limited u limit) (World.Widens 0) w good :=
  finishes.weaken fun _ later widens => ⟨⟨later, Nat.le_trans widens.bound holds.size⟩, widens⟩

theorem Run.Steady.adds (steady : x.Looks u) : x.Adds u 0 :=
  steady.weaken (fun _ holds => holds) fun _ _ _ later looks => ⟨later, looks.toWidens⟩

theorem Run.Steady.addsMore (adds : x.Adds u m) (more : m ≤ n) : x.Adds u n :=
  adds.weaken (fun _ holds => holds) fun _ _ _ later widens => ⟨later, widens.mono more⟩

theorem Run.adds_bind (first : x.Adds u m) (rest : ∀ a, (f a).Adds u n) : (x >>= f).Adds u (m + n) := fun w holds =>
  (first w holds).andThen (fun a middle holds _ _ => rest a middle holds) (fun _ _ => World.Widens.trans)
    fun _ widens => widens.mono (Nat.le_add_right m n)

theorem Run.adds_pure (a : α) : (pure a : Run α).Adds u n := (steady_pure a).adds.addsMore (Nat.zero_le n)

theorem Run.adds_look (first : x.Looks u) (rest : ∀ a, (f a).Adds u n) :
    (x >>= f).Adds u n := (adds_bind first.adds rest).addsMore (by omega)

end Judgements

section Storing

variable {id : ClassId}

/-- Only classes in the arena have declarations, and those are of the universe. -/
theorem Run.declarationOf_finishes [WorldOrder G] (holds : P w) (sourced : w.SourceOnly u) :
    (declarationOf id).Finishes P G w fun decl after => after = w ∧ decl ∈ u.declarations := by
  apply finishes_read rfl
  split
  · rename_i decl found
    exact finishes_pure holds ⟨rfl, (sourced.declared id decl found).2⟩
  · exact finishes_fault holds

theorem Run.storeSupertypes_finishes (holds : w.SourceOnly u)
    (few : superType.toList.length + interfaces.length ≤ u.width) :
    (storeSupertypes id superType interfaces).Finishes (World.SourceOnly u) (World.Widens 0) w fun _ _ => True := by
  let stored : World := { w with arena := w.arena.modify id fun record => { record with superType, interfaces } }
  have widens : w.Widens 0 stored :=
    ⟨Nat.le_of_eq (Arena.size_modify ..).symm, Nat.le_of_eq (Arena.size_modify ..), [], by simp [stored]⟩
  refine ⟨?_, ends_storeSupertypes (fun passed => ?_) fun _ => ⟨holds, WorldOrder.refl w⟩⟩
  · rw [on_storeSupertypes]
    dsimp only
    split <;> rfl
  · have sourced : stored.SourceOnly u := by
      refine { holds with
        declared := ?_, scheduled := fun other => ?_, width := fun other => ?_, acyclic := holds.acyclic.withSupertypes passed }
      · intro other decl found
        rw [Arena.size_modify]
        exact holds.declared other decl found
      · rw [Arena.get_modify]
        split
        · exact holds.scheduled id
        · exact holds.scheduled other
      · rw [Arena.get_modify]
        split
        · rw [ClassRecord.supertypes, List.length_append]
          exact few
        · exact holds.width other
    obtain ⟨later, looks⟩ := (ends_mark.mp (SourceKept.mark_steady id .supertypesResolved stored sourced).gives).1
    exact ⟨⟨later, widens.trans looks.toWidens⟩, trivial⟩

theorem Loader.addMembers_adds (id : ClassId) : (addMembers id).Adds u 0 := by
  refine steady_bind (fun w holds => ?_) fun decl => steady_bind (reads_record id).steady fun owner => ?_
  · exact (declarationOf_finishes holds holds).mono fun _ _ _ _ _ => trivial
  refine steady_bind (steady_composes.mapM fun d _ => steady_composes.toField id owner d) fun fields => ?_
  refine steady_bind (steady_composes.mapM fun d _ => steady_composes.toMethod id owner d) fun methods => ?_
  refine steady_bind (steady_composes.mapM fun d _ => steady_composes.toConstructor id owner d) fun constructors => ?_
  exact (SourceKept.members_steady id _ fields methods _).adds

end Storing

section Declaring

variable {u : Universe} {record : ClassRecord}

theorem World.SourceOnly.add {w : World} (holds : w.SourceOnly u)
    (waiting : record.completion = some .scheduled) (bare : record.supertypes = []) :
    SourceOnly u { w with arena := (w.arena.add record).2 } := by
  have supertypes (id : ClassId) : ((w.arena.add record).2.get id).supertypes = (w.arena.get id).supertypes := by
    rw [Arena.get_add]
    split
    · rename_i last
      rw [bare, w.arena.get_absent (Nat.le_of_eq last.symm)]
      rfl
    · rfl
  refine { holds with
    declared := fun id decl found => ?_, scheduled := fun id => ?_, width := fun id => ?_, acyclic := ?_ }
  · obtain ⟨inside, listed⟩ := holds.declared id decl found
    exact ⟨by rw [Arena.size_add]; omega, listed⟩
  · rw [Arena.get_add]
    split
    · exact .inr waiting
    · exact holds.scheduled id
  · rw [supertypes]
    exact holds.width id
  · refine holds.acyclic.of_parents fun id => ?_
    rw [Arena.parents, supertypes, Arena.parents]

theorem Run.addDeclared_adds {f : ClassId → Run α}
    (waiting : record.completion = some .scheduled) (bare : record.supertypes = []) (listed : decl ∈ u.declarations)
    (rest : ∀ id, (f id).Adds u n) : (do
      let id ← addClass record
      modify fun w => { w with declarations := w.declarations.insert id decl }
      f id : Run α).Adds u (n + 1) := by
  intro w holds
  have added : (addClass record).Finishes (World.SourceOnly u) (World.Widens 1) w
      fun id after => id.index < after.arena.size := by
    refine ⟨rfl, ends_addClass.mpr ⟨⟨holds.add waiting bare, ?_, ?_, [], by simp⟩, ?_⟩⟩
    all_goals simp
  refine added.andThen (H := World.Widens n) (fun id middle holds _ inside => ?_)
    (fun _ _ first second => (first.trans second).mono (by omega)) fun _ widens => widens.mono (by omega)
  let recorded : World := { middle with declarations := middle.declarations.insert id decl }
  have sourced : recorded.SourceOnly u := by
    refine { holds with declared := fun other known found => ?_ }
    rw [Assoc.find?_insert] at found
    split at found
    · rename_i same
      cases found
      exact ⟨same ▸ inside, listed⟩
    · exact holds.declared other known found
  have same : middle.Widens 0 recorded := ⟨Nat.le_refl _, Nat.le_refl _, [], by simp [recorded]⟩
  exact finishes_step rfl (rest id recorded sourced) fun _ _ widens => (same.trans widens).mono (by omega)

theorem ClassDecl.declareShell_adds (job : JobId) (path : String) (kind : ClassKind) (package : Option Package)
    (full : String) (listed : decl ∈ u.declarations) : (decl.declareShell job path kind package full).Adds u 1 := by
  refine adds_look reads_arena.steady fun _ => adds_look (steady_composes.checkFlags _ _ _) fun _ => ?_
  refine addDeclared_adds ?_ ?_ listed fun id => ?_
  · rfl
  · rfl
  refine adds_look (steady_modify fun w => SourceKept.of_same rfl rfl rfl rfl rfl) fun _ => ?_
  have filed := (steady_fillsCache (SourceKept.of_caches (u := u)) .session).addNamed steady_composes.knowsPackage full
    (.cls id)
  exact adds_look filed fun _ => adds_pure _

mutual

theorem ClassDecl.declare_adds (job : JobId) (path : String) (kind : ClassKind) (package : Option Package)
    (full : String) : (decl : ClassDecl) → (∀ inner ∈ decl.nested, inner ∈ u.declarations) →
      (decl.declare job path kind package full).Adds u decl.nested.length
  | ⟨name, flags, superclass, interfaces, fields, methods, constructors, members, line⟩, listed => by
    unfold ClassDecl.nested at listed ⊢
    have shell := declareShell_adds job path kind package full (listed _ List.mem_cons_self)
    refine (adds_bind shell fun id => adds_bind (declareMembers_adds job path id package full members ?_) fun _ =>
      adds_pure id (n := 0)).addsMore ?_
    · exact fun inner member => listed inner (List.mem_cons_of_mem _ member)
    · rw [List.length_cons]
      omega

theorem ClassDecl.declareMembers_adds (job : JobId) (path : String) (outer : ClassId) (package : Option Package)
    (full : String) : (members : List ClassDecl) → (∀ inner ∈ nestedIn members, inner ∈ u.declarations) →
      (declareMembers job path outer package full members).Adds u (nestedIn members).length
  | [], _ => by
    exact adds_pure _
  | member :: rest, listed => by
    unfold nestedIn at listed ⊢
    have noted (id : ClassId) : (update outer fun record => { record with
        members := record.members ++ [id] }).Looks u :=
      steady_modify fun w => SourceKept.of_modify rfl rfl (.inr rfl)
    rw [List.length_append]
    refine adds_bind (declare_adds job path _ package _ member fun inner known => ?_) fun id => ?_
    · exact listed inner (List.mem_append_left _ known)
    · refine adds_look (noted id) fun _ => declareMembers_adds job path outer package full rest fun inner known => ?_
      exact listed inner (List.mem_append_right _ known)

end

theorem SourceFile.declareClass_adds (source : SourceFile) (job : JobId)
    (listed : ∀ inner ∈ decl.nested, inner ∈ u.declarations) :
    (source.declareClass job decl).Adds u decl.nested.length := by
  have declared (full : String) : (discard
      (decl.declare job source.path .topLevel (source.package.map Package.mk) full)).Adds u decl.nested.length := by
    exact adds_bind (decl.declare_adds job source.path _ _ full listed) fun _ => adds_pure () (n := 0)
  refine adds_look reads_get.steady fun w => ?_
  exact steady_ite (adds_pure _) (declared _)

theorem SourceFile.declareAll_adds (listed : source ∈ u.sources) (job : JobId) :
    (source.declareAll job).Adds u source.declarations.length := by
  have each (decls : List ClassDecl) (listed : ∀ inner ∈ ClassDecl.nestedIn decls, inner ∈ u.declarations) :
      (decls.forM (source.declareClass job)).Adds u (ClassDecl.nestedIn decls).length := by
    induction decls with
    | nil => exact adds_pure _
    | cons decl rest ih =>
      unfold ClassDecl.nestedIn at listed ⊢
      rw [List.length_append]
      refine adds_bind (source.declareClass_adds job fun inner known => ?_) fun _ => ih fun inner known => ?_
      · exact listed inner (List.mem_append_left _ known)
      · exact listed inner (List.mem_append_right _ known)
  refine adds_look reads_get.steady fun w => ?_
  refine adds_look (steady_modify fun w => SourceKept.of_same rfl rfl rfl rfl rfl) fun _ => ?_
  exact each source.classes fun inner known => List.mem_flatMap.mpr ⟨source, listed, known⟩

theorem Loader.initializeTypes_adds (job : JobId) : (initializeTypes job).Adds u u.declarations.length := by
  intro w holds
  apply finishes_read rfl
  split
  · rename_i source found
    have listed : source ∈ u.sources := holds.jobs source (List.mem_of_getElem? found)
    exact (source.declareAll_adds listed job).addsMore (Universe.length_declarations listed) w holds
  · exact (steady_fault _ _).adds.addsMore (Nat.zero_le _) w holds

end Declaring

namespace Loader

variable {l : Loader}

theorem resolveSupertypes_addsNone (ready : l.Ready u limit) (id : ClassId) :
    (l.resolveSupertypes id).AddsNone u limit := by
  intro w holds
  refine (declarationOf_finishes holds holds.toSourceOnly).bind fun decl _ holds _ given => ?_
  refine (steady_composes.headerScope id _ holds).bind fun scope _ holds _ _ => ?_
  have calm : (l.declaredSupertypes id decl).Calm u limit :=
    Scoped.steady_composes.declaredSupertypes ready.resolves id decl
  have looked := (calm.inScope scope).addsNone _ holds
  refine (looked.meets ((l.declaredSupertypes_few id given.2).inScope scope)).bind fun found _ holds _ few => ?_
  exact (storeSupertypes_finishes holds.toSourceOnly few).limited holds

theorem resolveSupertypes_staysSourced (sound : l.Respects (SourceKept u)) (id : ClassId) :
    (l.resolveSupertypes id).StaysSourced u := by
  suffices gives : ∀ w, w.SourceOnly u →
      (l.resolveSupertypes id).Gives (World.SourceOnly u) Anything w fun _ _ => True from within_of_gives gives
  intro w holds
  refine (declarationOf_finishes holds holds).gives.bind fun decl _ holds _ given => ?_
  refine (within_composes.headerScope id).andThen holds fun scope _ holds _ => ?_
  refine ((Scoped.within_composes.declaredSupertypes sound.staysSourced.resolves id decl).inScope scope).andThenMeets
    ((l.declaredSupertypes_few id given.2).inScope scope) holds fun found _ holds _ few => ?_
  exact (storeSupertypes_finishes holds few).gives.coarsen fun _ _ => trivial

theorem resolveSignatures_addsNone (ready : l.Ready u limit) (id : ClassId) :
    (l.resolveSignatures id).AddsNone u limit := by
  refine steady_bind (steady_composes.bodyScope id) fun scope => steady_bind (reads_record id).steady fun record => ?_
  have calm : (l.resolveMembers record).Calm u limit := Scoped.steady_composes.resolveMembers ready.resolves record
  refine steady_bind (calm.inScope scope).addsNone fun resolved => ?_
  exact (SourceKept.members_steady id _ _ _ _).calm.addsNone

end Loader

end ClassUniverse
