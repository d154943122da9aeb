import ClassUniverse.Proofs.WholeLookups
import ClassUniverse.Proofs.SourcePasses

/-! The passes over declarations keep worlds whole: what a class is declared to extend and implement exists. -/
namespace ClassUniverse

open Run Loader

variable {D : String → Prop} {w : World} {l : Loader} {id : ClassId}

theorem Loader.whole_supers (sound : l.Explores (World.Whole D)) (id : ClassId) :
    l.Supers (World.Whole D) id fun superType w => ∀ type ∈ superType, w.HasType type where
  extendable := by
    rintro w _ _ ⟨above, rfl, inside, _⟩ _ ⟨⟩ _ ⟨⟩
    exact inside
  object whole := by
    refine (sound.root whole).bind fun root last whole _ has => gives_pure whole ?_
    rintro _ ⟨⟩ _ ⟨⟩
    exact has
  topmost _ _ := nofun
  lasting _ _ kept known type given := kept.hasType (known type given)

/-- Supertypes that close a cycle are taken back. -/
theorem Loader.resolveSupertypes_whole (sound : l.Explores (World.Whole D)) (id : ClassId) :
    (l.resolveSupertypes id).Within (WholeKept D) := by
  have resolved (w : World) (whole : w.Whole D) :
      (l.resolveSupertypes id).StaysWhole D w fun _ _ => True := by
    refine (within_composes.declarationOf id).andThen whole fun decl first whole _ => ?_
    refine (headerScope_finds whole.nested whole).bind fun scope second whole _ given => ?_
    refine (declaredSupertypes_finds sound (whole_supers sound id) decl whole given.1 given.2).within.bind
      fun found third whole _ exist => ?_
    have others (type : Ty) (member : type ∈ found.2) : third.HasType type := by
      obtain ⟨above, rfl, inside, _⟩ := exist.2 type member
      rintro _ ⟨⟩
      exact inside
    have stored : (update id fun record => { record with superType := found.1, interfaces := found.2 }).StaysWhole D
        third fun _ _ => True :=
      storeSupertypes_whole (fun _ => rfl) (fun _ => rfl) (fun _ left => left) exist.1 others whole
    have between := (ends_update.mp stored).1
    refine ends_storeSupertypes (fun _ => ?_) fun _ => ⟨whole, WorldOrder.refl third⟩
    exact ends_update.mp (Gives.since between.2 ((markStages_whole [.supertypesResolved]).gives between.1))
  exact within_of_gives resolved

theorem Loader.reachStage_whole (sound : l.Explores (World.Whole D)) (attempt : Attempt)
    (early : stage ≠ .allMembersAdded) (id : ClassId) : (l.reachStage attempt id stage).Within (WholeKept D) := by
  by_cases first : stage = .supertypesResolved
  · subst first
    exact resolveSupertypes_whole sound id
  · refine reachStage_within sound.respects attempt early (absurd · first) fun _ _ _ => ?_
    refine update_whole (fun _ => ?_) (fun _ => ?_) fun r left => ?_
    · rfl
    · rfl
    · have before := ClassRecord.left_markStage left
      exact before

theorem ClassDecl.declareShell_whole (job : JobId) (path : String) {kind : ClassKind} (package : Option Package)
    (full : String) (decl : ClassDecl) (around : ∀ outer, kind.outer? = some outer → w.Has outer)
    (whole : w.Whole D) :
    (decl.declareShell job path kind package full).StaysWhole D w fun id after => after.Has id := by
  let record := decl.shell job path kind package (decl.shellFlags kind w)
  have has : ({ w with arena := (w.arena.add record).2 } : World).Has ⟨w.arena.size⟩ := by
    simp [World.Has]
  have shelled : ({ w with arena := (w.arena.add record).2 } : World).Whole D :=
    whole.withClass (fun _ member => by cases member) around (by rintro ⟨⟩)
  have tabled := shelled.withTable full has
  have named : (w.addShell record decl full).HasNamed (.cls ⟨w.arena.size⟩) := by
    rintro _ ⟨⟩
    exact has
  refine declareShell_gives whole (Arena.Keeps.add w.arena record)
    (((System.reads _).addNamed_whole full named ?_).mono fun _ _ _ kept _ => kept.has has)
  exact { tabled with }

mutual

theorem ClassDecl.declare_whole (job : JobId) (path : String) {kind : ClassKind} (package : Option Package)
    (full : String) {w : World} : (decl : ClassDecl) → (∀ outer, kind.outer? = some outer → w.Has outer) → w.Whole D →
      (decl.declare job path kind package full).StaysWhole D w fun id after => after.Has id
  | ⟨name, flags, superclass, interfaces, fields, methods, constructors, members, line⟩, around, whole => by
    refine (declareShell_whole job path package full _ around whole).bind fun id middle whole _ has => ?_
    refine (declareMembers_whole job path package full members has whole).bind fun _ last whole kept _ => ?_
    exact gives_pure whole (kept.has has)

theorem ClassDecl.declareMembers_whole (job : JobId) (path : String) (package : Option Package)
    (full : String) {w : World} : (members : List ClassDecl) → w.Has outer → w.Whole D →
      (declareMembers job path outer package full members).StaysWhole D w fun _ _ => True
  | [], _, whole => by
    exact gives_pure whole trivial
  | member :: rest, has, whole => by
    have around (other : ClassId) (encloses : (ClassKind.memberOf outer).outer? = some other) : w.Has other := by
      cases encloses
      exact has
    refine (declare_whole job path package _ member around whole).bind fun id middle whole kept _ => ?_
    have listed : (update outer fun record => { record with members := record.members ++ [id] }).Within
        (WholeKept D) := by
      refine update_whole (fun _ => ?_) (fun _ => ?_) fun _ left => ?_
      · rfl
      · rfl
      · exact left
    refine listed.andThen whole fun _ last whole later => ?_
    exact declareMembers_whole job path package full rest (later.has (kept.has has)) whole

end

theorem SourceFile.declareClass_whole (source : SourceFile) (job : JobId) (decl : ClassDecl)
    (whole : w.Whole D) : (source.declareClass job decl).StaysWhole D w fun _ _ => True := by
  refine gives_get.mpr (gives_ite (fun _ => gives_pure whole trivial) fun _ => ?_)
  exact (decl.declare_whole job source.path _ _ (by nofun) whole).discard

theorem SourceFile.declareAll_whole (source : SourceFile) (job : JobId) (whole : w.Whole D) :
    (source.declareAll job).StaysWhole D w fun _ _ => True := by
  refine gives_get.mpr ?_
  have imported : (modifyImports (.unit job) fun _ => source.importTable w.config).StaysWhole D w fun _ _ => True :=
    ends_modify.mpr ⟨⟨whole.withImports _ (source.importTable_inside _ _), Arena.Keeps.refl w.arena⟩, trivial⟩
  refine imported.bind fun _ middle whole _ _ => ?_
  exact gives_forM (fun decl _ w whole => source.declareClass_whole job decl whole) whole

theorem Loader.initializeTypes_whole (job : JobId) : (initializeTypes job).Within (WholeKept D) := by
  refine within_bind within_get fun w => ?_
  split
  · exact within_of_gives fun _ => SourceFile.declareAll_whole _ job
  · exact within_fault _ _

end ClassUniverse
