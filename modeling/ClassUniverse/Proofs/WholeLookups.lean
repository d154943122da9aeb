import ClassUniverse.Proofs.WholeWorlds
import ClassUniverse.Proofs.Loading
import ClassUniverse.Proofs.ScopeAnswers

/-! Look-ups keep worlds whole, and answer with classes that exist. -/
namespace ClassUniverse

open Run

variable {D : String → Prop} {w : World}

/-- The world stays whole, and answers satisfy `good`. -/
abbrev Run.StaysWhole (x : Run α) (D : String → Prop) (w : World) (good : α → World → Prop) : Prop :=
  x.Gives (World.Whole D) World.Keeps w good

section Caches

theorem modifyCache_whole (whole : w.Whole D) (only : w.system.Only w.Has → (change w.system).Only w.Has) :
    (Run.modifyCache .session change).StaysWhole D w fun _ _ => True :=
  (comesTo_modifyCache change).gives (fun _ same left => ⟨whole.recached same left (only whole.cached), same.keeps⟩)
    fun _ _ _ _ _ => trivial

variable {backing : String → Run Bool} {known : String → Bool}

theorem Cache.Reads.addNamed_whole (reads : Cache.Reads backing known w) (name : String)
    (has : w.HasNamed named) (whole : w.Whole D) :
    (Cache.addNamed .session backing name named).StaysWhole D w fun _ _ => True := by
  refine (reads.addNamed name named).gives (fun _ same left => ⟨whole.recached same left ?_, same.keeps⟩) fun _ _ _ _ _ => trivial
  exact .addNamed whole.nested has known whole.cached

theorem Cache.find_whole {backing : Backing} (finds : ∀ {w}, w.Whole D →
      (backing.find name).StaysWhole D w fun named after => after.HasNamed named)
    (reads : ∀ w, Cache.Reads backing.packageExists w.knowsPackage w) (rememberMisses : Bool) (whole : w.Whole D) : (Cache.find .session backing rememberMisses name).StaysWhole D w
      fun named after => after.HasNamed named := by
  refine gives_get.mpr ?_
  split
  · rename_i named hit
    refine gives_pure whole fun id same => ?_
    have held : w.system.lookup name = some (.found (.cls id)) := same ▸ hit
    exact whole.cached.lookup held
  · exact gives_throw _ whole
  · refine (finds whole).outcome.bind fun result middle whole _ has => ?_
    cases result with
    | ok named =>
      refine gives_get.mpr (gives_ite (fun _ => ?_) fun _ => gives_pure whole (has named rfl))
      refine ((reads _).addNamed_whole name (has named rfl) whole).bind fun _ last whole kept _ => gives_pure whole ?_
      exact fun id same => kept.has (has named rfl id same)
    | error e =>
      refine gives_ite (fun _ => ?_) fun _ => gives_throw _ whole
      refine (modifyCache_whole whole fun only => only.insertMiss).bind fun _ _ whole _ _ => gives_throw _ whole

theorem Cache.forked_whole {x : Run α} (keep : Except Error α → Bool)
    (gives : ∀ {w}, w.Whole D → x.StaysWhole D w good)
    (lasting : ∀ {a w after}, World.Keeps w after → good a w → good a after) (whole : w.Whole D) :
    (Cache.forked .session keep x).StaysWhole D w good := by
  have closing (kept : Bool) {w : World} (whole : w.Whole D) :
      (close .session kept).StaysWhole D w fun _ _ => True := by
    refine gives_ite (fun _ => gives_get.mpr ?_) fun _ => gives_get.mpr ?_
    · split
      · rename_i committed
        exact modifyCache_whole whole fun only => only.commit committed
      · exact gives_fault whole
    · split
      · rename_i dropped
        exact modifyCache_whole whole fun only => only.discard dropped
      · exact gives_fault whole
  refine (modifyCache_whole whole fun only => only.fork).bind fun _ first whole _ _ => ?_
  refine (gives whole).outcome.bind fun result middle whole _ known => ?_
  refine (closing _ whole).bind fun _ last whole kept _ => ?_
  split
  · rename_i a
    exact gives_pure whole (lasting kept (known a rfl))
  · exact gives_throw _ whole

end Caches

section Storing

variable {id : ClassId} {change : ClassRecord → ClassRecord} {goals : Goal → Prop}

theorem update_whole (header : ∀ r, (change r).header = r.header)
    (supertypes : ∀ r, (change r).supertypes = r.supertypes)
    (decoded : ∀ r, (change r).completion = some .decoded → r.completion = some .decoded) :
    (Run.update id change).Within (WholeKept D) goals := by
  refine within_modify fun w whole => ⟨whole.withRecord (header _) (fun above member => ?_) (decoded _), .modify (header _)⟩
  rw [supertypes] at member
  exact whole.supertypes id above member

theorem markStages_whole (stages : List Stage) : (Run.update id (·.markStages stages)).Within (WholeKept D) goals :=
  update_whole (fun r => r.header_markStages stages) (fun r => r.supertypes_markStages stages)
    fun _ => ClassRecord.left_markStages

theorem storeSupertypes_whole {superType : Option Ty} (header : ∀ r, (change r).header = r.header)
    (supertypes : ∀ r, (change r).supertypes = superType.toList ++ interfaces)
    (decoded : ∀ r, (change r).completion = some .decoded → r.completion = some .decoded)
    (known : ∀ type ∈ superType, w.HasType type) (others : ∀ type ∈ interfaces, w.HasType type)
    (whole : w.Whole D) : (Run.update id change).StaysWhole D w fun _ _ => True := by
  refine ends_update.mpr ⟨⟨whole.withRecord (header _) (fun above member => ?_) (decoded _), .modify (header _)⟩, trivial⟩
  rw [supertypes] at member
  obtain ⟨type, listed, same⟩ := List.mem_filterMap.mp member
  have here : type = .cls above := by
    cases type <;> simp_all [Ty.class?]
  rcases List.mem_append.mp listed with first | other
  · exact known type (Option.mem_toList.mp first) above here
  · exact others type other above here

/-- A class is added and installed, also under its source name if that differs. -/
theorem shell_whole {record : ClassRecord} (bare : record.supertypes = [])
    (around : ∀ outer, record.kind.outer? = some outer → w.Has outer)
    (decoded : record.completion = some .decoded → ∃ name ∈ record.fileName, D name)
    (binary : String) (twice : String → Prop) [DecidablePred twice] (whole : w.Whole D) : (do
      let id ← Run.addClass record
      System.addNamed binary (.cls id)
      let full ← Run.fullName id
      if twice full then System.addNamed full (.cls id)
      return id : Run ClassId).StaysWhole D w fun id after => after.Has id := by
  have added : (Run.addClass record).StaysWhole D w fun id after => after.Has id := by
    refine ends_addClass.mpr ⟨⟨whole.withClass (by simp [bare]) around decoded, .add w.arena record⟩, ?_⟩
    simp [World.Has]
  have named (name : String) (id : ClassId) {w : World} (whole : w.Whole D) (has : w.Has id) :
      (System.addNamed name (.cls id)).StaysWhole D w fun _ after => after.Has id := by
    refine ((System.reads w).addNamed_whole name ?_ whole).mono fun _ _ _ kept _ => kept.has has
    rintro _ ⟨⟩
    exact has
  refine added.bind fun id first whole _ has => (named binary id whole has).bind fun _ second whole _ has => ?_
  refine (within_fullName id).andThen whole fun full third whole kept => ?_
  refine gives_ite (fun _ => ?_) fun _ => gives_pure whole (kept.has has)
  exact (named full id whole (kept.has has)).bind fun _ last whole _ has => gives_pure whole has

end Storing

namespace Loader

theorem discovers_whole {l : Loader} (ensure : ∀ id stage, (l.ensure id stage).Within (WholeKept D))
    (found : ∀ {name w}, World.Whole D w → (l.find name).StaysWhole D w fun named after => after.HasNamed named) :
    l.Discovers (World.Whole D) where
  ensure
  found
  memos whole := whole.memos
  withMemo key _ whole := whole.withMemo key
  imports whole := whole.imports
  withImports key _ whole := whole.withImports key

end Loader

section Loading

open Loader

variable {l : Loader} (sound : l.Discovers (World.Whole D)) {id : ClassId} {file : ClassFile} {m : Metadata}

include sound

theorem Loader.tracks_whole : l.Tracks (WholeKept D) where
  toLoads := sound.loads
  remembered id name := within_of_gives fun _ whole => rememberedMember_finds sound id name whole

theorem Metadata.populate_whole (m : Metadata) (whole : w.Whole D) :
    (m.populate l id).StaysWhole D w fun _ _ => True := by
  have tracks := tracks_whole sound
  refine (gives_optionMapM (fun written _ => typeForName_discovers sound written whole) whole).bind
    fun superType first whole _ known => ?_
  have listed : (Metadata.types l m.interfaces).StaysWhole D first
      fun types after => ∀ type ∈ types, after.HasType type :=
    gives_mapM (fun written _ _ whole => typeForName_discovers sound written whole) World.Keeps.hasType whole
  refine listed.bind fun interfaces second whole kept others => ?_
  -- Only the supertypes matter, so the rest of the document is passed over.
  refine (within_mapM fun d _ => field_respects tracks _ d).andThen whole fun fields third whole grown => ?_
  refine (within_mapM fun d _ => method_respects tracks _ d).andThen whole fun methods fourth whole later => ?_
  refine gives_record.mpr ?_
  refine (within_mapM fun d _ => constructor_respects tracks _ _ d).andThen whole fun constructors fifth whole further => ?_
  refine (within_mapM fun name _ => tracks.searches.classForName name).andThen whole fun members last whole final => ?_
  have since : second.Keeps last :=
    WorldOrder.trans (WorldOrder.trans (WorldOrder.trans grown later) further) final
  have known (type : Ty) (given : type ∈ superType) : last.HasType type := since.hasType (kept.hasType (known type given))
  have others (type : Ty) (member : type ∈ interfaces) : last.HasType type := since.hasType (others type member)
  refine storeSupertypes_whole (fun r => ?_) (fun r => ?_) (fun r left => ?_) known others whole
  · rw [ClassRecord.header_markStages]
    rfl
  · rw [ClassRecord.supertypes_markStages]
    rfl
  · have before := ClassRecord.left_markStages left
    exact before

theorem Metadata.load_whole (documented : D m.name)
    (whole : w.Whole D) : (m.load l).StaysWhole D w fun id after => after.Has id := by
  have filled {w : World} (kind : ClassKind) (package : Option Package) (name : String)
      (around : ∀ outer, kind.outer? = some outer → w.Has outer) (whole : w.Whole D) : (do
        let id ← m.declare kind package name
        m.populate l id
        return id : Run ClassId).StaysWhole D w fun id after => after.Has id := by
    have declared : (m.declare kind package name).StaysWhole D w fun id after => after.Has id := by
      refine shell_whole ?_ around (fun _ => ?_) m.name (· ≠ m.name) whole
      · rfl
      · exact ⟨m.name, rfl, documented⟩
    refine declared.bind fun id middle whole _ has => ?_
    exact (m.populate_whole sound whole).bind fun _ last whole kept _ => gives_pure whole (kept.has has)
  unfold Metadata.load
  split
  · exact filled _ _ _ nofun whole
  · refine (classForName_discovers sound _ whole).bind fun outer middle whole _ has => gives_check.mpr ?_
    split
    · rename_i id hit
      exact gives_pure whole (whole.cached.check hit)
    · split
      · exact gives_throw _ whole
      · refine gives_record.mpr (filled _ _ _ ?_ whole)
        rintro _ ⟨⟩
        exact has

theorem Loader.decode_whole (text : String)
    (documented : ∀ m, Metadata.parse? text = some m → m.name = binary → D binary) (whole : w.Whole D) : (l.decode text binary).StaysWhole D w fun id after => after.Has id := by
  unfold decode
  split
  · exact gives_throw _ whole
  · rename_i m parsed
    refine gives_ite (fun named => ?_) fun _ => gives_throw _ whole
    exact m.load_whole sound (named ▸ documented m parsed named) whole

theorem Loader.encodedClass_whole (documents : (file.document? w.config.version).isSome → D file.name) (name : String)
    (whole : w.Whole D) : (l.encodedClass file name).StaysWhole D w fun id after => after.Has id := by
  rw [encodedClass_eq]
  refine gives_get.mpr (gives_ite (fun _ => gives_throw _ whole) fun compatible => ?_)
  split
  · exact gives_throw _ whole
  · rename_i text held
    refine Cache.forked_whole _ (fun {w} whole => ?_) World.Keeps.has whole
    exact decode_whole sound text (fun m parsed named => documents (by simp_all [ClassFile.document?])) whole

omit sound in
theorem RawClass.nestedKind_outer
    (encloses : (RawClass.nestedKind outer simple).outer? = some around) : around = outer := by
  have all (parts : List (List Char)) (kind : ClassKind) (fits : ∀ around, kind.outer? = some around → around = outer) :
      ∀ around, (parts.foldl (nestedKind.step outer) kind).outer? = some around → around = outer := by
    induction parts generalizing kind with
    | nil => exact fits
    | cons part rest ih =>
      refine ih _ fun around encloses => ?_
      unfold nestedKind.step at encloses
      split at encloses
      · cases encloses
        rfl
      · split at encloses <;> cases encloses <;> rfl
  exact all _ _ (by nofun) around encloses

theorem RawClass.findOuter_whole (cuts : List (List Char × List Char)) (whole : w.Whole D) :
    (RawClass.findOuter l cuts).StaysWhole D w fun found after =>
      ∀ outer inner, found = some (outer, inner) → after.Has outer := by
  induction cuts generalizing w with
  | nil => exact gives_pure whole nofun
  | cons cut rest ih =>
    refine (classForName_discovers sound _ whole).outcome.bind fun result middle whole _ has => ?_
    split
    · refine gives_pure whole ?_
      rintro _ _ ⟨⟩
      exact has _ rfl
    · exact gives_ite (fun _ => ih whole) fun _ => gives_throw _ whole

theorem RawClass.declare_whole (raw : RawClass) (file : ClassFile) (whole : w.Whole D) :
    (raw.declare l file).StaysWhole D w fun id after => after.Has id := by
  unfold RawClass.declare
  dsimp only
  obtain ⟨package, simple⟩ := splitPackage (dotted raw.name)
  refine (findOuter_whole sound _ whole).bind fun outer middle whole _ has => ?_
  split
  · rw [pure_bind]
    refine shell_whole ?_ ?_ ?_ _ _ whole
    · rfl
    · nofun
    · nofun
  · rename_i outer inner
    refine shell_whole ?_ (fun around encloses => ?_) ?_ _ _ whole
    · rfl
    · have same : around = outer := nestedKind_outer encloses
      exact same ▸ has outer inner rfl
    · nofun

theorem Loader.rawClass_whole (file : ClassFile) (whole : w.Whole D) :
    (l.rawClass file).StaysWhole D w fun id after => after.Has id := by
  refine gives_check.mpr ?_
  split
  · rename_i id hit
    exact gives_pure whole (whole.cached.check hit)
  · refine file.structure_respects.andThen whole fun raw middle whole _ => ?_
    exact raw.declare_whole sound file whole

theorem Loader.classInFile_whole (name : String) (documents : (file.document? w.config.version).isSome → D file.name)
    (whole : w.Whole D) : (l.classInFile name file).StaysWhole D w fun id after => after.Has id := by
  refine gives_get.mpr ?_
  have raw (allowed : Bool) {middle : World} (whole : middle.Whole D) :
      (if allowed = true then l.rawClass file
        else Run.fault (.noSuitableDefinition name w.config.version.name) : Run ClassId).StaysWhole D middle
        fun id after => after.Has id :=
    gives_ite (fun _ => rawClass_whole sound file whole) fun _ => gives_fault whole
  refine gives_ite (fun _ => raw _ whole) fun _ => ?_
  refine (encodedClass_whole sound documents name whole).outcome.bind fun result middle whole _ has => ?_
  split
  · exact gives_pure whole (has _ rfl)
  · split
    · exact raw _ whole
    · exact raw _ whole
    · exact gives_throw _ whole

theorem Loader.findLoaded_whole (name : String) (whole : w.Whole D) :
    (l.findLoaded name).StaysWhole D w fun named after => after.HasNamed named := by
  refine gives_get.mpr ?_
  split
  · rename_i file found
    refine (classInFile_whole sound name (whole.documents found) whole).bind fun id _ whole _ has => gives_pure whole ?_
    rintro _ ⟨⟩
    exact has
  · exact gives_throw _ whole

omit sound in
theorem Run.fromSource_whole (source : SourceFile) (name : String) (whole : w.Whole D) :
    (Run.fromSource source name).StaysWhole D w fun named after => after.HasNamed named := by
  have loaded : (Run.loadSource source).StaysWhole D w fun _ _ => True :=
    ends_modifyGet.mpr ⟨⟨{ whole with }, Arena.Keeps.refl w.arena⟩, trivial⟩
  refine loaded.bind fun job middle whole _ _ => gives_check.mpr ?_
  split
  · rename_i named hit
    exact gives_pure whole fun id same => whole.cached.check (same ▸ hit)
  · exact gives_get.mpr (gives_ite (fun _ => gives_throw _ whole) fun _ => gives_throw _ whole)

theorem Loader.findSourced_whole (name : String) (whole : w.Whole D) :
    (l.findSourced name).StaysWhole D w fun named after => after.HasNamed named := by
  refine gives_get.mpr ?_
  split
  · exact findLoaded_whole sound name whole
  · dsimp only
    split
    · rename_i file serves
      have found := (Option.filter_eq_some_iff.mp serves).1
      refine (encodedClass_whole sound (whole.documents found) name whole).outcome.bind
        fun result middle whole _ has => ?_
      split
      · refine gives_pure whole ?_
        rintro _ ⟨⟩
        exact has _ rfl
      · exact fromSource_whole _ name whole
      · exact gives_throw _ whole
    · exact fromSource_whole _ name whole

/-- Declared classes come first, then what sources and class files hold. -/
theorem Resolver.session_whole (name : String) (whole : w.Whole D) :
    (Resolver.session.find l name).StaysWhole D w fun named after => after.HasNamed named := by
  have tabled : ((Resolver.table .session).find l name).StaysWhole D w
      fun named after => after.HasNamed named := by
    refine gives_get.mpr ?_
    split
    · rename_i named hit
      exact gives_pure whole fun id same => whole.tabled name id (same ▸ hit)
    · exact gives_throw _ whole
  have behind {w : World} (whole : w.Whole D) :
      ((Resolver.orElse .sourced .nowhere).find l name).StaysWhole D w
        fun named after => after.HasNamed named := by
    refine (findSourced_whole sound name whole).outcome.bind fun result middle whole _ has => ?_
    split
    · exact gives_pure whole (has _ rfl)
    · exact gives_ite (fun _ => gives_throw _ whole) fun _ => gives_throw _ whole
  refine tabled.outcome.bind fun result middle whole _ has => ?_
  split
  · exact gives_pure whole (has _ rfl)
  · exact gives_ite (fun _ => behind whole) fun _ => gives_throw _ whole

end Loading

section Completing

open Loader

variable {l : Loader} {id : ClassId}

theorem Loader.object_whole (sound : l.Discovers (World.Whole D)) (whole : w.Whole D) :
    l.object.StaysWhole D w fun id after => after.Has id := by
  refine gives_get.mpr ?_
  split
  · rename_i id known
    exact gives_pure whole (whole.root id known)
  · refine (classForName_discovers sound _ whole).bind fun id middle whole _ has => ?_
    have stored : (modify fun w => { w with root := some id } : Run Unit).StaysWhole D middle
        fun _ after => after.Has id := ends_modify.mpr ⟨⟨whole.withRoot has, Arena.Keeps.refl middle.arena⟩, has⟩
    exact stored.bind fun _ last whole _ has => gives_pure whole has

theorem Loader.explores_whole (sound : l.Discovers (World.Whole D)) : l.Explores (World.Whole D) where
  toDiscovers := sound
  root whole := object_whole sound whole
  packages name := within_of_gives fun w whole => ((System.reads w).packageExists name).gives
    (fun _ same left => ⟨whole.recached same left (whole.cached.ask _), same.keeps⟩) fun _ _ _ _ _ => trivial

theorem RawClass.deriveSupertypes_whole (sound : l.Explores (World.Whole D)) (raw : RawClass)
    (whole : w.Whole D) : (raw.deriveSupertypes l id).StaysWhole D w fun _ _ => True := by
  have named (name : String) {w : World} (whole : w.Whole D) :
      (Ty.cls <$> l.classForName name).StaysWhole D w fun type after => after.HasType type := by
    refine ends_map.mpr (Ends.mono (classForName_discovers sound.toDiscovers name whole) ?_ (fun _ _ failed => failed))
    refine fun found after reached => ⟨reached.1, ?_⟩
    rintro _ ⟨⟩
    exact reached.2
  have rest (superType : Option Ty) {w : World} (whole : w.Whole D)
      (known : ∀ type ∈ superType, w.HasType type) : (do
        let interfaces ← raw.interfaces.mapM fun name => Ty.cls <$> l.classForName (dotted name)
        Run.update id fun record =>
          { record with superType, interfaces }.markStage .supertypesResolved : Run Unit).StaysWhole D w
          fun _ _ => True := by
    refine (gives_mapM (fun name _ _ whole => named (dotted name) whole) World.Keeps.hasType whole).bind
      fun interfaces last whole kept others => ?_
    have known (type : Ty) (given : type ∈ superType) : last.HasType type := kept.hasType (known type given)
    refine storeSupertypes_whole (fun _ => ?_) (fun _ => ?_) (fun r left => ?_) known others whole
    · rfl
    · rfl
    · have before := ClassRecord.left_markStage left
      exact before
  have chosen {x : Run Ty} {w : World} (found : x.StaysWhole D w fun type after => after.HasType type) :
      (some <$> x).StaysWhole D w fun superType after => ∀ type ∈ superType, after.HasType type := by
    refine ends_map.mpr (Ends.mono found (fun type after reached => ⟨reached.1, ?_⟩) (fun _ _ failed => failed))
    rintro _ ⟨⟩
    exact reached.2
  refine gives_isRoot.mpr (gives_ite (fun _ => rest none whole nofun) fun _ => ?_)
  split
  · exact (chosen (named _ whole)).bind fun superType _ whole _ known => rest superType whole known
  · have root : l.objectType.StaysWhole D w fun type after => after.HasType type := by
      refine (sound.root whole).bind fun found last whole _ has => gives_pure whole ?_
      rintro _ ⟨⟩
      exact has
    exact (chosen root).bind fun superType _ whole _ known => rest superType whole known

theorem ClassFile.derive_whole (sound : l.Explores (World.Whole D)) (file : ClassFile) (stage : Stage) :
    (file.derive l id stage).Within (WholeKept D) := by
  by_cases first : stage = .supertypesResolved
  · subst first
    refine within_bind file.structure_respects fun raw => ?_
    exact within_of_gives fun w whole => raw.deriveSupertypes_whole sound whole
  · refine ClassFile.derive_respects sound.respects (absurd · first) (fun _ _ _ _ _ => ?_) (fun _ => ?_) file
    · refine update_whole (fun r => ?_) (fun r => ?_) fun r left => ?_
      · rw [ClassRecord.header_markStages]
        rfl
      · rw [ClassRecord.supertypes_markStages]
        rfl
      · have before := ClassRecord.left_markStages left
        exact before
    · exact RawClass.deriveAllMembers_respects sound.loads (markStages_whole [.allMembersAdded])

theorem Loader.ensureStage_whole (sound : l.Explores (World.Whole D)) (id : ClassId) (stage : Stage) :
    (l.ensureStage id stage).Within (WholeKept D) := by
  have nest : (completeNest l.depth id).Within (WholeKept D) :=
    completeNest_respects (fun id => markStages_whole Stage.all) l.depth id
  exact ensureStage_steps sound.respects trivial (fun w _ => markStages_whole [stage] w) (fun w _ => nest w)
    fun w file _ => file.derive_whole sound stage w

theorem Loader.ofDepth_whole (depth : Nat) : (Loader.ofDepth depth).Explores (World.Whole D) := by
  induction depth with
  | zero =>
    exact explores_whole (discovers_whole (fun _ _ => within_exhausted) fun _ => ends_exhausted.mpr trivial)
  | succ depth ih =>
    refine explores_whole (discovers_whole (fun id stage => ensureStage_whole ih id stage) fun whole => ?_)
    refine gives_get.mpr (Cache.find_whole ?_ Resolver.session_reads _ whole)
    exact fun whole => Resolver.session_whole ih.toDiscovers _ whole

end Completing

end ClassUniverse
