import ClassUniverse.Proofs.Headers
import ClassUniverse.Proofs.Respects

/-! Classes that look-ups answer with exist. Members are told by their kind, which a class that does not exist
lacks; so this holds of member classes and of imports under any invariant for which it holds of full names. -/
namespace ClassUniverse

open Run

/-- Classes are only added, and keep their headers. -/
def World.Keeps (w after : World) : Prop := w.arena.Keeps after.arena

instance : WorldOrder World.Keeps where
  refl w := .refl w.arena
  trans first second := Arena.Keeps.trans first second

def World.Has (w : World) (id : ClassId) : Prop := id.index < w.arena.size

def World.HasNamed (w : World) (named : Named) : Prop := ∀ id, named = .cls id → w.Has id

def World.HasType (w : World) (type : Ty) : Prop := ∀ id, type = .cls id → w.Has id

theorem World.Keeps.has {w after : World} {id : ClassId} (kept : w.Keeps after) (has : w.Has id) : after.Has id :=
  Arena.Keeps.inside kept has

theorem World.Keeps.hasType {w after : World} (kept : w.Keeps after) (has : w.HasType type) :
    after.HasType type := fun id same => kept.has (has id same)

theorem World.hasType_arrayOf {w : World} (has : w.HasType base) (dims : Nat) : w.HasType (.arrayOf base dims) := by
  cases dims with
  | zero => exact has
  | succ dims => exact nofun

/-- All classes that an import table has found exist. -/
structure ImportTable.Inside (table : ImportTable) (size : Nat) : Prop where
  imported : ∀ short full id, table.imported.find? short = some (full, .cls id) → id.index < size
  memo : ∀ name id, table.memo.find? name = some (.cls id) → id.index < size

/-- Full names are answered with what exists, and so is what is remembered. -/
structure Loader.Discovers (l : Loader) (P : World → Prop) : Prop where
  ensure : ∀ id stage, (l.ensure id stage).Within (Kept P World.Keeps)
  found : ∀ {name w}, P w → (l.find name).Gives P World.Keeps w fun named after => after.HasNamed named
  memos : ∀ {w}, P w → ∀ key name id, (w.memo key).find? name = some (.found (.cls id)) → w.Has id
  withMemo : ∀ {w} key {memo : Memo}, P w → (∀ name id, memo.find? name = some (.found (.cls id)) → w.Has id) →
    P { w with memos := w.memos.insert key memo }
  imports : ∀ {w}, P w → ∀ key, (w.importTable key).Inside w.arena.size
  withImports : ∀ {w} key {table : ImportTable}, P w → table.Inside w.arena.size →
    P { w with imports := w.imports.insert key table }

theorem Loader.Discovers.loads {l : Loader} (sound : l.Discovers P) : l.Loads (Kept P World.Keeps) :=
  ⟨fun _ => within_of_gives fun _ => sound.found, fun id stage _ => sound.ensure id stage⟩

/-- What look-ups in an import table come to follows from what full names come to, and from what the table may note
of them. -/
structure Loader.Imports (l : Loader) (key : ImportKey) (P : World → Prop) (G : World → World → Prop)
    (good : String → Named → World → Prop) : Prop where
  found : ∀ {name w}, P w → (l.find name).Gives P G w fun named after => after.HasNamed named
  lasting : ∀ {name named w after}, P w → G w after → good name named w → good name named after
  visible : ∀ {name named w after}, G w after → P after → after.HasNamed named →
    (w.importTable key).isVisible after.arena named → good name named after
  single : ∀ {name full named w}, P w → (w.importTable key).imported.find? name = some (full, named) → good name named w
  memo : ∀ {name named w}, P w → (w.importTable key).memo.find? name = some named → good name named w
  imported : ∀ {full named w after}, G w after → full ∈ (w.importTable key).classes → after.HasNamed named →
    Kept P G after { after with imports := after.imports.insert key { after.importTable key with
      imported := (after.importTable key).imported.insert (shortName full) (full, named) } }
  materialized : ∀ w, Kept P G w { w with imports := w.imports.insert key { w.importTable key with materialized := true } }
  remembered : ∀ {name named w}, good name named w →
    Kept P G w { w with imports := w.imports.insert key ((w.importTable key).remember name named) }

namespace Loader.Imports

variable {l : Loader} [WorldOrder G]
  (imports : l.Imports key P G good)
include imports

theorem lookUpClasses_gives (names : List String) (listed : names ⊆ (start.importTable key).classes) (since : G start w)
    (holds : P w) : (ImportTable.lookUpClasses l key names).Gives P G w fun _ _ => True := by
  induction names generalizing w with
  | nil => exact gives_pure holds trivial
  | cons full rest ih =>
    obtain ⟨first, others⟩ := List.cons_subset.mp listed
    have noted {w : World} (since : G start w) (holds : P w) {named : Named} (has : w.HasNamed named) : (do
        modifyImports key fun table =>
          { table with imported := table.imported.insert (shortName full) (full, named) }
        ImportTable.lookUpClasses l key rest : Run Unit).Gives P G w fun _ _ => True := by
      have stored : (modifyImports key fun table => { table with
          imported := table.imported.insert (shortName full) (full, named) }).Gives P G w fun _ _ => True :=
        ends_modify.mpr ⟨imports.imported since first has holds, trivial⟩
      exact stored.bind fun _ _ holds later _ => ih others (WorldOrder.trans since later) holds
    refine gives_get.mpr (gives_ite (fun _ => ih others since holds) fun _ => ?_)
    refine (imports.found holds).bind fun named middle holds later has => gives_get.mpr ?_
    have noted := noted (WorldOrder.trans since later) holds has
    split
    · exact gives_ite (fun _ => gives_throw_bind _ holds) fun _ => noted
    · exact noted

theorem searchPackages_gives (name : String) (packages : List String) (since : G start w) (holds : P w) :
    (ImportTable.searchPackages l (start.importTable key) name packages).Gives P G w
      fun found after => ∀ named, found = some named → good name named after := by
  induction packages generalizing w with
  | nil => exact gives_pure holds nofun
  | cons package rest ih =>
    refine (imports.found holds).outcome.bind fun result middle holds later has => ?_
    have since := WorldOrder.trans since later
    cases result with
    | ok named =>
      refine gives_arena.mpr (gives_ite (fun visible => gives_pure holds ?_) fun _ => ih since holds)
      rintro _ ⟨⟩
      exact imports.visible since holds (has named rfl) visible
    | error e => exact gives_ite (fun _ => ih since holds) fun _ => gives_throw _ holds

theorem searchShort_gives (name : String) (holds : P w) :
    (ImportTable.searchShort l key name).Gives P G w (good name) := by
  have materialized : (ImportTable.materialize l key).Gives P G w fun _ _ => True := by
    refine gives_get.mpr ?_
    dsimp only
    split
    · exact gives_pure holds trivial
    · refine (imports.lookUpClasses_gives _ (List.Subset.refl _) (WorldOrder.refl w) holds).bind fun _ middle holds _ _ => ?_
      exact ends_modify.mpr ⟨imports.materialized middle holds, trivial⟩
  refine materialized.bind fun _ middle holds _ _ => gives_get.mpr ?_
  dsimp only
  split
  · exact gives_pure holds (imports.single holds ‹_›)
  · refine (imports.searchPackages_gives name _ (WorldOrder.refl middle) holds).bind fun found last holds later known => ?_
    split
    · exact gives_pure holds (known _ rfl)
    · refine (imports.found holds).bind fun named after holds further has => gives_arena.mpr ?_
      refine gives_ite (fun visible => gives_pure holds ?_) fun _ => gives_throw _ holds
      exact imports.visible (WorldOrder.trans later further) holds has visible

/-- Only a short name is looked for among the imports. -/
theorem find_gives (name : String) (holds : P w) : (ImportTable.find l key name).Gives P G w
    fun named after => if isShortName name then good name named after else after.HasNamed named := by
  unfold ImportTable.find
  cases short : isShortName name with
  | false => exact imports.found holds
  | true =>
    refine gives_get.mpr ?_
    split
    · exact gives_pure holds (imports.memo holds ‹_›)
    · refine (imports.searchShort_gives name holds).bind fun named middle holds _ known => ?_
      have stored : (modifyImports key (·.remember name named)).Gives P G middle fun _ after => good name named after := by
        obtain ⟨after, later⟩ := imports.remembered known holds
        exact ends_modify.mpr ⟨⟨after, later⟩, imports.lasting holds later known⟩
      exact stored.bind fun _ _ holds _ known => gives_pure holds known

end Loader.Imports

namespace Loader

variable {l : Loader}

/-- Members are told by their kind, which a class that does not exist lacks. -/
theorem memberOnly_finds (id : ClassId) (found : Option Named) (holds : P w) :
    (memberOnly id found).Gives P World.Keeps w fun member after => ∀ m, member = some m → after.Has m := by
  refine gives_arena.mpr ?_
  refine gives_pure holds fun m same => ?_
  have kind := (Option.filter_eq_some_iff.mp same).2
  refine Nat.lt_of_not_le fun outside => ?_
  rw [w.arena.get_absent outside] at kind
  simp at kind

section Lookups

variable (sound : l.Discovers P)
include sound

theorem declaredMember_finds (name : String) (id : ClassId) (holds : P w) :
    (l.declaredMember name id).Gives P World.Keeps w fun member after => ∀ m, member = some m → after.Has m := by
  refine gives_get.mpr ?_
  refine gives_ite (fun _ => memberOnly_finds id _ holds) fun _ => ?_
  refine ((sound.loads.steps.memberClassNamed id name).gives holds).bind fun listed middle holds _ _ => ?_
  split
  · exact memberOnly_finds id _ holds
  · refine gives_record.mpr ?_
    split
    · refine (sound.found holds).outcome.bind fun result last holds _ _ => ?_
      split
      · exact memberOnly_finds id _ holds
      · exact gives_ite (fun _ => gives_pure holds nofun) fun _ => gives_throw _ holds
    · exact gives_pure holds nofun

theorem visibleMember_finds (finds : ∀ id {w}, P w →
      (declared id).Gives P World.Keeps w fun member after => ∀ m, member = some m → after.Has m)
    (accessor : Option ClassId) (id : ClassId) (holds : P w) :
    (l.visibleMember declared accessor id).Gives P World.Keeps w fun member after => ∀ m, member = some m → after.Has m := by
  refine (finds id holds).bind fun found middle holds _ has => ?_
  split
  · rename_i member accessor
    refine ((sound.loads.climbs.classAccessible member accessor).gives holds).bind fun _ last holds kept _ => ?_
    refine gives_ite (fun _ => gives_pure holds ?_) fun _ => ?_
    · rintro _ ⟨⟩
      exact kept.has (has member rfl)
    · refine gives_arena.mpr ?_
      exact gives_throw _ holds
  · exact gives_pure holds has

theorem memberClass_finds (id : ClassId) (name : String) (accessor : Option ClassId)
    (holds : P w) : (l.memberClass id name accessor).Gives P World.Keeps w fun m after => after.Has m := by
  suffices found : (l.memberClass id name accessor).Leaves P World.Keeps w (fun m after => after.Has m) fun _ _ => True from
    found.gives
  refine memberClass_leaves ?_ (fun _ _ => trivial) id name accessor (fun id _ holds => ?_) (fun id _ holds => ?_) holds
  · exact fun _ _ _ => World.Keeps.has
  · exact (visibleMember_finds sound (fun id _ => declaredMember_finds sound name id) accessor id holds).leaves
  · exact ((sound.loads.steps.supertypes id).gives holds).leaves

theorem rememberedMember_finds (id : ClassId) (name : String) (holds : P w) :
    (l.rememberedMember id name).Gives P World.Keeps w fun named after => after.HasNamed named := by
  have searched {w : World} (holds : P w) : (do
      return .cls (← l.memberClass id name none) : Run Named).Gives P World.Keeps w
        fun named after => after.HasNamed named := by
    refine (memberClass_finds sound id name none holds).bind fun member _ holds _ has => gives_pure holds ?_
    rintro _ ⟨⟩
    exact has
  refine gives_get.mpr ?_
  split
  · rename_i named hit
    exact gives_pure holds fun member same => sound.memos holds (.membersOf id) name member (same ▸ hit)
  · exact gives_throw _ holds
  · refine (searched holds).outcome.bind fun result middle holds _ has => ?_
    have noted {entry : Entry} (known : ∀ member, entry = .found (.cls member) → middle.Has member) :
        (modifyMemo (.membersOf id) (·.insert name entry)).Gives P World.Keeps middle fun _ _ => True := by
      refine ends_modify.mpr ⟨⟨sound.withMemo _ holds fun other member hit => ?_, Arena.Keeps.refl middle.arena⟩, trivial⟩
      rw [Assoc.find?_insert] at hit
      split at hit
      · exact known member (Option.some.inj hit)
      · exact sound.memos holds _ other member hit
    cases result with
    | ok named =>
      refine (noted fun member same => ?_).bind fun _ last holds kept _ => gives_pure holds ?_
      · cases same
        exact has (.cls member) rfl member rfl
      · exact fun member same => kept.has (has named rfl member same)
    | error e =>
      refine gives_ite (fun _ => ?_) fun _ => gives_throw _ holds
      exact (noted (by simp)).bind fun _ _ holds _ _ => gives_throw _ holds

theorem findMemberClass_finds (id : ClassId) (name : String) (accessor : Option ClassId) (holds : P w) :
    (l.findMemberClass id name accessor).Gives P World.Keeps w fun m after => after.Has m := by
  unfold findMemberClass
  split
  · exact memberClass_finds sound id name _ holds
  · refine (rememberedMember_finds sound id name holds).bind fun named middle holds _ has => ?_
    split
    · exact gives_pure holds (has _ rfl)
    · exact ((within_fullName id).gives holds).bind fun _ _ holds _ _ => gives_throw _ holds

theorem memberByName_discovers (container name : String) (holds : P w) :
    (l.memberByName container name).Gives P World.Keeps w fun m after => after.Has m := by
  refine (sound.found holds).bind fun named middle holds _ _ => ?_
  split
  · exact findMemberClass_finds sound _ name none holds
  · exact gives_throw _ holds

theorem classForName_discovers (name : String) (holds : P w) :
    (l.classForName name).Gives P World.Keeps w fun id after => after.Has id := by
  refine (sound.found holds).outcome.bind fun result middle holds _ has => ?_
  split
  · exact gives_pure holds (has _ rfl _ rfl)
  · exact gives_fault holds
  · split
    · refine (memberByName_discovers sound _ _ holds).outcome.bind fun inner last holds _ has => ?_
      split
      · exact gives_pure holds (has _ rfl)
      · exact gives_throw _ holds
    · exact gives_throw _ holds

theorem typeForName_discovers (written : String) (holds : P w) :
    (l.typeForName written).Gives P World.Keeps w fun type after => after.HasType type := by
  unfold typeForName
  obtain ⟨base, dims⟩ := splitDims written
  refine gives_ite (fun _ => gives_pure holds (World.hasType_arrayOf (by nofun) dims)) fun _ => ?_
  split
  · exact gives_pure holds (World.hasType_arrayOf (by nofun) dims)
  · refine (classForName_discovers sound base holds).bind fun id _ holds _ has => ?_
    refine gives_pure holds (World.hasType_arrayOf ?_ dims)
    rintro _ ⟨⟩
    exact has

theorem Discovers.ofImports (key : ImportKey) : l.Imports key P World.Keeps fun _ named w => w.HasNamed named where
  found := sound.found
  lasting _ kept has id same := kept.has (has id same)
  visible _ _ has _ := has
  single holds hit id same := (sound.imports holds key).imported _ _ id (same ▸ hit)
  memo holds hit id same := (sound.imports holds key).memo _ id (same ▸ hit)
  imported _ _ has holds := by
    have known := sound.imports holds key
    refine ⟨sound.withImports key holds ⟨fun short other id hit => ?_, known.memo⟩, .refl _⟩
    rw [Assoc.find?_insert] at hit
    split at hit
    · cases hit
      exact has id rfl
    · exact known.imported short other id hit
  materialized w holds := by
    have known := sound.imports holds key
    exact ⟨sound.withImports key holds ⟨known.imported, known.memo⟩, .refl _⟩
  remembered has holds := by
    have known := sound.imports holds key
    refine ⟨sound.withImports key holds ⟨known.imported, fun other id hit => ?_⟩, .refl _⟩
    simp only [ImportTable.remember, Assoc.find?_insert] at hit
    split at hit
    · exact has id (Option.some.inj hit)
    · exact known.memo other id hit

theorem findImported_finds (key : ImportKey) (name : String) (holds : P w) :
    (ImportTable.find l key name).Gives P World.Keeps w fun named after => after.HasNamed named :=
  ((sound.ofImports key).find_gives name holds).mono fun _ _ _ _ has => (ite_self _).mp has

theorem findInPackage_finds (package : Package) (name : String) (accessor : Option ClassId) (holds : P w) :
    (l.findInPackage package name accessor).Gives P World.Keeps w fun named after => after.HasNamed named := by
  refine gives_ite (fun _ => ?_) fun _ => (gives_fault holds).bind fun _ _ _ _ => False.elim
  refine (sound.found holds).outcome.bind fun result middle holds _ has => ?_
  split
  · rename_i id
    split
    · rename_i accessor
      refine ((sound.loads.climbs.classAccessible id accessor).gives holds).bind fun _ last holds kept _ => ?_
      refine gives_ite (fun _ => gives_pure holds ?_) fun _ => ?_
      · exact fun other same => kept.has (has (.cls id) rfl other same)
      · refine ((within_fullName id).gives holds).bind fun _ _ holds _ _ => ?_
        refine ((within_fullName accessor).gives holds).bind fun _ _ holds _ _ => ?_
        exact gives_throw_bind _ holds
    · exact gives_pure holds (has _ rfl)
  · exact gives_pure holds (has _ rfl)
  · exact gives_ite (fun _ => gives_pure holds (by simp [World.HasNamed])) fun _ => gives_throw _ holds

end Lookups

end Loader

end ClassUniverse
