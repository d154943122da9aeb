import ClassUniverse.Proofs.WholeLookups
import Mathlib.Logic.Relation

/-! Short names as the imports of a compilation unit decide them. What is found in a package or under the bare name can be
seen from the unit, also when it is remembered. A class that is imported by its full name is not asked whether it can. -/
namespace ClassUniverse

open Run ImportTable

variable {config : Config} {u : Universe} {w after : World} {key : ImportKey} {name : String} {named : Named}
  {table other : ImportTable}

/-- Every class that is mentioned exists, and what is left to be completed of a document comes from a class file. -/
structure World.Closed (config : Config) (u : Universe) (w : World) : Prop where
  configured : w.config = config
  files : w.classPath = .ofList u.classFiles
  nested : w.arena.Nested
  supertypes : ∀ id, ∀ above ∈ w.arena.parents id, w.Has above
  decoded : ∀ id, (w.arena.get id).completion = some .decoded →
    (w.arena.get id).fileName.any (u.documents config.version)
  root : ∀ id, w.root = some id → w.Has id
  cached : w.system.Only w.Has
  tabled : ∀ name id, (w.table .session).find? name = some (.cls id) → w.Has id
  memos : ∀ key name id, (w.memo key).find? name = some (.found (.cls id)) → w.Has id
  imports : ∀ key, (w.importTable key).Inside w.arena.size

theorem World.Closed.whole (closed : w.Closed config u) : w.Whole fun _ => True :=
  { closed with
    documents := fun _ _ => trivial
    decoded := fun id left => ((Option.any_eq_true _ _).mp (closed.decoded id left)).imp fun _ held => ⟨held.1, trivial⟩ }

theorem World.Whole.closed (whole : w.Whole (u.documents config.version ·)) (configured : w.config = config)
    (files : w.classPath = .ofList u.classFiles) : w.Closed config u :=
  { whole with
    configured
    files
    decoded := fun id left => (Option.any_eq_true _ _).mpr (whole.decoded id left) }

theorem Arena.Keeps.classVisible {arena after : Arena} {id : ClassId} (kept : arena.Keeps after) (nested : arena.Nested)
    (inside : id.index < arena.size) (package : Option Package) :
    after.classVisible id package = arena.classVisible id package := by
  have around (steps : Nat) {id : ClassId} (inside : id.index < arena.size) :
      after.nestVisible package (id :: after.outersWithin steps id) =
        arena.nestVisible package (id :: arena.outersWithin steps id) := by
    induction steps generalizing id with
    | zero =>
      obtain ⟨-, declared, kind, flags, -⟩ := kept.parts inside
      simp only [nestVisible, outersWithin, declared, kind, flags]
    | succ steps ih =>
      obtain ⟨-, declared, kind, flags, -⟩ := kept.parts inside
      simp only [nestVisible, outersWithin, outer?, declared, kind, flags]
      cases member : (arena.get id).kind with
      | memberOf outer =>
        have encloses : arena.outer? id = some outer := outer?_of_kind member rfl
        simp only [ClassKind.outer?, ih (Nat.lt_trans (nested id inside outer encloses) inside)]
      | _ => rfl
  exact around id.index inside

theorem ImportTable.isVisible_congr (package : table.package = other.package) (arena : Arena) (named : Named) :
    table.isVisible arena named = other.isVisible arena named := by
  cases named with
  | cls id => rw [isVisible, isVisible, package]
  | package package => rfl

namespace World

/-- Import tables are left alone. -/
def SameImports (w after : World) : Prop := after.imports = w.imports

instance : WorldOrder SameImports where
  refl _ := rfl
  trans first second := second.trans first

/-- The unit stays in its package, and has no fewer imports. -/
structure Upholds (key : ImportKey) (w after : World) : Prop where
  arena : w.Keeps after
  package : (after.importTable key).package = (w.importTable key).package
  classes : (w.importTable key).classes ⊆ (after.importTable key).classes

instance (key : ImportKey) : WorldOrder (Upholds key) where
  refl _ := ⟨.refl _, rfl, List.Subset.refl _⟩
  trans first second :=
    ⟨first.arena.trans second.arena, second.package.trans first.package, List.Subset.trans first.classes second.classes⟩

/-- The name may stand for what can be seen from the unit, and for anything if a class is imported that ends in it. -/
def Permits (w : World) (key : ImportKey) (name : String) (named : Named) : Prop :=
  (w.importTable key).isVisible w.arena named ∨ ∃ full ∈ (w.importTable key).classes, shortName full = name

/-- All names that the table remembers stand for what they may stand for. -/
structure Granted (key : ImportKey) (w : World) : Prop extends w.Whole fun _ => True where
  single : ∀ name entry, (w.importTable key).imported.find? name = some entry →
    ∃ full ∈ (w.importTable key).classes, shortName full = name
  memo : ∀ name named, (w.importTable key).memo.find? name = some named → w.Permits key name named

theorem Permits.later (permits : w.Permits key name named) (nested : w.arena.Nested) (has : w.HasNamed named)
    (upholds : w.Upholds key after) : after.Permits key name named := by
  refine permits.imp (fun visible => ?_) fun ⟨full, listed, ends⟩ => ⟨full, upholds.classes listed, ends⟩
  rw [isVisible_congr upholds.package]
  cases named with
  | cls id => exact (Arena.Keeps.classVisible upholds.arena nested (has id rfl) _).trans visible
  | package package => rfl

namespace Granted

variable (granted : w.Granted key)
include granted

theorem has_memo (hit : (w.importTable key).memo.find? name = some named) : w.HasNamed named :=
  fun id same => (granted.imports key).memo name id (same ▸ hit)

/-- Classes are added, and the table is not touched. -/
theorem grown (whole : after.Whole fun _ => True) (kept : w.Keeps after)
    (same : after.importTable key = w.importTable key) : after.Granted key ∧ w.Upholds key after := by
  have upholds : w.Upholds key after := ⟨kept, by rw [same], by rw [same]; exact List.Subset.refl _⟩
  refine ⟨{ whole with single := ?_, memo := fun name named hit => ?_ }, upholds⟩
  · rw [same]
    exact granted.single
  · rw [same] at hit
    exact (granted.memo name named hit).later granted.nested (granted.has_memo hit) upholds

/-- The table is replaced by one of the same unit. -/
theorem stored (inside : table.Inside w.arena.size) (package : table.package = (w.importTable key).package)
    (classes : (w.importTable key).classes ⊆ table.classes)
    (single : ∀ name entry, table.imported.find? name = some entry → ∃ full ∈ table.classes, shortName full = name)
    (memo : ∀ name named, table.memo.find? name = some named → w.Permits key name named) :
    let after : World := { w with imports := w.imports.insert key table }
    after.Granted key ∧ w.Upholds key after := by
  intro after
  have here : after.importTable key = table := by simp [after, importTable, Assoc.getD]
  have upholds : w.Upholds key after := ⟨.refl _, by rwa [here], by rwa [here]⟩
  refine ⟨{ granted.toWhole.withImports key inside with single := ?_, memo := fun name named hit => ?_ }, upholds⟩
  · rwa [here]
  · rw [here] at hit
    exact (memo name named hit).later granted.nested (fun id same => inside.memo name id (same ▸ hit)) upholds

end Granted

end World

/-- What the table remembers stays right. -/
abbrev Run.Resolves (x : Run α) (key : ImportKey) (w : World) (good : α → World → Prop) : Prop :=
  x.Gives (World.Granted key) (World.Upholds key) w good

section Lookups

variable {depth : Nat} (granted : w.Granted key)
include granted

theorem find_resolves (name : String) :
    ((Loader.ofDepth depth).find name).Resolves key w fun named after => after.HasNamed named := by
  have grown {after : World} (whole : after.Whole fun _ => True) (kept : w.Keeps after) (same : w.SameImports after) :
      after.Granted key ∧ w.Upholds key after :=
    granted.grown whole kept (by rw [World.importTable, same, World.importTable])
  have imports : (Loader.ofDepth depth).Rooted World.SameImports :=
    (RootRelation.of_caches (R := World.SameImports) (fun _ same => same) fun _ _ => ends_modifyGet.mpr rfl).ofDepth depth
  refine (Ends.and ((Loader.ofDepth_whole depth).found granted.toWhole)
    ((imports.find name).worlds w)).mono ?_ ?_
  · rintro named after ⟨⟨⟨whole, kept⟩, has⟩, same⟩
    exact ⟨grown whole kept same, has⟩
  · rintro e after ⟨⟨whole, kept⟩, same⟩
    exact grown whole kept same

end Lookups

theorem Loader.ofDepth_permits (depth : Nat) : (ofDepth depth).Imports key (World.Granted key)
    (World.Upholds key) fun name named w => w.HasNamed named ∧ w.Permits key name named where
  found granted := find_resolves granted _
  lasting granted upholds good :=
    ⟨fun id same => upholds.arena.has (good.1 id same), good.2.later granted.nested good.1 upholds⟩
  visible upholds _ has visible := ⟨has, .inl ((isVisible_congr upholds.package _ _).trans visible)⟩
  single granted hit :=
    ⟨fun id same => (granted.imports key).imported _ _ id (same ▸ hit), .inr (granted.single _ _ hit)⟩
  memo granted hit := ⟨granted.has_memo hit, granted.memo _ _ hit⟩
  imported {full _ _ _} upholds listed has granted := by
    refine granted.stored ⟨fun short other id hit => ?_, (granted.imports key).memo⟩ rfl (List.Subset.refl _)
      (fun short entry hit => ?_) granted.memo
    · rw [Assoc.find?_insert] at hit
      split at hit
      · cases hit
        exact has id rfl
      · exact (granted.imports key).imported short other id hit
    · rw [Assoc.find?_insert] at hit
      split at hit
      · exact ⟨full, upholds.classes listed, Eq.symm ‹_›⟩
      · exact granted.single short entry hit
  materialized w granted := by
    have inside := granted.imports key
    exact granted.stored ⟨inside.imported, inside.memo⟩ rfl (List.Subset.refl _) granted.single granted.memo
  remembered good granted := by
    refine granted.stored ⟨(granted.imports key).imported, fun other id hit => ?_⟩ rfl (List.Subset.refl _)
      granted.single fun other entity hit => ?_
    · simp only [remember, Assoc.find?_insert] at hit
      split at hit
      · exact good.1 id (Option.some.inj hit)
      · exact (granted.imports key).memo other id hit
    · simp only [remember, Assoc.find?_insert] at hit
      split at hit
      · rename_i same
        exact same ▸ Option.some.inj hit ▸ good.2
      · exact granted.memo other entity hit

theorem findImported_resolves (granted : w.Granted key) (name : String) :
    (ImportTable.find (.ofDepth depth) key name).Resolves key w
      fun named after => isShortName name → after.Permits key name named :=
  ((Loader.ofDepth_permits depth).find_gives name granted).mono fun _ _ _ _ good short => (if_pos short ▸ good).2

section Lookups

variable (granted : w.Granted key)
include granted

theorem add_resolves (written : String) :
    let after : World := { w with imports := w.imports.insert key ((w.importTable key).add written) }
    after.Granted key ∧ w.Upholds key after := by
  have inside := granted.imports key
  have more : (w.importTable key).classes ⊆ (w.importTable key).classes ++ [written] := List.subset_append_left _ _
  unfold ImportTable.add addPackage
  split
  · split <;> exact granted.stored ⟨inside.imported, inside.memo⟩ rfl (List.Subset.refl _) granted.single granted.memo
  · refine granted.stored ⟨inside.imported, inside.memo⟩ rfl more (fun name entry hit => ?_) granted.memo
    obtain ⟨full, listed, ends⟩ := granted.single name entry hit
    exact ⟨full, more listed, ends⟩

end Lookups

/-- What may happen to an import table between two look-ups: another look-up, whether it succeeds or not, a further
import, or anything that leaves the table as it is. -/
inductive ImportTable.Step (config : Config) (u : Universe) (key : ImportKey) (w : World) : World → Prop
  | found (depth : Nat) (name : String) {result : Except Error Named} {after : World}
    (ran : (ImportTable.find (.ofDepth depth) key name).on w = some (result, after)) : Step config u key w after
  | added (written : String) :
    Step config u key w { w with imports := w.imports.insert key ((w.importTable key).add written) }
  | elsewhere {after : World} (closed : after.Closed config u) (kept : w.Keeps after)
    (same : after.importTable key = w.importTable key) : Step config u key w after

theorem ImportTable.Step.resolves (step : Step config u key w after) (granted : w.Granted key) :
    after.Granted key ∧ w.Upholds key after := by
  cases step with
  | @found depth name result _ ran =>
    cases result with
    | ok named => exact (Ends.answer (findImported_resolves granted name) ran).1
    | error e => exact Ends.error (findImported_resolves granted name) ran
  | added written => exact add_resolves granted written
  | elsewhere closed kept same => exact granted.grown closed.whole kept same

theorem ImportTable.steps_resolve (steps : Relation.ReflTransGen (Step config u key) w after)
    (granted : w.Granted key) : after.Granted key ∧ w.Upholds key after := by
  induction steps with
  | refl => exact ⟨granted, WorldOrder.refl w⟩
  | tail _ step ih =>
    obtain ⟨granted, upholds⟩ := step.resolves ih.1
    exact ⟨granted, WorldOrder.trans ih.2 upholds⟩

/-- A class that a short name stands for can be seen from the unit, unless the unit imports a class by a full name that
ends in the short one. -/
theorem short_name_visible {middle : World} {depth : Nat} {id : ClassId} (closed : w.Closed config u)
    (fresh : (w.importTable key).imported = .empty ∧ (w.importTable key).memo = .empty)
    (steps : Relation.ReflTransGen (Step config u key) w middle) (short : isShortName name)
    (found : (ImportTable.find (.ofDepth depth) key name).on middle = some (.ok (.cls id), after)) :
    after.arena.classVisible id (w.importTable key).package ∨
      ∃ full ∈ (after.importTable key).classes, shortName full = name := by
  have granted : w.Granted key := { closed.whole with
    single := by simp [fresh.1]
    memo := by simp [fresh.2] }
  obtain ⟨granted, before⟩ := steps_resolve steps granted
  obtain ⟨⟨-, upholds⟩, permits⟩ := Ends.answer (findImported_resolves granted name) found
  rw [← before.package, ← upholds.package]
  exact permits short

/-- A hidden class is imported and looked up first; then a class of an imported package is found, and it can be seen. -/
theorem short_name_visible_later :
    let u : Universe := { classFiles := [{ name := "q.Y", raw := some { name := "q.Y" } },
      { name := "p.X", raw := some { name := "p.X", accessFlags := 1 } }] }
    let table : ImportTable := { package := some ⟨"app"⟩, classes := ["q.Y"], packages := ["p"] }
    let w : World := { World.ofUniverse {} u with imports := Assoc.empty.insert (.extra 0) table }
    ∃ middle after : World, Relation.ReflTransGen (Step {} u (.extra 0)) w middle ∧
      (ImportTable.find (.ofDepth 9) (.extra 0) "X").on middle = some (.ok (.cls ⟨1⟩), after) ∧
      (after.arena.classVisible ⟨1⟩ (w.importTable (.extra 0)).package ∨
        ∃ full ∈ (after.importTable (.extra 0)).classes, shortName full = "X") := by
  intro u table w
  obtain ⟨middle, first, after, second⟩ : ∃ middle,
      (ImportTable.find (.ofDepth 9) (.extra 0) "Y").on w = some (.ok (.cls ⟨0⟩), middle) ∧ ∃ after,
        (ImportTable.find (.ofDepth 9) (.extra 0) "X").on middle = some (.ok (.cls ⟨1⟩), after) := by decide +kernel
  have whole : (World.ofUniverse {} u).Whole (u.documents ({} : Config).version ·) :=
    .ofUniverse fun _ => Universe.documents_of_listed
  have closed : w.Closed {} u := (whole.withImports (.extra 0) ⟨by simp [table], by simp [table]⟩).closed rfl rfl
  have steps : Relation.ReflTransGen (Step {} u (.extra 0)) w middle := .single (.found 9 "Y" first)
  exact ⟨middle, after, steps, second, short_name_visible closed ⟨rfl, rfl⟩ steps (by decide +kernel) second⟩

/-- A class that is imported by its full name is found although it cannot be seen. -/
theorem imported_class_hidden :
    let u : Universe := { classFiles := [{ name := "containers.List", raw := some { name := "containers.List" } }] }
    let table : ImportTable := { package := some ⟨"app"⟩, classes := ["containers.List"] }
    let w : World := { World.ofUniverse {} u with imports := Assoc.empty.insert (.extra 0) table }
    ∃ after, (ImportTable.find (.ofDepth 9) (.extra 0) "List").on w = some (.ok (.cls ⟨0⟩), after) ∧
      ¬ after.arena.classVisible ⟨0⟩ (w.importTable (.extra 0)).package := by
  decide +kernel

end ClassUniverse
