import ClassUniverse.Proofs.Committing
import ClassUniverse.Proofs.PackageRecords

/-! Classes with the name of a package. A class is not installed where there is a package. A package that comes later is
not refused: it takes the place of the class, or stands beside it. This is the only way in which a name comes to be both. -/
namespace ClassUniverse

open Run

namespace Layers

variable {inner : Inner} {layers after : Layers} {arena : Arena}

def HasClass (layers : Layers) (name : String) : Prop := ∃ id, layers.check name = some (.cls id)

theorem hasClass_congr (same : after.check name = layers.check name) : after.HasClass name ↔ layers.HasClass name := by
  rw [HasClass, same, HasClass]

theorem hasPackage_bring (layers : Layers) (package : Package) (container : Option String) (query : String) :
    (layers.bring package container).hasPackage query = (decide (query ∈ package.names) || layers.hasPackage query) := by
  unfold bring
  split
  · rw [hasPackage_insert, hasPackage_addPackage]
  · exact hasPackage_addPackage ..

/-- What is cached as a class is no package. -/
def Apart (inner : Inner) (name : String) (layers : Layers) : Prop :=
  layers.HasClass name → layers.hasPackage name = false ∧ inner.packageExists name = false

theorem Apart.of_shows (apart : layers.Apart inner name) (same : layers.Shows after) : after.Apart inner name := by
  intro held
  have before := apart ((hasClass_congr (same.found name)).mp held)
  exact ⟨(same.present name).trans before.1, before.2⟩

/-- Classes are installed, and no package is recorded. -/
structure Keeps (inner : Inner) (name : String) (layers after : Layers) : Prop where
  honest : after.Honest inner
  apart : after.Apart inner name
  follows : layers.Follows after
  kept : layers.HasClass name → after.HasClass name

namespace Keeps

theorem ask (keeps : Keeps inner name layers middle) (query : String) :
    Keeps inner name layers (middle.ask inner.packageExists query) where
  honest := keeps.honest.ask query
  follows := keeps.follows.trans (.ask _ middle query)
  kept held := (hasClass_congr (check_ask ..)).mpr (keeps.kept held)
  apart held := by
    have before := keeps.apart ((hasClass_congr (check_ask ..)).mp held)
    refine ⟨?_, before.2⟩
    rw [hasPackage_ask]
    split
    · rename_i same
      exact presence_eq_false (same ▸ before.1) (same ▸ before.2)
    · exact before.1

theorem install (keeps : Keeps inner name layers middle) (arena : Arena) (query : String) (id : ClassId) :
    Keeps inner name layers (middle.install inner.packageExists arena query (.cls id)).2 := by
  have asked := keeps.ask query
  rw [Layers.install]
  split
  · exact asked
  · rename_i unseen
    rw [Bool.not_eq_true] at unseen
    refine ⟨asked.honest.insert query _, fun held => ?_, asked.follows.trans (.insert _ query _), fun held => ?_⟩
    · rw [hasPackage_insert]
      by_cases same : name = query
      · subst same
        rw [hasPackage_ask, if_pos rfl]
        exact ⟨unseen, keeps.honest.absent_of_presence unseen⟩
      · rw [HasClass, check_insert, if_neg same] at held
        exact asked.apart held
    · rw [HasClass, check_insert]
      split
      · exact ⟨id, rfl⟩
      · exact asked.kept held

end Keeps

/-- A call that may record a package of the name, or put a package in its place. -/
structure Proceeds (inner : Inner) (name : String) (records hands : Prop) (layers after : Layers) : Prop where
  honest : after.Honest inner
  follows : layers.Follows after
  apart : (records → ¬after.HasClass name) → after.Apart inner name
  kept : layers.HasClass name → after.HasClass name ∨ hands ∨ records

namespace Proceeds

theorem of_keeps (keeps : Keeps inner name layers after) : Proceeds inner name records hands layers after :=
  ⟨keeps.honest, keeps.follows, fun _ => keeps.apart, fun held => .inl (keeps.kept held)⟩

theorem imp (proceeds : Proceeds inner name records hands layers after)
    (recorded : records → records') (handed : layers.HasClass name → hands → hands') :
    Proceeds inner name records' hands' layers after where
  __ := proceeds
  apart unseen := proceeds.apart (unseen ∘ recorded)
  kept held := (proceeds.kept held).imp_right (Or.imp (handed held) recorded)

theorem insertPackage (keeps : Keeps inner name layers layers) (package : Package) :
    Proceeds inner name records (query = name) layers (layers.insert query (.package package)) := by
  have checked := layers.check_insert query name (.package package)
  refine ⟨keeps.honest.insert _ _, .insert _ _ _, fun _ held => ?_, fun held => ?_⟩
  · obtain ⟨id, held⟩ := held
    rw [checked] at held
    split at held
    · cases held
    · rw [hasPackage_insert]
      exact keeps.apart ⟨id, held⟩
  · by_cases same : name = query
    · exact .inr (.inl same.symm)
    · rw [if_neg same] at checked
      exact .inl ((hasClass_congr checked).mpr held)

theorem bring (keeps : Keeps inner name layers middle) (recorded : name ∈ package.names → records)
    (container : Option String) : Proceeds inner name records hands layers (middle.bring package container) := by
  have other (unnamed : name ∉ package.names) : name ≠ package.fullName :=
    fun same => unnamed (Package.mem_names.mpr (.inl same))
  refine ⟨keeps.honest.bring package container, keeps.follows.trans (.bring middle package container), ?_, ?_⟩
  · intro unseen held
    have unnamed : name ∉ package.names := fun named => unseen (recorded named) held
    have before := keeps.apart ((hasClass_congr (check_bring (other unnamed) middle container)).mp held)
    rw [hasPackage_bring]
    simpa [unnamed] using before
  · intro held
    by_cases named : name ∈ package.names
    · exact .inr (.inr (recorded named))
    · exact .inl ((hasClass_congr (check_bring (other named) middle container)).mpr (keeps.kept held))

end Proceeds

/-- So it is for the layers on top of each other, each of which can be replayed on those below it. -/
inductive Tiered (P : Layers → Prop) : Layers → Prop where
  | base {layers : Layers} (unforked : layers.overlays = []) (holds : P layers) : Tiered P layers
  | forked {layers below : Layers} (replays : layers.Replays below) (holds : P layers) (lower : Tiered P below) :
      Tiered P layers

namespace Tiered

theorem holds (tiered : Tiered P layers) : P layers := by
  cases tiered with
  | base _ holds => exact holds
  | forked _ holds _ => exact holds

theorem follow (tiered : Tiered P layers) (follows : layers.Follows after) (holds : P after) : Tiered P after := by
  cases tiered with
  | base unforked _ => exact .base (follows.unforked unforked) holds
  | forked replays _ lower => exact .forked (follows.replays _ replays) holds lower

end Tiered

/-- The name is apart in the layers as they are, and as they would be without those on top. -/
structure Orderly (inner : Inner) (name : String) (layers : Layers) : Prop where
  honest : layers.Honest inner
  tiered : Tiered (Apart inner name) layers

namespace Orderly

theorem empty : Orderly inner name {} := ⟨.empty, .base rfl fun ⟨_, held⟩ => nomatch held⟩

variable (orderly : layers.Orderly inner name)
include orderly

theorem keeps : Keeps inner name layers layers :=
  ⟨orderly.honest, orderly.tiered.holds, .refl layers, id⟩

theorem proceed (proceeds : Proceeds inner name records hands layers after)
    (unseen : records → ¬after.HasClass name) : after.Orderly inner name :=
  ⟨proceeds.honest, orderly.tiered.follow proceeds.follows (proceeds.apart unseen)⟩

theorem fork : layers.fork.Orderly inner name :=
  ⟨orderly.honest.fork, .forked (.fork layers) (orderly.tiered.holds.of_shows (.fork layers)) orderly.tiered⟩

theorem commit (committed : layers.commit? = some after) :
    after.Orderly inner name ∧ after.check name = layers.check name := by
  obtain ⟨honest, tiered⟩ := orderly
  cases tiered with
  | base unforked holds => simp [commit?, unforked] at committed
  | forked replays holds lower =>
    obtain ⟨_, committed', same⟩ := replays.commit
    cases committed.symm.trans committed'
    have follows := Follows.commit replays.forked committed
    exact ⟨⟨honest.commit committed, lower.follow follows (holds.of_shows same)⟩, same.found name⟩

theorem discard (discarded : layers.discard? = some after) : after.Orderly inner name := by
  obtain ⟨honest, tiered⟩ := orderly
  cases tiered with
  | base unforked holds => simp [discard?, unforked] at discarded
  | forked replays holds lower =>
    cases discarded.symm.trans replays.forked
    exact ⟨honest.discard discarded, lower⟩

end Orderly

/-- A class brings its package along, which may have the name of a class. -/
theorem Orderly.addNamed (orderly : layers.Orderly inner name) (arena : Arena) (query : String) (named : Named) :
    Proceeds inner name ((layers.addNamed inner.packageExists arena query named).1.isOk ∧
        ∃ package, layers.implied arena query named = some package ∧ name ∈ package.names)
      (query = name ∧ ∃ package, named = .package package) layers
      (layers.addNamed inner.packageExists arena query named).2 := by
  cases named with
  | cls id =>
    have nested := addNest_cases (P := Keeps inner name layers) orderly.keeps
      (fun _ query id kept => kept.install arena query id) query (arena.nest id)
    rw [Layers.addNamed, implied]
    rcases nested with ⟨keeps, -⟩ | ⟨package, middle, container, added, implied, keeps⟩
    · exact .of_keeps keeps
    · rw [added, implied]
      exact .bring keeps (fun named => ⟨rfl, package, rfl, named⟩) container
  | package package =>
    have start := orderly.keeps
    have check_eq : (layers.addNamed inner.packageExists arena query (.package package)).2.check name =
        if name = query then some (.package package) else layers.check name := by
      rw [Layers.addNamed, check_addPackage, check_insert]
    refine ⟨(start.honest.insert _ _).addPackage package, (Follows.insert _ _ _).trans (.addPackage _ package), ?_, ?_⟩
    · rintro unseen ⟨id, held⟩
      have unnamed : name ∉ package.names := fun named => unseen ⟨rfl, package, rfl, named⟩ ⟨id, held⟩
      rw [check_eq] at held
      split at held
      · cases held
      · rw [Layers.addNamed, hasPackage_addPackage, hasPackage_insert]
        simpa [unnamed] using start.apart ⟨id, held⟩
    · intro held
      by_cases same : name = query
      · exact .inr (.inl ⟨same.symm, package, rfl⟩)
      · rw [if_neg same] at check_eq
        exact .inl ((hasClass_congr check_eq).mpr held)

theorem hasPackage_addNamed (added : (layers.addNamed known arena query named).1.isOk)
    (implied : layers.implied arena query named = some package) (member : name ∈ package.names) :
    (layers.addNamed known arena query named).2.hasPackage name = true := by
  cases named with
  | cls id =>
    rw [Layers.addNamed] at added ⊢
    rcases addNest_cases (P := fun _ => True) trivial (fun _ _ _ _ => trivial) query (arena.nest id) with
      ⟨-, nothing⟩ | ⟨other, middle, container, brought, same, -⟩
    · cases (nothing added).symm.trans implied
    · cases same.symm.trans implied
      rw [brought, hasPackage_bring]
      simp [member]
  | package other =>
    cases implied
    rw [Layers.addNamed, hasPackage_addPackage]
    simp [member]

end Layers

namespace Cache

namespace Step

variable (finds : String → Except Error Named) (layers : Layers) (arena : Arena)

/-- The package that the call records if it succeeds. -/
def package? : Step → Option Package
  | op (.addNamed name named) => layers.implied arena name named
  | op (.addPackage package) => some package
  | find name =>
    match layers.lookup name, finds name with
    | none, .ok named => layers.implied arena name named
    | _, _ => none
  | _ => none

/-- The call records a package of the name, if it succeeds. -/
def Records (step : Step) (name : String) : Prop :=
  ∃ package, step.package? finds layers arena = some package ∧ name ∈ package.names

/-- The call is given a package to be put under the name. -/
def Hands (name : String) : Step → Prop
  | op (.install given (.package _)) | op (.addNamed given (.package _)) => given = name
  | _ => False

variable {finds layers arena} {inner : Inner}

theorem package?_find (unknown : layers.lookup query = none) (answer : finds query = .ok named) :
    (Step.find query).package? finds layers arena = layers.implied arena query named := by
  simp only [package?, unknown, answer]

section Orderly

variable (orderly : layers.Orderly inner name)
include orderly

/-- What a look-up adds is nothing that the cache has. -/
theorem find_proceeds (query : String) : layers.Proceeds inner name
      ((layers.find inner.packageExists arena inner.find rememberMisses query).1.isOk ∧
        (Step.find query).Records inner.find layers arena name)
      False (layers.find inner.packageExists arena inner.find rememberMisses query).2 := by
  unfold Layers.find
  cases looked : layers.lookup query with
  | some entry => cases entry <;> exact .of_keeps orderly.keeps
  | none =>
    have unknown : layers.check query = none := by rw [Layers.check, looked]; rfl
    cases answer : inner.find query with
    | error e =>
      dsimp only
      split
      · rename_i missing
        rw [Layers.eq_of_isNotFoundFor (Bool.and_eq_true_iff.mp missing).1] at answer
        have same := Layers.Shows.insertMiss unknown
        exact .of_keeps ⟨orderly.honest.insertMiss answer, orderly.tiered.holds.of_shows same, .insertMiss unknown,
          (Layers.hasClass_congr (same.found name)).mpr⟩
      · exact .of_keeps orderly.keeps
    | ok named =>
      rw [isOk_map]
      refine (orderly.addNamed arena query named).imp ?_ ?_
      · rintro ⟨added, package, implied, member⟩
        exact ⟨added, package, (package?_find looked answer).trans implied, member⟩
      · rintro ⟨id, held⟩ ⟨rfl, -⟩
        cases held.symm.trans unknown

/-- The name stays apart, unless a call records a package of it and leaves a class there. A class stays a class unless a
package of its name comes, or a layer is discarded. -/
theorem act_orderly (step : Step)
    (acts : step.act inner.find inner.packageExists rememberMisses arena layers = out) :
    ((out.1.isOk → step.Records inner.find layers arena name → ¬out.2.HasClass name) → out.2.Orderly inner name) ∧
    (step ≠ .op .discard → layers.HasClass name →
      out.2.HasClass name ∨ step.Hands name ∨ out.1.isOk ∧ step.Records inner.find layers arena name) := by
  have keeps := orderly.keeps
  have proceed (proceeds : layers.Proceeds inner name (out.1.isOk ∧ step.Records inner.find layers arena name)
      (step.Hands name) out.2) :=
    And.intro (fun apart => orderly.proceed proceeds (and_imp.mpr apart)) fun (_ : step ≠ .op .discard) => proceeds.kept
  subst acts
  cases step with
  | op call =>
    cases call with
    | install query named =>
      cases named with
      | cls id => exact proceed (.of_keeps (keeps.install arena query id))
      | package package => exact proceed (.insertPackage keeps package)
    | addNamed query named =>
      refine proceed ((orderly.addNamed arena query named).imp ?_ ?_)
      · rintro ⟨added, recorded⟩
        refine ⟨?_, recorded⟩
        simp only [act, Op.act, Op.act.done, isOk_map]
        exact added
      · rintro - ⟨rfl, package, rfl⟩
        rfl
    | addPackage package => exact proceed (.bring keeps (fun named => ⟨rfl, package, rfl, named⟩) none)
    | packageExists query => exact proceed (.of_keeps (keeps.ask query))
    | fork => exact ⟨fun _ => orderly.fork, fun _ held => .inl ((Layers.hasClass_congr (layers.check_fork name)).mpr held)⟩
    | commit =>
      simp only [act, Op.act, Op.act.done]
      cases left : layers.commit? with
      | none => exact ⟨fun _ => orderly, fun _ => .inl⟩
      | some after =>
        obtain ⟨kept, same⟩ := orderly.commit left
        exact ⟨fun _ => kept, fun _ held => .inl ((Layers.hasClass_congr same).mpr held)⟩
    | discard =>
      simp only [act, Op.act, Op.act.done]
      cases left : layers.discard? with
      | none => exact ⟨fun _ => orderly, (absurd rfl ·)⟩
      | some after => exact ⟨fun _ => orderly.discard left, (absurd rfl ·)⟩
  | find query =>
    refine proceed ((find_proceeds orderly query).imp ?_ fun _ => False.elim)
    rintro ⟨found, recorded⟩
    refine ⟨?_, recorded⟩
    simp only [act, isOk_map]
    exact found
  | check query => exact proceed (.of_keeps keeps)

end Orderly

theorem act_records {step : Step} (succeeded : (step.act finds known rememberMisses arena layers).1.isOk)
    (records : step.Records finds layers arena name) :
    (step.act finds known rememberMisses arena layers).2.hasPackage name = true := by
  obtain ⟨package, recorded, member⟩ := records
  cases step with
  | op call =>
    cases call with
    | addNamed query named =>
      simp only [act, Op.act, Op.act.done, isOk_map] at succeeded
      exact Layers.hasPackage_addNamed succeeded recorded member
    | addPackage other =>
      cases recorded
      simp only [act, Op.act]
      rw [Layers.hasPackage_addPackage]
      simp [member]
    | install | packageExists | fork | commit | discard => cases recorded
  | find query =>
    cases looked : layers.lookup query with
    | some entry => simp [package?, looked] at recorded
    | none =>
      cases answer : finds query with
      | error e => simp [package?, looked, answer] at recorded
      | ok named =>
        rw [package?_find looked answer] at recorded
        simp only [act, Layers.find, looked, answer, isOk_map] at succeeded ⊢
        exact Layers.hasPackage_addNamed succeeded recorded member
  | check query => cases recorded

end Step

/-- A fresh cache and the calls on it, of which none has recorded a package of the name and left a class there. -/
inductive Course (slot : Slot) (inner : Inner) (rememberMisses : Bool) (name : String) : World → Prop where
  | fresh {w : World} (empty : w.cache slot = {}) : Course slot inner rememberMisses name w
  | elsewhere {w after : World} (earlier : Course slot inner rememberMisses name w)
      (same : after.cache slot = w.cache slot) : Course slot inner rememberMisses name after
  | step {w after : World} {result : Except Error (Option Reply)} (earlier : Course slot inner rememberMisses name w)
      (step : Step) (ran : (step.run slot inner.find inner.packageExists rememberMisses).on w = some (result, after))
      (apart : result.isOk → step.Records inner.find (w.cache slot) w.arena name → ¬(after.cache slot).HasClass name) :
      Course slot inner rememberMisses name after

theorem Course.orderly {inner : Inner}
    (course : Course slot inner rememberMisses name w) : (w.cache slot).Orderly inner name := by
  induction course with
  | fresh empty =>
    rw [empty]
    exact .empty
  | elsewhere earlier same ih => rwa [same]
  | @step w after result earlier step ran apart ih =>
    obtain ⟨rfl, left⟩ := (step.comesTo w).left ran
    rw [left] at apart ⊢
    exact (step.act_orderly ih rfl).1 apart

end Cache

/-- In front of something that never changes its mind, a name of which no call has recorded the package and left a class
there is not both: what is cached as a class is no package. A call turns a class into a package only if it records the
package or is given it, and once it is recorded a class of that name is refused. -/
theorem classes_apart_from_packages {slot : Slot} {inner : Inner} {rememberMisses : Bool} {name : String} {w : World}
    (course : Cache.Course slot inner rememberMisses name w) :
    ((w.cache slot).HasClass name →
      (Cache.packageExists slot inner.backing.packageExists name).answer? w = some (.ok false)) ∧
    ∀ (step : Cache.Step) (result : Except Error (Option Cache.Reply)) (after : World),
      (step.run slot inner.find inner.packageExists rememberMisses).on w = some (result, after) →
      ((w.cache slot).HasClass name → step ≠ .op .discard →
        (after.cache slot).HasClass name ∨ step.Hands name ∨
          result.isOk ∧ step.Records inner.find (w.cache slot) w.arena name) ∧
      (result.isOk → step.Records inner.find (w.cache slot) w.arena name → ∀ id,
        (Cache.install slot inner.backing.packageExists name (.cls id)).answer? after =
          some (.error (.typePackageClash name (after.arena.get id).position))) := by
  have orderly := course.orderly
  constructor
  · intro held
    obtain ⟨unseen, absent⟩ := orderly.tiered.holds held
    rw [← Layers.presence_eq_false unseen absent]
    exact (Cache.packageExists_comesTo name w).answer
  · intro step result after ran
    obtain ⟨rfl, left⟩ := (step.comesTo w).left ran
    rw [left]
    refine ⟨fun held undiscarded => (step.act_orderly orderly rfl).2 undiscarded held, fun succeeded records id => ?_⟩
    have present := Cache.Step.act_records succeeded records
    rw [← left] at present
    have refused : (Cache.install slot inner.backing.packageExists name (.cls id)).ComesTo slot after _ :=
      Cache.install_comesTo name (.cls id) after
    rw [refused.answer, Layers.install, if_pos (Layers.presence_of_hasPackage present)]

/-- A class `p` is committed, and then a class of package `p` comes. -/
theorem classes_apart_from_packages_committed :
    let inner : Inner := ⟨fun name => .error (.notFound name), fun _ => false, nofun⟩
    let arena : Arena := ⟨#[{ name := "p" }, { name := "A", package := some ⟨"p"⟩ }]⟩
    let known := inner.backing.packageExists
    let step : Cache.Step := .op (.addNamed "p.A" (.cls ⟨1⟩))
    ∃ w after, w.arena = arena ∧ Cache.Course .session inner true "p" w ∧ w.system.check "p" = some (.cls ⟨0⟩) ∧
      (Cache.packageExists .session known "p").answer? w = some (.ok false) ∧
      (step.run .session inner.find inner.packageExists true).on w = some (.ok (some .done), after) ∧
      (Cache.install .session known "p" (.cls ⟨0⟩)).answer? after = some (.error (.typePackageClash "p" none)) := by
  intro inner arena known step
  have opening : Cache.Course .session inner true "p" { World.ofUniverse {} {} with arena } := .fresh rfl
  have forked := opening.step (.op .fork) rfl fun _ ⟨_, recorded, _⟩ => nomatch recorded
  have added := forked.step (.op (.addNamed "p" (.cls ⟨0⟩))) rfl fun _ ⟨_, recorded, _⟩ => nomatch recorded
  have committed := added.step (.op .commit) rfl fun _ ⟨_, recorded, _⟩ => nomatch recorded
  obtain ⟨apart, further⟩ := classes_apart_from_packages committed
  refine ⟨_, _, rfl, committed, rfl, apart ⟨⟨0⟩, rfl⟩, rfl, ?_⟩
  exact (further step _ _ rfl).2 rfl ⟨⟨"p"⟩, rfl, by decide⟩ ⟨0⟩

/-- A class `p` is there when its name becomes that of a package, and nothing is refused: first the class gives way to
the package that a class `p.A` brings along, then a recorded package stands beside the class. -/
theorem class_gives_way_to_package :
    let w : World := { World.ofUniverse {} {} with
      arena := ⟨#[{ name := "p" }, { name := "A", package := some ⟨"p"⟩ }]⟩ }
    (do
      System.addNamed "p" (.cls ⟨0⟩)
      let before ← Run.check "p"
      System.addNamed "p.A" (.cls ⟨1⟩)
      return (before, ← Run.check "p", ← System.packageExists "p") : Run (Option Named × Option Named × Bool)).answer? w =
      some (.ok (some (.cls ⟨0⟩), some (.package ⟨"p"⟩), true)) ∧
    (do
      System.addNamed "p" (.cls ⟨0⟩)
      Run.modifyCache .session (·.addPackage ⟨"p"⟩)
      return (← Run.check "p", ← System.packageExists "p") : Run (Option Named × Bool)).answer? w =
      some (.ok (some (.cls ⟨0⟩), true)) := ⟨rfl, rfl⟩

end ClassUniverse
