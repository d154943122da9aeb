import ClassUniverse.Proofs.Forks
import ClassUniverse.Proofs.Loading

/-! A forked layer takes all that is done to a layered cache until it is discarded. Calls may be nested in any
way, and what stands behind the cache may call it again while it is asked. -/
namespace ClassUniverse

open Run

/-- Only the top layer of the cache may differ. -/
def Confined (slot : Slot) (w after : World) : Prop := (w.cache slot).SameBelow (after.cache slot)

instance (slot : Slot) : WorldOrder (Confined slot) where
  refl w := .refl (w.cache slot)
  trans first second := first.trans second

theorem Confined.of_same (same : after.cache slot = w.cache slot) : Confined slot w after := by
  rw [Confined, same]
  exact .refl _

namespace Cache

/-- Computations that change the cache of a slot only by calls on it, one after another or nested. What stands
behind the cache is such a computation too. -/
inductive Uses (slot : Slot) : {α : Type} → Run α → Prop where
  /-- Whatever else happens, the cache is left alone. -/
  | elsewhere {x : Run α} (untouched : ∀ w, x.Ends w (fun _ after => after.cache slot = w.cache slot)
      (fun _ after => after.cache slot = w.cache slot)) : Uses slot x
  | bind {x : Run α} {f : α → Run β} (first : Uses slot x) (rest : ∀ a, Uses slot (f a)) : Uses slot (x >>= f)
  /-- A failed call does not end the sequence. -/
  | outcome {x : Run α} (uses : Uses slot x) : Uses slot x.outcome
  | install {backing : String → Run Bool} (knows : ∀ name, Uses slot (backing name)) (name : String) (named : Named) :
      Uses slot (Cache.install slot backing name named)
  | addNamed {backing : String → Run Bool} (knows : ∀ name, Uses slot (backing name)) (name : String) (named : Named) :
      Uses slot (Cache.addNamed slot backing name named)
  | addPackage (package : Package) : Uses slot (modifyCache slot (·.addPackage package))
  | packageExists {backing : String → Run Bool} (knows : ∀ name, Uses slot (backing name)) (name : String) :
      Uses slot (Cache.packageExists slot backing name)
  | find {backing : Backing} (finds : ∀ name, Uses slot (backing.find name))
      (knows : ∀ name, Uses slot (backing.packageExists name)) (rememberMisses : Bool) (name : String) :
      Uses slot (Cache.find slot backing rememberMisses name)
  | insertAll (entries : List (String × Named)) : Uses slot (modifyCache slot (·.insertAll entries))
  | clearAdded : Uses slot (modifyCache slot (·.clearAdded))
  | forked {x : Run α} (inside : Uses slot x) (keep : Except Error α → Bool) : Uses slot (forked slot keep x)

theorem modifyCache_confined (top : ∀ layers, Layers.SameBelow layers (change layers)) :
    (modifyCache slot change).Within (Confined slot) := by
  refine within_modify fun w => ?_
  rw [Confined, World.cache_insert]
  exact top _

theorem confined_fillsCache : FillsCache (fun _ x => x.Within (Confined slot)) (fun _ => True) slot :=
  { within_composes with
    setPackage := fun _ _ => modifyCache_confined fun layers => .modifyTop layers _
    insert := fun name named => modifyCache_confined fun layers => .insert layers name named
    addPackage := fun package => modifyCache_confined fun layers => .addPackage layers package
    insertMiss := fun _ => modifyCache_confined fun layers => .modifyTop layers _ }

section Below

variable {w middle : World} (below : (w.cache slot).fork.SameBelow (middle.cache slot))
include w middle below

/-- What was forked can be dropped, and then nothing has happened. -/
theorem discard_ends :
    (discard slot).Ends middle (fun _ after => after.cache slot = w.cache slot) (fun _ _ => False) := by
  unfold discard
  rw [ends_bind, ends_get, below.discard]
  exact ends_modifyCache.mpr (World.cache_insert ..)

theorem commit_ends : (commit slot).Ends middle (fun _ after => Confined slot w after) (fun _ _ => False) := by
  obtain ⟨top, whole⟩ := below.forked
  have forked : (middle.cache slot).overlays = top :: (w.cache slot).overlays := by rw [whole]
  have committed := Layers.commit?_eq forked
  unfold commit
  rw [ends_bind, ends_get, committed]
  refine ends_modifyCache.mpr ?_
  rw [Confined, World.cache_insert]
  exact below.commit committed

theorem close_ends (kept : Bool) : (close slot kept).Ends middle
      (fun _ after => Confined slot w after ∧ (kept = false → after.cache slot = w.cache slot)) (fun _ _ => False) := by
  cases kept with
  | true => exact (commit_ends below).mono (fun _ after confined => ⟨confined, nofun⟩) (fun _ _ failed => failed)
  | false => exact (discard_ends below).mono (fun _ after same => ⟨.of_same same, fun _ => same⟩) (fun _ _ failed => failed)

end Below

/-- A layer that is dropped after a failure leaves nothing behind. -/
theorem forked_ends (confined : x.Within (Confined slot)) (keep : Except Error α → Bool) (w : World) :
    (forked slot keep x).Ends w (fun _ after => Confined slot w after)
      (fun e after => Confined slot w after ∧ (keep (.error e) = false → after.cache slot = w.cache slot)) := by
  refine ends_bind.mpr (ends_modifyCache.mpr (ends_bind.mpr (ends_outcome.mpr ((confined.worlds _).mono ?_ ?_))))
  · intro a middle below
    rw [Confined, World.cache_insert] at below
    refine ends_bind.mpr ((close_ends below _).mono (fun _ after closed => ?_) (fun _ _ failed => failed.elim))
    exact ends_pure.mpr closed.1
  · intro e middle below
    rw [Confined, World.cache_insert] at below
    refine ends_bind.mpr ((close_ends below _).mono (fun _ after closed => ?_) (fun _ _ failed => failed.elim))
    exact ends_throw.mpr closed

theorem forked_confined (confined : x.Within (Confined slot)) (keep : Except Error α → Bool) :
    (forked slot keep x).Within (Confined slot) :=
  within_of_worlds fun w => (forked_ends confined keep w).mono (fun _ _ left => left) (fun _ _ left => left.1)

theorem Uses.within (uses : Uses slot x) : x.Within (Confined slot) := by
  induction uses with
  | elsewhere untouched => exact (within_of_worlds untouched).weaken fun _ _ same => .of_same same
  | bind _ _ first rest => exact within_bind first rest
  | outcome _ ih => exact within_outcome ih
  | install _ name named knows => exact confined_fillsCache.install knows name named
  | addNamed _ name named knows => exact confined_fillsCache.addNamed knows name named
  | addPackage package => exact confined_fillsCache.addPackage package
  | packageExists _ name knows => exact confined_fillsCache.packageExists knows name
  | find _ _ rememberMisses name finds knows => exact confined_fillsCache.find finds knows rememberMisses name
  | insertAll entries => exact modifyCache_confined fun layers => .insertAll layers entries
  | clearAdded => exact modifyCache_confined fun layers => .modifyTop layers _
  | forked _ keep ih => exact forked_confined ih keep

theorem Uses.confined (uses : Uses slot x) (w : World) :
    x.Ends w (fun _ after => Confined slot w after) (fun _ after => Confined slot w after) := uses.within.worlds w

end Cache

theorem confined_cacheRelation : CacheRelation (Confined .session) where
  elsewhere same := .of_same (by simp [World.cache, same])
  packageExists := Cache.confined_fillsCache.packageExists
  addNamed := Cache.confined_fillsCache.addNamed
  find := Cache.confined_fillsCache.find
  forked keep confined := Cache.forked_confined confined keep

/-- Metadata that cannot be used leaves the session's cache as it was. -/
theorem Loader.encodedClass_failed (depth : Nat) (file : ClassFile) (name : String) (w : World) :
    ((ofDepth depth).encodedClass file name).Ends w (fun _ _ => True) (fun _ after => after.system = w.system) := by
  have related := confined_cacheRelation.loadRelation
  have tracks := (related.ofDepth depth).toTracks
  rw [encodedClass_eq, ends_bind, ends_get]
  rw [ends_ite]
  refine ⟨fun _ => ends_throw.mpr rfl, fun _ => ?_⟩
  split
  · exact ends_throw.mpr rfl
  · refine (Cache.forked_ends (related.decode_within tracks _ _) Except.isOk w).mono ?_ ?_
    · exact fun _ _ _ => trivial
    · exact fun _ after left => left.2 rfl

/-- Whatever is done between a fork and its discard, the layers are then those from before the fork; so they are
after a failed attempt to use the metadata of a class file. -/
theorem discard_restores_layers :
    (∀ (slot : Slot) (α : Type) (x : Run α), Cache.Uses slot x →
      ∀ (w after : World) (result : Except Error (Except Error α)),
        (do Cache.fork slot
            let inside ← x.outcome
            Cache.discard slot
            return inside : Run (Except Error α)).on w = some (result, after) →
          (∃ inside, result = .ok inside) ∧ after.cache slot = w.cache slot) ∧
      ∀ (depth : Nat) (file : ClassFile) (name : String) (w after : World) (e : Error),
        ((Loader.ofDepth depth).encodedClass file name).on w = some (.error e, after) → after.system = w.system := by
  constructor
  · intro slot α x uses w after result ran
    have restored : (do
        Cache.fork slot
        let inside ← x.outcome
        Cache.discard slot
        return inside : Run (Except Error α)).Ends w (fun _ after => after.cache slot = w.cache slot) (fun _ _ => False) := by
      refine ends_bind.mpr (ends_modifyCache.mpr (ends_bind.mpr (ends_outcome.mpr ((uses.confined _).mono ?_ ?_))))
      all_goals
        intro _ middle below
        rw [Confined, World.cache_insert] at below
        refine ends_bind.mpr ((Cache.discard_ends below).mono (fun _ after same => ?_) (fun _ _ failed => failed))
        exact ends_pure.mpr same
    cases result with
    | ok inside => exact ⟨⟨inside, rfl⟩, restored.answer ran⟩
    | error e => exact (restored.error ran).elim
  · intro depth file name w after e failed
    exact (Loader.encodedClass_failed depth file name w).error failed

/-- What stands behind the cache installs a class in a fork of its own and then fails; the miss is remembered, a
class installed and the log cleared. Metadata that mentions an absent class fails after the class was installed. -/
theorem discard_restores_layers_reentrant :
    let backing : Backing := {
      find := fun name => Cache.forked .session Except.isOk do
        Cache.install .session (fun _ => return false) "q.B" (.cls ⟨0⟩)
        throw (.notFound name)
      packageExists := fun _ => return false }
    let x : Run Unit := do
      let _ ← (Cache.find .session backing true "p.A").outcome
      Cache.install .session backing.packageExists "p.C" (.cls ⟨1⟩)
      Run.modifyCache .session (·.clearAdded)
    let file : ClassFile := {
      name := "p.A", compilerVersion := some "0.1.0"
      encoded := .ofList [("jltc", ({ version := "0.1.0", name := "p.A", superType := some "p.Missing" } : Metadata).render)] }
    let w : World := .ofUniverse {} { classFiles := [file] }
    (Cache.Uses .session x ∧ ∃ inside after, (do
        Cache.fork .session
        let inside ← x.outcome
        Cache.discard .session
        return inside : Run (Except Error Unit)).on w = some (.ok inside, after) ∧
      after.cache .session = w.cache .session) ∧
    ∃ e after, ((Loader.ofDepth 20).encodedClass file "p.A").on w = some (.error e, after) ∧
      after.arena.size = 1 ∧ after.system = w.system := by
  intro backing x file w
  have absent (name : String) : Cache.Uses .session (backing.packageExists name) := .elsewhere fun _ => ends_pure.mpr rfl
  have reenters (name : String) : Cache.Uses .session (backing.find name) :=
    .forked (.bind (.install absent _ _) fun _ => .elsewhere fun _ => ends_throw.mpr rfl) _
  have uses : Cache.Uses .session x :=
    .bind (.outcome (.find reenters absent true "p.A")) fun _ => .bind (.install absent _ _) fun _ => .clearAdded
  refine ⟨⟨uses, ?_⟩, ?_⟩
  · obtain ⟨inside, after, ran⟩ : ∃ inside after, (do
        Cache.fork .session
        let inside ← x.outcome
        Cache.discard .session
        return inside : Run (Except Error Unit)).on w = some (.ok inside, after) := ⟨_, _, rfl⟩
    exact ⟨inside, after, ran, (discard_restores_layers.1 .session Unit x uses w after _ ran).2⟩
  · obtain ⟨e, after, ran, size⟩ : ∃ e after, ((Loader.ofDepth 20).encodedClass file "p.A").on w =
        some (.error e, after) ∧ after.arena.size = 1 := by decide +kernel
    exact ⟨e, after, ran, size, discard_restores_layers.2 20 file "p.A" w after e ran⟩

end ClassUniverse
