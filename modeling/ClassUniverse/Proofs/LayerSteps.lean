import ClassUniverse.Proofs.Headers
import ClassUniverse.Proofs.Respects
import ClassUniverse.Proofs.Layers
import ClassUniverse.Proofs.Yields
import ClassUniverse.Resolver

/-! Calls on a layered cache as functions of its layers. Where what stands behind the cache only reads, a call comes to
a result and to other layers that depend on the layers, the classes and the packages behind them alone. -/
namespace ClassUniverse

open Run

variable {w : World}

namespace Layers

section Calls

variable (known : String → Bool) (arena : Arena)

/-- Whether there is the package, as far as it is remembered and else as `known` has it. -/
def presence (layers : Layers) (name : String) : Bool :=
  match layers.knownPackage name with
  | some present => present
  | none => if (containerName? name).bind layers.knownPackage = some false then false else known name

/-- The layers remember the answer. -/
def ask (layers : Layers) (name : String) : Layers :=
  match layers.knownPackage name with
  | some _ => layers
  | none => layers.setPackage name (layers.presence known name)

def install (layers : Layers) (name : String) : Named → Except Error Unit × Layers
  | .cls id =>
    if layers.presence known name then (.error (.typePackageClash name (arena.get id).position), layers.ask known name)
    else (.ok (), (layers.ask known name).insert name (.cls id))
  | .package package => (.ok (), layers.insert name (.package package))

/-- The package of a top-level class, by its own name where the class is given under a name in it. -/
def bring (layers : Layers) (package : Package) (container : Option String) : Layers :=
  if container = some package.fullName then (layers.addPackage package).insert package.fullName (.package package)
  else layers.addPackage package

def addNest : (layers : Layers) → (name : String) → (nest : List ClassId) → Except Error Unit × Layers
  | layers, _, [] => (.ok (), layers)
  | layers, name, id :: around =>
    match layers.install known arena name (.cls id) with
    | (.error e, after) => (.error e, after)
    | (.ok _, after) =>
      match (arena.get id).kind, (arena.get id).package, containerName? name with
      | .topLevel, some package, container => (.ok (), after.bring package container)
      | .memberOf _, _, some container =>
        if name = arena.fullName id && (after.check container).isNone then addNest after container around
        else (.ok (), after)
      | _, _, _ => (.ok (), after)

def addNamed (layers : Layers) (name : String) : Named → Except Error Unit × Layers
  | .cls id => layers.addNest known arena name (arena.nest id)
  | .package package => (.ok (), (layers.insert name (.package package)).addPackage package)

end Calls

section Lemmas

variable {arena : Arena} {layers : Layers} {id : ClassId}

@[simp] theorem lookup_ask (layers : Layers) (name query : String) :
    (layers.ask known name).lookup query = layers.lookup query := by
  unfold ask
  split
  · rfl
  · exact lookup_setPackage ..

@[simp] theorem check_ask (layers : Layers) (name query : String) :
    (layers.ask known name).check query = layers.check query := by
  rw [check, lookup_ask, check]

@[simp] theorem knownPackage_ask (layers : Layers) (name : String) :
    (layers.ask known name).knownPackage name = some (layers.presence known name) := by
  unfold ask presence
  cases held : layers.knownPackage name with
  | some present => exact held
  | none => simp

/-- Elsewhere than in the package itself nothing is replaced. -/
theorem check_bring (other : query ≠ package.fullName) (layers : Layers) (container : Option String) :
    (layers.bring package container).check query = layers.check query := by
  unfold bring
  split
  · rw [check_insert, if_neg other, check_addPackage]
  · exact check_addPackage ..

theorem class_of_bring
    (hit : (layers.bring package container).check query = some (.cls id)) : layers.check query = some (.cls id) := by
  by_cases same : query = package.fullName
  · unfold bring at hit
    split at hit
    · simp [same] at hit
    · rwa [check_addPackage] at hit
  · rwa [check_bring same] at hit

theorem addNest_taken (taken : layers.presence known name) (nest : List ClassId) :
    layers.addNest known arena name (id :: nest) =
      (.error (.typePackageClash name (arena.get id).position), layers.ask known name) := by
  simp [addNest, install, taken]

theorem addNamed_taken (taken : layers.presence known name) : layers.addNamed known arena name (.cls id) =
    (.error (.typePackageClash name (arena.get id).position), layers.ask known name) := addNest_taken taken _

section Keeping

/-! A class is added where there is no package, and so are the classes around it where they fit. What every such step
keeps is kept on the whole. -/

variable {P : Layers → Prop} {F : String → ClassId → Prop}
  (asks : ∀ layers name, P layers → P (layers.ask known name))
  (adds : ∀ layers name id, P layers → F name id → layers.presence known name = false →
    P ((layers.ask known name).insert name (.cls id)))
  (brings : ∀ layers name id package container, P layers → F name id → (arena.get id).package = some package →
    P (layers.bring package container))
  (outward : ∀ name id outer container, F name id → arena.outer? id = some outer → (arena.get id).kind = .memberOf outer →
    name = arena.fullName id → containerName? name = some container → F container outer)
include asks adds brings outward

theorem addNest_keeps (around : arena.Around id nest) (here : F name id)
    (free : layers.presence known name = false) (start : P ((layers.ask known name).insert name (.cls id))) :
    P (layers.addNest known arena name (id :: nest)).2 := by
  induction around generalizing name layers with
  | done id =>
    simp only [addNest, install, free, Bool.false_eq_true, if_false]
    split
    · exact brings _ name id _ _ start here ‹_›
    · split
      · exact start
      · exact start
    · exact start
  | @next id outer rest encloses further ih =>
    rw [addNest]
    simp only [install, free, Bool.false_eq_true, if_false]
    split
    · exact brings _ name id _ _ start here ‹_›
    · rename_i other container kind contained
      split
      · rename_i inner
        simp only [Bool.and_eq_true, decide_eq_true_eq] at inner
        have same : other = outer := by simpa [Arena.outer?, kind, ClassKind.outer?] using encloses
        have fit := outward name id outer container here encloses (same ▸ kind) inner.1 contained
        cases taken : ((layers.ask known name).insert name (.cls id)).presence known container with
        | true =>
          rw [addNest_taken taken]
          exact asks _ container start
        | false => exact ih fit taken (adds _ container outer start fit taken)
      · exact start
    · exact start

theorem addNamed_free (here : F name id) (free : layers.presence known name = false)
    (start : P ((layers.ask known name).insert name (.cls id))) : P (layers.addNamed known arena name (.cls id)).2 :=
  addNest_keeps asks adds brings outward (arena.outersWithin_around id.index id) here free start

theorem addNamed_keeps (here : F name id) (start : P layers) : P (layers.addNamed known arena name (.cls id)).2 := by
  cases free : layers.presence known name with
  | true =>
    rw [addNamed_taken free]
    exact asks layers name start
  | false => exact addNamed_free asks adds brings outward here free (adds layers name id start here free)

end Keeping

end Lemmas

end Layers

/-- All but the layered caches is the same. -/
def World.Recaches (w after : World) : Prop := after = { w with caches := after.caches }

theorem World.Recaches.trans (first : w.Recaches middle) (second : middle.Recaches after) : w.Recaches after := by
  rw [Recaches, second, first]

theorem World.Recaches.arena (same : w.Recaches after) : after.arena = w.arena := by
  rw [same]

theorem World.Recaches.keeps (same : w.Recaches after) : w.arena.Keeps after.arena :=
  same.arena ▸ .refl w.arena

namespace Run

/-- The computation comes to a result and to the layers of a cache, and all but the caches stays as it is. -/
def ComesTo (x : Run α) (slot : Slot) (w : World) (out : Except Error α × Layers) : Prop :=
  ∃ after, x.on w = some (out.1, after) ∧ w.Recaches after ∧ after.cache slot = out.2

theorem comesTo_pure (a : α) : (pure a : Run α).ComesTo slot w (.ok a, w.cache slot) := ⟨w, rfl, rfl, rfl⟩

theorem comesTo_throw (e : Error) : (throw e : Run α).ComesTo slot w (.error e, w.cache slot) := ⟨w, rfl, rfl, rfl⟩

theorem comesTo_modifyCache (change : Layers → Layers) :
    (modifyCache slot change).ComesTo slot w (.ok (), change (w.cache slot)) :=
  ⟨_, rfl, rfl, w.cache_insert slot _⟩

theorem comesTo_get {f : World → Run α} (next : (f w).ComesTo slot w out) : (get >>= f).ComesTo slot w out := by
  obtain ⟨after, ran, kept⟩ := next
  exact ⟨after, (on_get_bind f).trans ran, kept⟩

namespace ComesTo

variable {x : Run α}

theorem bind {out : Except Error β × Layers} (first : x.ComesTo slot w (.ok a, layers))
    (next : ∀ middle, w.Recaches middle → middle.cache slot = layers → (f a).ComesTo slot middle out) :
    (x >>= f).ComesTo slot w out := by
  obtain ⟨middle, ran, same, left⟩ := first
  obtain ⟨after, ran', same', left'⟩ := next middle same left
  exact ⟨after, (on_bind_ok ran).trans ran', same.trans same', left'⟩

theorem fails (first : x.ComesTo slot w (.error e, layers)) : (x >>= f).ComesTo slot w (.error e, layers) := by
  obtain ⟨after, ran, kept⟩ := first
  exact ⟨after, on_bind_error ran, kept⟩

variable (comes : x.ComesTo slot w out)
include comes

theorem map (g : α → β) : (x >>= fun a => pure (g a)).ComesTo slot w (out.1.map g, out.2) := by
  obtain ⟨result, layers⟩ := out
  cases result with
  | ok a =>
    refine comes.bind fun middle _ left => ?_
    rw [← left]
    exact comesTo_pure (g a)
  | error e => exact comes.fails

theorem outcome : x.outcome.ComesTo slot w (.ok out.1, out.2) := by
  obtain ⟨after, ran, kept⟩ := comes
  exact ⟨after, on_outcome_of ran, kept⟩

theorem left (ran : x.on w = some (result, after)) : result = out.1 ∧ after.cache slot = out.2 := by
  obtain ⟨after', ran', -, left⟩ := comes
  rw [ran] at ran'
  cases ran'
  exact ⟨rfl, left⟩

theorem ends (good : ∀ a after, out.1 = .ok a → w.Recaches after → after.cache slot = out.2 → ok a after)
    (fails : ∀ e after, out.1 = .error e → w.Recaches after → after.cache slot = out.2 → bad e after) : x.Ends w ok bad := by
  obtain ⟨after, ran, same, left⟩ := comes
  obtain ⟨result, layers⟩ := out
  unfold Ends
  rw [ran]
  cases result with
  | ok a => exact good a after rfl same left
  | error e => exact fails e after rfl same left

/-- What the caches come to decides what is kept. -/
theorem gives (kept : ∀ after, w.Recaches after → after.cache slot = out.2 → P after ∧ G w after)
    (answer : ∀ a after, out.1 = .ok a → w.Recaches after → after.cache slot = out.2 → good a after) :
    x.Gives P G w good :=
  comes.ends (fun a after found same left => ⟨kept after same left, answer a after found same left⟩)
    fun _ after _ same left => kept after same left

end ComesTo

end Run

namespace Cache

/-- The packages behind a cache are looked up without any change, and whatever the caches hold. -/
def Reads (backing : String → Run Bool) (known : String → Bool) (w : World) : Prop :=
  ∀ after, w.Recaches after → ∀ name, (backing name).on after = some (.ok (known name), after)

theorem reads_fixed (known : String → Bool) (w : World) : Reads (fun name => return known name) known w :=
  fun _ _ _ => rfl

namespace Reads

variable (reads : Reads backing known w)
include reads

theorem later (same : w.Recaches middle) : Reads backing known middle :=
  fun after further => reads after (same.trans further)

theorem packageExists (name : String) : (packageExists slot backing name).ComesTo slot w
      (.ok ((w.cache slot).presence known name), (w.cache slot).ask known name) := by
  refine comesTo_get ?_
  unfold Layers.ask Layers.presence
  dsimp only
  cases remembered : (w.cache slot).knownPackage name with
  | some present => exact comesTo_pure present
  | none =>
    dsimp only
    split
    · exact ⟨_, rfl, rfl, w.cache_insert slot _⟩
    · exact ⟨_, on_bind_ok (reads w rfl name), rfl, w.cache_insert slot _⟩

theorem install (name : String) (named : Named) :
    (install slot backing name named).ComesTo slot w ((w.cache slot).install known w.arena name named) := by
  cases named with
  | cls id =>
    refine (reads.packageExists name).bind fun middle same left => ?_
    rw [Layers.install]
    split
    · rw [← same.arena, ← left]
      exact ⟨middle, rfl, rfl, rfl⟩
    · rw [← left]
      exact comesTo_modifyCache _
  | package package => exact comesTo_modifyCache (·.insert name (.package package))

theorem addNest (name : String) (nest : List ClassId) :
    (addNest slot backing name nest).ComesTo slot w ((w.cache slot).addNest known w.arena name nest) := by
  induction nest generalizing name w with
  | nil => exact comesTo_pure ()
  | cons id around ih =>
    have installed : (Cache.install slot backing name (.cls id)).ComesTo slot w _ := reads.install name (.cls id)
    unfold Cache.addNest Layers.addNest
    generalize (w.cache slot).install known w.arena name (.cls id) = out at installed ⊢
    obtain ⟨result, after⟩ := out
    cases result with
    | error e => exact installed.fails
    | ok done =>
      refine installed.bind fun middle same left => comesTo_get ?_
      have outer := ih (reads.later same)
      rw [same.arena] at outer ⊢
      rw [← left]
      dsimp only
      generalize (w.arena.get id).kind = kind, (w.arena.get id).package = held, containerName? name = container
      cases kind with
      | topLevel =>
        cases held with
        | none => exact comesTo_pure ()
        | some package =>
          refine (comesTo_modifyCache _).bind fun last _ added => ?_
          dsimp only
          rw [Layers.bring, ← added]
          split
          · exact comesTo_modifyCache _
          · exact comesTo_pure ()
      | memberOf _ =>
        cases container with
        | none => exact comesTo_pure ()
        | some container =>
          dsimp only
          split
          · exact outer _
          · exact comesTo_pure ()
      | localTo | anonymousIn => exact comesTo_pure ()

theorem addNamed (name : String) (named : Named) :
    (addNamed slot backing name named).ComesTo slot w ((w.cache slot).addNamed known w.arena name named) := by
  cases named with
  | cls id => exact comesTo_get (reads.addNest name _)
  | package package =>
    refine (reads.install name (.package package)).bind fun middle _ left => ?_
    have added : (modifyCache slot (·.addPackage package)).ComesTo slot middle _ := comesTo_modifyCache _
    rwa [left] at added

end Reads

end Cache

/-- Packages of declared classes, of sources and of class files. -/
def World.knowsPackage (w : World) (name : String) : Bool :=
  w.tableHasPackage .session name || w.sources.packageExists name || w.classPath.packageExists name

theorem System.reads (w : World) : Cache.Reads knowsPackage w.knowsPackage w := by
  intro after same name
  rw [same]
  rfl

/-- What the session's cache stands in front of knows the same packages. -/
theorem Resolver.session_reads (w : World) : Cache.Reads session.packageExists w.knowsPackage w := by
  intro after same name
  have known : w.knowsPackage name = after.knowsPackage name := by
    rw [same]
    rfl
  rw [known, World.knowsPackage, Bool.or_assoc]
  simp only [session, firstOf, List.foldr_cons, List.foldr_nil, packageExists, bind_assoc, pure_bind, on_get_bind]
  cases after.tableHasPackage .session name with
  | true => rfl
  | false =>
    simp only [Bool.false_eq_true, if_false, on_get_bind]
    cases after.sources.packageExists name || after.classPath.packageExists name <;> rfl

end ClassUniverse
