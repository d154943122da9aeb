import ClassUniverse.Proofs.CacheCalls
import ClassUniverse.Proofs.Dotted
import ClassUniverse.Proofs.LayerSteps

/-! Calls on a layered cache as functions of its layers. Where the packages behind the cache never change, a call
comes to a result and to other layers that depend on the layers and on the classes alone. -/
namespace ClassUniverse

open Run

/-- What comes out, apart from the world that is left behind. -/
def Run.answer? (x : Run α) (w : World) : Option (Except Error α) := (x.on w).map Prod.fst

theorem isOk_map (result : Except Error α) (f : α → β) : (result.map f).isOk = result.isOk := by
  cases result <;> rfl

theorem ne_of_isBelow (below : isBelow container name) : container ≠ name := by
  rintro rfl
  obtain ⟨rest, whole⟩ := isBelow_iff.mp below
  simpa using congrArg List.length whole

namespace Layers

section Calls

variable (known : String → Bool) (arena : Arena)

/-- What stands behind the cache has `finds name` for a name. -/
def find (finds : String → Except Error Named) (rememberMisses : Bool) (layers : Layers) (name : String) :
    Except Error Named × Layers :=
  match layers.lookup name with
  | some (.found named) => (.ok named, layers)
  | some .missing => (.error (.notFound name), layers)
  | none =>
    match finds name with
    | .ok named =>
      let (result, after) := layers.addNamed known arena name named
      (result.map fun _ => named, after)
    | .error e => (.error e, if e.isNotFoundFor name && rememberMisses then layers.insertMiss name else layers)

end Calls

/-- The package that a class brings along when it is added under the name, by itself or by the classes around it. -/
def impliedBy (layers : Layers) (arena : Arena) : (name : String) → (nest : List ClassId) → Option Package
  | _, [] => none
  | name, id :: around =>
    match (arena.get id).kind, (arena.get id).package, containerName? name with
    | .topLevel, some package, _ => some package
    | .memberOf _, _, some container =>
      if name = arena.fullName id && (layers.check container).isNone then layers.impliedBy arena container around
      else none
    | _, _, _ => none

/-- The package that is added together with an entity. -/
def implied (layers : Layers) (arena : Arena) (name : String) : Named → Option Package
  | .cls id => layers.impliedBy arena name (arena.nest id)
  | .package package => some package

variable {arena : Arena} {layers : Layers}

theorem check_install_other (other : query ≠ name) (named : Named) :
    (layers.install known arena name named).2.check query = layers.check query := by
  cases named with
  | cls id =>
    rw [install]
    split
    · exact check_ask ..
    · simp [other]
  | package package => simp [install, other]

/-- Only the containers of the name matter. -/
theorem impliedBy_congr {after : Layers} (same : ∀ query, isBelow query name → after.check query = layers.check query)
    (nest : List ClassId) : after.impliedBy arena name nest = layers.impliedBy arena name nest := by
  induction nest generalizing name with
  | nil => rfl
  | cons id around ih =>
    unfold impliedBy
    generalize (arena.get id).kind = kind, (arena.get id).package = held
    cases contained : containerName? name with
    | none => cases kind <;> cases held <;> rfl
    | some container =>
      have below := isBelow_of_containerName contained
      have deeper := ih fun query inside => same query (isBelow_trans inside below)
      cases kind <;> cases held <;> simp only [same container below, deeper]

theorem lookup_of_check (hit : layers.check name = some named) : layers.lookup name = some (.found named) := by
  obtain ⟨entry, found, given⟩ := Option.bind_eq_some_iff.mp hit
  cases entry with
  | found other => cases given; exact found
  | missing => cases given

theorem lookup_of_check_none (unknown : layers.check name = none) :
    layers.lookup name = none ∨ layers.lookup name = some .missing := by
  cases found : layers.lookup name with
  | none => exact .inl rfl
  | some entry =>
    cases entry with
    | found named => simp [check, found, Entry.named?] at unknown
    | missing => exact .inr rfl

/-- Classes are installed, and at the end there is the package that they bring along. -/
theorem addNest_cases {P : Layers → Prop} (start : P layers)
    (installs : ∀ (layers : Layers) name id, P layers → P (layers.install known arena name (.cls id)).2)
    (name : String) (nest : List ClassId) : P (layers.addNest known arena name nest).2 ∧
        ((layers.addNest known arena name nest).1.isOk → layers.impliedBy arena name nest = none) ∨
      ∃ package middle container, layers.addNest known arena name nest = (.ok (), middle.bring package container) ∧
        layers.impliedBy arena name nest = some package ∧ P middle := by
  induction nest generalizing layers name with
  | nil => exact .inl ⟨start, fun _ => rfl⟩
  | cons id around ih =>
    have kept := installs layers name id start
    have same {query : String} (below : isBelow query name) :
        (layers.install known arena name (.cls id)).2.check query = layers.check query :=
      check_install_other (ne_of_isBelow below) _
    unfold addNest impliedBy
    generalize layers.install known arena name (.cls id) = out at kept same ⊢
    obtain ⟨_ | _, after⟩ := out
    · exact .inl ⟨kept, fun succeeded => by cases succeeded⟩
    · generalize (arena.get id).kind = kind, (arena.get id).package = held
      cases contained : containerName? name with
      | none =>
        cases kind with
        | topLevel =>
          cases held with
          | some package => exact .inr ⟨package, after, none, rfl, rfl, kept⟩
          | none => exact .inl ⟨kept, fun _ => rfl⟩
        | _ => exact .inl ⟨kept, fun _ => rfl⟩
      | some container =>
        have below := isBelow_of_containerName contained
        have outer := ih kept container
        rw [impliedBy_congr fun query inside => same (isBelow_trans inside below)] at outer
        cases kind with
        | topLevel =>
          cases held with
          | some package => exact .inr ⟨package, after, some container, rfl, rfl, kept⟩
          | none => exact .inl ⟨kept, fun _ => rfl⟩
        | memberOf =>
          dsimp only
          rw [same below]
          cases decide (name = arena.fullName id) && (layers.check container).isNone with
          | true => exact outer
          | false => exact .inl ⟨kept, fun _ => rfl⟩
        | _ => exact .inl ⟨kept, fun _ => rfl⟩

/-! ## Side by side -/

/-- The same result, and layers that stand in the relation. -/
structure Alike (R : Layers → Layers → Prop) (out other : Except Error α × Layers) : Prop where
  result : other.1 = out.1
  layers : R out.2 other.2

theorem Alike.map {out other : Except Error α × Layers} (alike : Alike R out other) (f : α → β) :
    Alike R (out.1.map f, out.2) (other.1.map f, other.2) := ⟨congrArg (Except.map f) alike.result, alike.layers⟩

theorem eq_of_isNotFoundFor {e : Error} (missing : e.isNotFoundFor name = true) : e = .notFound name := by
  unfold Error.isNotFoundFor at missing
  split at missing
  · rw [of_decide_eq_true missing]
  · cases missing

/-- What is not there may be remembered as a miss. -/
theorem find_failed (known : String → Bool) (arena : Arena) (remembers : Bool) (unknown : layers.check name = none) (answer : finds name = .error e)
    (absent : layers.lookup name = some .missing → finds name = .error (.notFound name)) :
    layers.find known arena finds remembers name = (.error e, layers) ∨
      (layers.lookup name = none ∧ finds name = .error (.notFound name) ∧ remembers = true) ∧
        layers.find known arena finds remembers name = (.error e, layers.insertMiss name) := by
  unfold find
  rcases lookup_of_check_none unknown with looked | looked
  · rw [looked, answer]
    dsimp only
    split
    · rename_i missing
      rw [Bool.and_eq_true] at missing
      exact .inr ⟨⟨rfl, congrArg Except.error (eq_of_isNotFoundFor missing.1), missing.2⟩, rfl⟩
    · exact .inl rfl
  · rw [looked]
    cases answer.symm.trans (absent looked)
    exact .inl rfl

/-- Two caches in front of the same give the same answers, as long as they stand in the relation. -/
structure Parallel (finds : String → Except Error Named) (known : String → Bool) (remembers remembers' : Bool)
    (R : Layers → Layers → Prop) : Prop where
  check : ∀ {layers other}, R layers other → ∀ name, other.check name = layers.check name
  presence : ∀ {layers other}, R layers other → ∀ name, other.presence known name = layers.presence known name
  ask : ∀ {layers other}, R layers other → ∀ name, R (layers.ask known name) (other.ask known name)
  insert : ∀ {layers other}, R layers other → ∀ name named, R (layers.insert name named) (other.insert name named)
  addPackage : ∀ {layers other}, R layers other → ∀ package, R (layers.addPackage package) (other.addPackage package)
  absent : ∀ {layers other name}, R layers other → layers.lookup name = some .missing ∨ other.lookup name = some .missing →
    finds name = .error (.notFound name)
  missed : ∀ {layers other name}, R layers other →
    layers.lookup name = none ∧ finds name = .error (.notFound name) ∧ remembers = true → R (layers.insertMiss name) other
  missed' : ∀ {layers other name}, R layers other →
    other.lookup name = none ∧ finds name = .error (.notFound name) ∧ remembers' = true → R layers (other.insertMiss name)

namespace Parallel

variable (parallel : Parallel finds known remembers remembers' R) (related : R layers other)
include parallel related

theorem install (name : String) (named : Named) :
    Alike R (layers.install known arena name named) (other.install known arena name named) := by
  cases named with
  | cls id =>
    rw [Layers.install, Layers.install, parallel.presence related]
    split
    · exact ⟨rfl, parallel.ask related name⟩
    · exact ⟨rfl, parallel.insert (parallel.ask related name) name _⟩
  | package package => exact ⟨rfl, parallel.insert related name _⟩

theorem bring (package : Package) (container : Option String) : R (layers.bring package container) (other.bring package container) := by
  unfold Layers.bring
  split
  · exact parallel.insert (parallel.addPackage related package) _ _
  · exact parallel.addPackage related package

theorem addNest (name : String) (nest : List ClassId) :
    Alike R (layers.addNest known arena name nest) (other.addNest known arena name nest) := by
  induction nest generalizing name layers other with
  | nil => exact ⟨rfl, related⟩
  | cons id around ih =>
    have installed : Alike R (layers.install known arena name (.cls id)) _ := parallel.install related name (.cls id)
    unfold Layers.addNest
    generalize layers.install known arena name (.cls id) = out,
      other.install known arena name (.cls id) = out' at installed ⊢
    obtain ⟨result, after⟩ := out
    obtain ⟨result', after'⟩ := out'
    obtain ⟨rfl, left⟩ := installed
    cases result' with
    | error e => exact ⟨rfl, left⟩
    | ok done =>
      dsimp only
      split
      · exact ⟨rfl, parallel.bring left _ _⟩
      · rw [parallel.check left]
        split
        · exact ih left _
        · exact ⟨rfl, left⟩
      · exact ⟨rfl, left⟩

theorem addNamed (name : String) (named : Named) :
    Alike R (layers.addNamed known arena name named) (other.addNamed known arena name named) := by
  cases named with
  | cls id => exact parallel.addNest related name _
  | package package => exact ⟨rfl, parallel.addPackage (parallel.insert related name _) package⟩

theorem find (name : String) :
    Alike R (layers.find known arena finds remembers name) (other.find known arena finds remembers' name) := by
  have same := parallel.check related name
  cases found : layers.check name with
  | some named =>
    rw [Layers.find, Layers.find, lookup_of_check found, lookup_of_check (same.trans found)]
    exact ⟨rfl, related⟩
  | none =>
    have unknown := same.trans found
    cases answer : finds name with
    | ok named =>
      have none {missing : Prop} (absent : missing → finds name = .error (.notFound name)) : ¬missing := by
        intro held
        cases answer.symm.trans (absent held)
      have looked := (lookup_of_check_none found).resolve_right (none (parallel.absent related ∘ .inl))
      have looked' := (lookup_of_check_none unknown).resolve_right (none (parallel.absent related ∘ .inr))
      rw [Layers.find, Layers.find, looked, looked', answer]
      exact (parallel.addNamed related name named).map _
    | error e =>
      have left := find_failed known arena remembers found answer (parallel.absent related ∘ .inl)
      have right := find_failed known arena remembers' unknown answer (parallel.absent related ∘ .inr)
      rcases left with out | ⟨missed, out⟩ <;> rcases right with out' | ⟨missed', out'⟩ <;> rw [out, out']
      · exact ⟨rfl, related⟩
      · exact ⟨rfl, parallel.missed' related missed'⟩
      · exact ⟨rfl, parallel.missed related missed⟩
      · exact ⟨rfl, parallel.missed' (parallel.missed related missed) missed'⟩

end Parallel

end Layers

theorem Run.ComesTo.answer {x : Run α} (comes : x.ComesTo slot w out) : x.answer? w = some out.1 := by
  obtain ⟨after, ran, -⟩ := comes
  rw [answer?, ran]
  rfl

namespace Cache

theorem packageExists_comesTo (name : String) (w : World) :
    (packageExists slot (fun name => return known name) name).ComesTo slot w
      (.ok ((w.cache slot).presence known name), (w.cache slot).ask known name) := (reads_fixed known w).packageExists name

theorem install_comesTo (name : String) (named : Named) (w : World) :
    (install slot (fun name => return known name) name named).ComesTo slot w
      ((w.cache slot).install known w.arena name named) := (reads_fixed known w).install name named

theorem addNamed_comesTo (name : String) (named : Named) (w : World) :
    (addNamed slot (fun name => return known name) name named).ComesTo slot w
      ((w.cache slot).addNamed known w.arena name named) := (reads_fixed known w).addNamed name named

/-- Something that has the same answer for a name whenever it is asked. -/
def fixed (finds : String → Except Error Named) (known : String → Bool) : Backing where
  find name := Inner.answer (finds name)
  packageExists name := return known name

theorem find_comesTo (finds : String → Except Error Named) (rememberMisses : Bool) (name : String) (w : World) :
    (find slot (fixed finds known) rememberMisses name).ComesTo slot w
      ((w.cache slot).find known w.arena finds rememberMisses name) := by
  refine comesTo_get ?_
  unfold Layers.find
  cases looked : (w.cache slot).lookup name with
  | some entry =>
    cases entry with
    | found named => exact comesTo_pure named
    | missing => exact comesTo_throw _
  | none =>
    have asked : ((fixed finds known).find name).outcome.ComesTo slot w (.ok (finds name), w.cache slot) := by
      refine ⟨w, ?_, rfl, rfl⟩
      simp only [fixed, on_outcome]
      cases finds name <;> rfl
    refine asked.bind fun middle same left => ?_
    cases finds name with
    | ok named =>
      refine comesTo_get ?_
      have unknown : (middle.cache slot).check name ≠ some named := by
        simp [left, Layers.check, looked]
      rw [if_pos unknown, ← same.arena, ← left]
      exact (addNamed_comesTo name named middle).map _
    | error e =>
      dsimp only
      split
      · rw [← left]
        exact ⟨_, rfl, rfl, middle.cache_insert slot _⟩
      · rw [← left]
        exact comesTo_throw e

/-- What can be asked of a layered cache, but for what a name stands for. -/
inductive Op where
  | install (name : String) (named : Named)
  | addNamed (name : String) (named : Named)
  | addPackage (package : Package)
  | packageExists (name : String)
  | fork
  | commit
  | discard
  deriving DecidableEq, Repr

namespace Op

def run (slot : Slot) (known : String → Bool) : Op → Run Reply
  | install name named => do
    Cache.install slot (fun name => return known name) name named
    return .done
  | addNamed name named => do
    Cache.addNamed slot (fun name => return known name) name named
    return .done
  | addPackage package => do
    modifyCache slot (·.addPackage package)
    return .done
  | packageExists name => return .present (← Cache.packageExists slot (fun name => return known name) name)
  | fork => do
    Cache.fork slot
    return .done
  | commit => do
    Cache.commit slot
    return .done
  | discard => do
    Cache.discard slot
    return .done

/-- A fork can be closed only where there is one. -/
def close (layers : Layers) : Option Layers → Except Error Unit × Layers
  | some after => (.ok (), after)
  | none => (.error (.semantic .noForkedLayer none), layers)

def act (known : String → Bool) (arena : Arena) (layers : Layers) : Op → Except Error Reply × Layers
  | install name named => done (layers.install known arena name named)
  | addNamed name named => done (layers.addNamed known arena name named)
  | addPackage package => (.ok .done, layers.addPackage package)
  | packageExists name => (.ok (.present (layers.presence known name)), layers.ask known name)
  | fork => (.ok .done, layers.fork)
  | commit => done (close layers layers.commit?)
  | discard => done (close layers layers.discard?)
where
  done (out : Except Error Unit × Layers) : Except Error Reply × Layers := (out.1.map fun _ => .done, out.2)

theorem comesTo (op : Op) (w : World) : (op.run slot known).ComesTo slot w (op.act known w.arena (w.cache slot)) := by
  cases op with
  | install name named => exact (install_comesTo name named w).map _
  | addNamed name named => exact (addNamed_comesTo name named w).map _
  | addPackage package => exact (comesTo_modifyCache _).map _
  | packageExists name => exact (packageExists_comesTo name w).map _
  | fork => exact (comesTo_modifyCache _).map _
  | commit =>
    refine ComesTo.map (comesTo_get ?_) _
    cases (w.cache slot).commit? with
    | some after => exact comesTo_modifyCache _
    | none => exact comesTo_throw _
  | discard =>
    refine ComesTo.map (comesTo_get ?_) _
    cases (w.cache slot).discard? with
    | some after => exact comesTo_modifyCache _
    | none => exact comesTo_throw _

end Op

/-- All that can be asked of a layered cache. -/
inductive Step where
  | op (op : Op)
  | find (name : String)
  | check (name : String)
  deriving DecidableEq, Repr

namespace Step

variable (slot : Slot) (finds : String → Except Error Named) (known : String → Bool) (rememberMisses : Bool)

/-- There is no reply where nothing is cached. -/
def run : Step → Run (Option Reply)
  | op call => return some (← call.run slot known)
  | find name => return some (.named (← Cache.find slot (fixed finds known) rememberMisses name))
  | check name => return (((← get).cache slot).check name).map .named

/-- The replies in turn. A call that fails does not end the sequence. -/
def runAll (steps : List Step) : Run (List (Except Error (Option Reply))) :=
  steps.mapM fun step => (step.run slot finds known rememberMisses).outcome

def act (arena : Arena) (layers : Layers) : Step → Except Error (Option Reply) × Layers
  | op call =>
    let out := call.act known arena layers
    (out.1.map some, out.2)
  | find name =>
    let out := layers.find known arena finds rememberMisses name
    (out.1.map fun named => some (.named named), out.2)
  | check name => (.ok ((layers.check name).map .named), layers)

variable {slot finds known rememberMisses}

theorem comesTo (step : Step) (w : World) : (step.run slot finds known rememberMisses).ComesTo slot w
    (step.act finds known rememberMisses w.arena (w.cache slot)) := by
  cases step with
  | op call => exact (call.comesTo w).map _
  | find name => exact (find_comesTo finds rememberMisses name w).map _
  | check name => exact comesTo_get (comesTo_pure _)

end Step

end Cache

end ClassUniverse
