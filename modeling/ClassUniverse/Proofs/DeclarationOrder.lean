import ClassUniverse.Proofs.OverloadSelection

/-! Overload resolution and the order of declarations. Where methods and interfaces are declared in another order, a call
meets the same methods, judges them alike and finds the same ones maximal. -/
namespace ClassUniverse

open Run

variable {l : Loader}

namespace World.Reordered

variable {w : World} (reordered : w.Reordered v)
include reordered

theorem reaches {above above' : List Ty} (perm : above'.Perm above) :
    v.Reaches above' type ↔ w.Reaches above type := by
  simp only [Reaches, perm.mem_iff, reordered.inherits]

theorem declared (name : String) (type : Ty) : (v.declared name type).Perm (w.declared name type) := by
  cases type with
  | cls id => exact (reordered.methods id).filter _
  | array base =>
    unfold World.declared World.cloneOf
    rw [reordered.root]
  | _ => exact .refl _

theorem unmet : v.unmet [] = w.unmet [] := by
  have each (ids : List ClassId) : Worklist.unseen Ty.cls (fun id => (v.arena.get id).supertypes) [] ids =
      Worklist.unseen Ty.cls (fun id => (w.arena.get id).supertypes) [] ids := by
    induction ids with
    | nil => rfl
    | cons id rest ih => rw [Worklist.unseen_cons, Worklist.unseen_cons, ih, (reordered.supertypes id).length_eq]
  unfold World.unmet
  rw [each, Arena.ids, Arena.ids, reordered.size]

theorem hides {methods others : List Method} (perm : others.Perm methods) : v.Hides others m ↔ w.Hides methods m := by
  simp only [Hides, perm.mem_iff, Overrides, Ascends, reordered.superType]

theorem specific : v.Specific p q ↔ w.Specific p q := by
  have converts : v.Converts = w.Converts := by
    funext a b
    exact propext reordered.converts
  simp only [Specific, Related, reordered.under, Arena.isEnclosed_of_headers reordered.header, converts]

theorem unbeaten (perm : others.Perm candidates) (p : α) :
    v.Unbeaten view others p ↔ w.Unbeaten view candidates p := by
  simp only [Unbeaten, Outdoes, reordered.specific, perm.mem_iff]

theorem knows : v.Knows p ↔ w.Knows p := by
  simp only [Knows, reordered.knownIn]

theorem refusal (container : Ty) (args : List Ty) : Loader.refusal v container args = Loader.refusal w container args := by
  unfold Loader.refusal
  rw [Arena.typeName_of_headers reordered.header]

end World.Reordered

/-- Two outcomes of a selection that differ in nothing but what the order of the candidates decides: in which order an
ambiguity names them, and which of the maximal ones is given if all of these are abstract with the same formal types. -/
inductive SameSelection (kind : MemberKind) (name : String) (view : α → Procedure) (maximal : List α) :
    Except Error α → Except Error α → Prop where
  | same (outcome : Except Error α) : SameSelection kind name view maximal outcome outcome
  | listing {texts texts' : List String} (perm : texts'.Perm texts) :
      SameSelection kind name view maximal (.error (.ambiguousCall kind name texts)) (.error (.ambiguousCall kind name texts'))
  | abstract {p q : α} (listed : p ∈ maximal) (listed' : q ∈ maximal) (all : ∀ r ∈ maximal, (view r).flags.isAbstract = true)
      (alike : Loader.Alike view maximal) : SameSelection kind name view maximal (.ok p) (.ok q)

namespace Loader

variable {depth : Nat}

open Classical in
/-- Another order of the candidates leads to the same selection. -/
theorem select_reordered (initialised : w.Initialised) (reordered : w.Reordered v) (ample : w.arena.size ≤ depth)
    (perm : others.Perm candidates) (known : ∀ p ∈ candidates, w.Knows (view p))
    (kind : MemberKind) (name : String) :
    ∃ maximal outcome outcome', ((ofDepth (depth + 1)).maximal view candidates).on w = some (.ok maximal, w) ∧
      ((ofDepth (depth + 1)).select kind view name candidates).on w = some (outcome, w) ∧
      ((ofDepth (depth + 1)).select kind view name others).on v = some (outcome', v) ∧
      SameSelection kind name view maximal outcome outcome' := by
  have ample' : v.arena.size ≤ depth := by rwa [reordered.size]
  have known' : ∀ p ∈ others, v.Knows (view p) :=
    fun p listed => reordered.knows.mpr (known p (perm.mem_iff.mp listed))
  have found := on_maximal initialised.grounded ample known
  have found' := on_maximal (reordered.initialised initialised).grounded ample' known'
  simp only [reordered.unbeaten perm] at found'
  have maximals : (others.filter fun p => decide (w.Unbeaten view candidates p)).Perm
      (candidates.filter fun p => decide (w.Unbeaten view candidates p)) := perm.filter _
  obtain ⟨one, -⟩ := on_select kind name found
  obtain ⟨one', none', many'⟩ := on_select kind name found'
  rcases preferred_perm maximals.symm with
    ⟨p, chosen, chosen'⟩ | ⟨all, all'⟩ | ⟨p, listed, q, listed', chosen, chosen', abstract, alike⟩
  · exact ⟨_, _, _, found, one p chosen, one' p chosen', .same _⟩
  · rcases select_cases kind name found with ⟨p, -, chosen, ran⟩ | ⟨empty, ran⟩ | ⟨enough, ran⟩
    · rw [all.symm.trans chosen] at maximals
      exact ⟨_, _, _, found, ran, one' p (all'.trans (List.perm_singleton.mp maximals)), .same _⟩
    · rw [empty] at maximals
      exact ⟨_, _, _, found, ran, none' (all'.trans (List.perm_nil.mp maximals)), .same _⟩
    · rw [all'] at many'
      refine ⟨_, _, _, found, ran, many' (maximals.length_eq ▸ enough), .listing ?_⟩
      rw [Arena.typeName_of_headers reordered.header, Arena.signature_of_headers reordered.header]
      exact maximals.map _
  · exact ⟨_, _, _, found, one p chosen, one' q chosen', .abstract listed listed' abstract alike⟩

/-- A candidate of a container that is not canonical is given if it is the only one. It is not compared with another. -/
theorem select_refused (refused : (view first).container.isCanonical = false)
    (canonical : ∀ p ∈ rest, (view p).container.isCanonical = true) (kind : MemberKind) (name : String) :
    (l.select kind view name (first :: rest)).on w =
      some (if rest.isEmpty then .ok first else .error (.notCanonical (w.arena.typeName (view first).container)), w) := by
  cases rest with
  | nil =>
    have chosen : preferred view [first] = [first] := by
      cases abstract : (view first).flags.isAbstract <;> simp [preferred, abstract]
    exact (on_select kind name rfl).1 first chosen
  | cons second rest =>
    have subtype : (l.isSubtype (view second).container (view first).container).on w =
        some (.error (.notCanonical (w.arena.typeName (view first).container)), w) :=
      (on_bind_ok (on_requireCanonical (canonical second List.mem_cons_self))).trans (on_bind_error (on_refused refused w))
    have compared : (l.strictlyMoreSpecific (view second) (view first)).on w =
        some (.error (.notCanonical (w.arena.typeName (view first).container)), w) :=
      on_bind_error (on_bind_error (on_bind_error subtype))
    have outdone : (anyOf (fun other => if 0 = other.2 then return false else l.strictlyMoreSpecific (view other.1) (view first))
        ((first, 0) :: (second, 1) :: rest.zipIdx 2)).on w =
          some (.error (.notCanonical (w.arena.typeName (view first).container)), w) :=
      (on_bind_ok (w := w) (a := false) rfl).trans (on_bind_error compared)
    exact on_bind_error (on_bind_error (on_bind_error (on_bind_error outdone)))

open Classical in
theorem acceptable_reordered (reordered : w.Reordered v) {methods others : List Method} (perm : others.Perm methods)
    (same : ∀ m ∈ methods, l.judgement container args accessor v m = l.judgement container args accessor w m) :
    (l.acceptable container args accessor v others).Perm (l.acceptable container args accessor w methods) := by
  have given (accessible : Bool) (m : Method) (listed : m ∈ methods) :
      Candidates.given (l.judgement container args accessor v) accessible m =
        Candidates.given (l.judgement container args accessor w) accessible m := by
    unfold Candidates.given
    rw [same m listed]
  have inaccessible : (others.filter (Candidates.given (l.judgement container args accessor v) false)).Perm
      (methods.filter (Candidates.given (l.judgement container args accessor w) false)) := by
    rw [← List.filter_congr (given false)]
    exact perm.filter _
  have kept (m : Method) (listed : m ∈ methods) :
      (!decide (v.Hides (others.filter (Candidates.given (l.judgement container args accessor v) false)) m) &&
        Candidates.given (l.judgement container args accessor v) true m) =
      (!decide (w.Hides (methods.filter (Candidates.given (l.judgement container args accessor w) false)) m) &&
        Candidates.given (l.judgement container args accessor w) true m) := by
    simp only [reordered.hides inaccessible, given true m listed]
  unfold acceptable
  rw [← List.filter_congr kept]
  exact perm.filter _

end Loader

namespace World.Search

open Loader

variable {w v : World} {depth : Nat}
  {above : List Ty} (search : w.Search depth container args accessor above after)
include search

theorem reordered (reordered : w.Reordered v) (kept : after.Reordered after')
    (looked : ((ofDepth (depth + 1)).directSupertypes container).on v = some (.ok above', after'))
    (perm : above'.Perm above) : v.Search depth container args accessor above' after' where
  start := reordered.initialised search.start
  initialised := kept.initialised search.initialised
  looked := looked
  classes := by
    rw [kept.size]
    exact fun type listed => search.classes type (perm.mem_iff.mp listed)
  reference := search.reference
  place := reordered.size.symm ▸ search.place
  inside := reordered.size.symm ▸ search.inside
  from_ := reordered.size.symm ▸ search.from_
  ample := by
    rw [kept.unmet, kept.size, reordered.config]
    exact search.ample

/-- Only the `clone` of an array that is not canonical is unknown, and it is the first to be found. -/
theorem unknown (members : ∀ type, type ∈ walk ↔ after.Reaches above type)
    (unknown : ¬ after.Knows m.toProcedure)
    (listed : m ∈ (ofDepth (depth + 1)).acceptable container args accessor after
      ((container :: walk).flatMap (after.declared name))) :
    ∃ base rest, container = .array base ∧ container.isCanonical = false ∧ (∀ m ∈ rest, m.container.isCanonical = true) ∧
      (ofDepth (depth + 1)).acceptable container args accessor after ((container :: walk).flatMap (after.declared name)) =
        after.cloneOf base :: rest := by
  obtain ⟨met, kept⟩ := List.mem_filter.mp listed
  obtain ⟨type, among, declared⟩ := List.mem_flatMap.mp met
  have far : ¬ after.Reaches above type := fun reached => unknown (search.knows (.inr reached) declared)
  obtain rfl : type = container := (List.mem_cons.mp among).resolve_right fun walked => far ((members type).mp walked)
  have refused : type.isCanonical = false := by
    rw [← Bool.not_eq_true]
    exact fun canonical => unknown (search.knows (.inl ⟨rfl, canonical⟩) declared)
  cases type with
  | array base =>
    obtain ⟨rfl, rfl⟩ := mem_declared_array.mp declared
    have first : (Ty.array base :: walk).flatMap (after.declared "clone") =
        after.cloneOf base :: walk.flatMap (after.declared "clone") := by simp [World.declared]
    unfold acceptable
    refine ⟨base, (walk.flatMap (after.declared "clone")).filter _, rfl, refused, fun m later => ?_,
      (congrArg (List.filter _) first).trans (List.filter_cons_of_pos kept)⟩
    obtain ⟨type, walked, declared⟩ := List.mem_flatMap.mp (List.mem_filter.mp later).1
    exact (search.knows (.inr ((members type).mp walked)) declared).1.canonical
  | cls id => cases refused
  | _ => cases declared

section Reordered

variable (search' : v.Search depth container args accessor above' after') (kept : after.Reordered after')
  (perm : above'.Perm above)
include search' kept perm

theorem meetsSame (name : String) : let l := ofDepth (depth + 1)
    (∃ e, (l.acceptableMethods container name args accessor).on w = some (.error e, after) ∧
      (l.acceptableMethods container name args accessor).on v = some (.error e, after')) ∨
    ∃ walk walk', (∀ type, type ∈ walk ↔ after.Reaches above type) ∧ (∀ type, type ∈ walk' ↔ after'.Reaches above' type) ∧
      let acceptable := l.acceptable container args accessor after ((container :: walk).flatMap (after.declared name))
      let acceptable' := l.acceptable container args accessor after' ((container :: walk').flatMap (after'.declared name))
      acceptable'.Perm acceptable ∧ (l.acceptableMethods container name args accessor).on w = some (.ok acceptable, after) ∧
        (l.acceptableMethods container name args accessor).on v = some (.ok acceptable', after') := by
  intro l
  obtain ⟨walk, nodup, members, outcome⟩ := search.accepts name
  obtain ⟨walk', nodup', members', outcome'⟩ := search'.accepts name
  have types : (container :: walk').Perm (container :: walk) := by
    rw [List.perm_ext_iff_of_nodup nodup' nodup]
    intro type
    rw [List.mem_cons, List.mem_cons, members, members', kept.reaches perm]
  have met : ((container :: walk').flatMap (after'.declared name)).Perm ((container :: walk).flatMap (after.declared name)) :=
    (types.flatMap_right _).trans (List.Perm.flatMap_left _ fun type _ => kept.declared name type)
  have same (m : Method) (listed : m ∈ (container :: walk).flatMap (after.declared name)) :
      l.judgement container args accessor after' m = l.judgement container args accessor after m := by
    obtain ⟨type, -, declared⟩ := List.mem_flatMap.mp listed
    exact (judgement_of_concur (search.concur kept declared)).2.1
  rcases outcome with ⟨answered, ran⟩ | ⟨⟨m, listed, e, failed⟩, ran⟩
  · rcases outcome' with ⟨-, ran'⟩ | ⟨⟨m, listed, e, failed⟩, -⟩
    · exact .inr ⟨walk, walk', members, members', acceptable_reordered kept met same, ran, ran'⟩
    · rw [same m (met.mem_iff.mp listed)] at failed
      obtain ⟨judgement, answered⟩ := answered m (met.mem_iff.mp listed)
      cases answered.symm.trans failed
  · rcases outcome' with ⟨answered, -⟩ | ⟨-, ran'⟩
    · obtain ⟨judgement, answered⟩ := answered m (met.mem_iff.mpr listed)
      rw [same m listed] at answered
      cases answered.symm.trans failed
    · exact .inl ⟨_, ran, kept.refusal container args ▸ ran'⟩

theorem sameSelection (name : String) : let l := ofDepth (depth + 1)
    ∃ outcome outcome', (l.findMethod container name args accessor).on w = some (outcome, after) ∧
      (l.findMethod container name args accessor).on v = some (outcome', after') ∧
      (outcome' = outcome ∨ ∃ acceptable maximal,
        (l.acceptableMethods container name args accessor).on w = some (.ok acceptable, after) ∧
        (l.maximal Method.toProcedure acceptable).on after = some (.ok maximal, after) ∧
        SameSelection .method name Method.toProcedure maximal outcome outcome') := by
  intro l
  rcases search.meetsSame search' kept perm name with ⟨e, failed, failed'⟩ | ⟨walk, walk', members, members', left, ran, ran'⟩
  · exact ⟨_, _, on_bind_error failed, on_bind_error failed', .inl rfl⟩
  have found := on_findMethod ran
  have found' := on_findMethod ran'
  by_cases empty : l.acceptable container args accessor after ((container :: walk).flatMap (after.declared name)) = []
  · rw [empty, List.perm_nil] at left
    rw [if_pos empty] at found
    rw [if_pos left] at found'
    refine ⟨_, _, found, found', .inl ?_⟩
    simp only [Arena.typeNames, Arena.typeName_of_headers kept.header]
  · have empty' : l.acceptable container args accessor after' ((container :: walk').flatMap (after'.declared name)) ≠ [] := by
      rintro none
      rw [none, List.nil_perm] at left
      exact empty left
    rw [if_neg empty] at found
    rw [if_neg empty'] at found'
    by_cases known : ∀ m ∈ l.acceptable container args accessor after ((container :: walk).flatMap (after.declared name)),
        after.Knows m.toProcedure
    · obtain ⟨maximal, outcome, outcome', beats, selected, selected', same⟩ :=
        select_reordered search.initialised kept search.fits left known .method name
      exact ⟨outcome, outcome', found.trans selected, found'.trans selected', .inr ⟨_, maximal, ran, beats, same⟩⟩
    · obtain ⟨m, listed, unknown⟩ : ∃ m ∈ l.acceptable container args accessor after
          ((container :: walk).flatMap (after.declared name)), ¬ after.Knows m.toProcedure := by
        simpa using known
      have sameClone (base : Ty) : after'.cloneOf base = after.cloneOf base := by
        unfold World.cloneOf
        rw [kept.root]
      obtain ⟨base, rest, rfl, refused, canonical, first⟩ := search.unknown members unknown listed
      obtain ⟨_, rest', same, -, canonical', first'⟩ :=
        search'.unknown members' (fun known => unknown (kept.knows.mp known)) (left.mem_iff.mpr listed)
      cases same
      rw [first, first', sameClone, List.perm_cons] at left
      rw [first, select_refused refused canonical] at found
      rw [first', sameClone, select_refused refused canonical', Arena.typeName_of_headers kept.header, left.isEmpty_eq] at found'
      exact ⟨_, _, found, found', .inl rfl⟩

end Reordered

end World.Search

namespace Loader

theorem findMethod_nonReference (plain : container.isReference = false) (deep : 0 < l.depth) :
    (l.findMethod container name args accessor).on w =
      some (.error (.semantic (.callOnNonReference (w.arena.typeName container)) none), w) := by
  obtain ⟨steps, same⟩ : ∃ steps, l.depth = steps + 1 := ⟨l.depth - 1, by omega⟩
  have refused : (l.candidatesWithin container name args accessor l.depth [] {} [container]).on w =
      some (.error (.semantic (.callOnNonReference (w.arena.typeName container)) none), w) := by
    rw [same]
    unfold candidatesWithin
    rw [if_neg (by simp), plain]
    rfl
  exact on_bind_error (on_bind_error refused)

end Loader

namespace World

/-- What is looked up before a search, in a world and in another one. Only for arrays are names looked up: those of the root
class and of the interfaces of arrays, which stand for the same classes in both. -/
inductive LookedUp (w v : World) (depth : Nat) : (container : Ty) → (after after' : World) → Prop where
  | nothing {container : Ty} (other : ∀ base, container ≠ .array base) : LookedUp w v depth container w v
  | array {base : Ty} {found : Except Error (List Ty)} {after after' : World}
      (looked : ((Loader.ofDepth (depth + 1)).directSupertypes (.array base)).on w = some (found, after))
      (looked' : ((Loader.ofDepth (depth + 1)).directSupertypes (.array base)).on v = some (found, after'))
      (classes : ∀ above, found = .ok above → ∀ type ∈ above, ∃ id : ClassId, type = .cls id ∧ id.index < after.arena.size) :
      LookedUp w v depth (.array base) after after'

end World

/-- Overload resolution does not depend on the order in which methods and interfaces are declared, except for the order in
which an ambiguous call names its candidates, and for which of several abstract candidates with the same formal types is
given. -/
theorem findMethod_reordered {w v after after' : World} {depth : Nat} {container : Ty} {args : List Ty}
    {accessor : Option ClassId} (start : w.Initialised) (reordered : w.Reordered v)
    (lookedUp : w.LookedUp v depth container after after') (initialised : after.Initialised) (kept : after.Reordered after')
    (place : container.Inside w.arena.size) (inside : ∀ arg ∈ args, arg.Inside w.arena.size)
    (from_ : ∀ id ∈ accessor, id.index < w.arena.size)
    (ample : 2 * after.unmet [] + w.config.arrayInterfaces.length + after.arena.size + 2 < depth) (name : String) :
    let l := Loader.ofDepth (depth + 1)
    ∃ outcome outcome', (l.findMethod container name args accessor).on w = some (outcome, after) ∧
      (l.findMethod container name args accessor).on v = some (outcome', after') ∧
      (outcome' = outcome ∨ ∃ acceptable maximal,
        (l.acceptableMethods container name args accessor).on w = some (.ok acceptable, after) ∧
        (l.maximal Method.toProcedure acceptable).on after = some (.ok maximal, after) ∧
        SameSelection .method name Method.toProcedure maximal outcome outcome') := by
  intro l
  have deep : 0 < depth := by omega
  have searched {above above' : List Ty} (reference : container.isReference = true)
      (looked : (l.directSupertypes container).on w = some (.ok above, after))
      (looked' : (l.directSupertypes container).on v = some (.ok above', after'))
      (classes : ∀ type ∈ above, ∃ id : ClassId, type = .cls id ∧ id.index < after.arena.size) (perm : above'.Perm above) :=
    have search : w.Search depth container args accessor above after :=
      ⟨start, initialised, looked, classes, reference, place, inside, from_, ample⟩
    search.sameSelection (search.reordered reordered kept looked' perm) kept perm name
  cases lookedUp with
  | nothing other =>
    cases reference : container.isReference with
    | false =>
      refine ⟨_, _, Loader.findMethod_nonReference reference deep, Loader.findMethod_nonReference reference deep, .inl ?_⟩
      rw [Arena.typeName_of_headers reordered.header]
    | true =>
      cases container with
      | null => exact searched reference rfl rfl nofun (.refl [])
      | cls id =>
        refine searched reference (Loader.on_supertypes start place)
          (Loader.on_supertypes (reordered.initialised start) ?_) (start.supertypes id) (reordered.supertypes id)
        rw [reordered.size]
        exact place
      | array base => exact (other base rfl).elim
      | _ => cases reference
  | @array base found _ _ looked looked' classes =>
    cases found with
    | error e =>
      obtain ⟨steps, rfl⟩ : ∃ steps, depth = steps + 1 := ⟨depth - 1, by omega⟩
      exact ⟨_, _, Loader.findMethod_failed looked, Loader.findMethod_failed looked', .inl rfl⟩
    | ok above => exact searched rfl looked looked' (classes above rfl) (.refl above)

/-- A class inherits the same abstract method from two interfaces, and overloads it. In another order of the interfaces the
other method is given, which for arrays makes no difference. -/
theorem findMethod_reordered_interfaces :
    let stages := Stage.all.foldl Stages.add .none
    let method (id : Nat) (formals : List Ty) : Method :=
      { container := .cls ⟨id⟩, flags := .ofList [.publicAccess, .abstract], name := "m", formals, returns := .void }
    let interface (name : String) (id : Nat) : ClassRecord :=
      { name, flags := .ofList [.interface, .abstract], methods := [method id []], stages }
    let world (interfaces : List Ty) (methods : List Method) : World :=
      { World.ofUniverse { arrayInterfaces := ["I", "J"] } {} with
        root := some ⟨0⟩
        arena := ⟨#[
          { name := "Object", package := some ⟨"java.lang"⟩, stages }, interface "I" 1, interface "J" 2,
          { name := "C", superType := some (.cls ⟨0⟩), flags := .ofList [.abstract], interfaces, methods, stages }]⟩
        caches := Assoc.empty.insert .session ((({} : Layers).insert "I" (.cls ⟨1⟩)).insert "J" (.cls ⟨2⟩)) }
    let w := world [.cls ⟨1⟩, .cls ⟨2⟩] [method 3 [.cls ⟨0⟩], method 3 [.int]]
    let v := world [.cls ⟨2⟩, .cls ⟨1⟩] [method 3 [.int], method 3 [.cls ⟨0⟩]]
    let l := Loader.ofDepth 17
    (w.Initialised ∧ w.Reordered v ∧ w.LookedUp v 16 (.cls ⟨3⟩) w v ∧ w.LookedUp v 16 (.array .int) w v) ∧
    (l.findMethod (.cls ⟨3⟩) "m" [] none).on w = some (.ok (method 1 []), w) ∧
    (l.findMethod (.cls ⟨3⟩) "m" [] none).on v = some (.ok (method 2 []), v) ∧
    (∃ acceptable maximal, (l.acceptableMethods (.cls ⟨3⟩) "m" [] none).on w = some (.ok acceptable, w) ∧
      (l.maximal Method.toProcedure acceptable).on w = some (.ok maximal, w) ∧
      SameSelection .method "m" Method.toProcedure maximal (.ok (method 1 [])) (.ok (method 2 []))) ∧
    ∃ outcome outcome', (l.findMethod (.array .int) "m" [] none).on w = some (outcome, w) ∧
      (l.findMethod (.array .int) "m" [] none).on v = some (outcome', v) ∧
      (outcome' = outcome ∨ ∃ acceptable maximal,
        (l.acceptableMethods (.array .int) "m" [] none).on w = some (.ok acceptable, w) ∧
        (l.maximal Method.toProcedure acceptable).on w = some (.ok maximal, w) ∧
        SameSelection .method "m" Method.toProcedure maximal outcome outcome') := by
  intro stages method interface world w v l
  have initialised : w.Initialised := World.Arranged.initialised (by decide)
  have reordered : w.Reordered v := by
    refine ⟨rfl, rfl, rfl, fun id => ?_⟩
    rcases id with ⟨_ | _ | _ | _ | index⟩
    case succ.succ.succ.succ => exact ⟨_, _, rfl, .refl _, .refl _⟩
    all_goals exact ⟨_, _, rfl, by decide, by decide⟩
  have forClass : w.LookedUp v 16 (.cls ⟨3⟩) w v := .nothing (by simp)
  have looked : (l.directSupertypes (.array .int)).on w = some (.ok [.cls ⟨0⟩, .cls ⟨1⟩, .cls ⟨2⟩], w) := rfl
  have forArray : w.LookedUp v 16 (.array .int) w v := .array looked rfl (by rintro _ ⟨⟩; simp [w, world, Arena.size])
  have applied {container : Ty} (lookedUp : w.LookedUp v 16 container w v) (place : container.Inside w.arena.size) :=
    @findMethod_reordered w v w v 16 container [] none initialised reordered lookedUp initialised reordered place (by simp) (by simp)
      (by decide) "m"
  have called : (l.findMethod (.cls ⟨3⟩) "m" [] none).on w = some (.ok (method 1 []), w) := rfl
  have called' : (l.findMethod (.cls ⟨3⟩) "m" [] none).on v = some (.ok (method 2 []), v) := rfl
  refine ⟨⟨initialised, reordered, forClass, forArray⟩, called, called', ?_, applied forArray trivial⟩
  obtain ⟨outcome, outcome', ran, ran', same | selection⟩ := applied forClass (show 3 < 4 by decide)
  · cases called.symm.trans ran
    cases called'.symm.trans ran'
    cases same
  · cases called.symm.trans ran
    cases called'.symm.trans ran'
    exact selection

end ClassUniverse
