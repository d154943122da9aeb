import ClassUniverse.Proofs.MostSpecific
import ClassUniverse.Proofs.Overriding

/-! Overload selection. A call finds the methods that apply and are accessible, among all that the container and its
supertypes declare, and selects one that none of them outdoes. -/
namespace ClassUniverse

open Run

namespace World

variable {w : World} {args : List Ty} {accessor : Option ClassId} {type : Ty} {m : Method} {depth : Nat}

/-- A search for a method in a hierarchy that is initialised, before and after the supertypes of the container were
looked up. Only for an array is anything looked up: the root class and the interfaces of arrays. -/
structure Search (w : World) (depth : Nat) (container : Ty) (args : List Ty) (accessor : Option ClassId) (above : List Ty)
    (after : World) : Prop where
  start : w.Initialised
  initialised : after.Initialised
  looked : ((Loader.ofDepth (depth + 1)).directSupertypes container).on w = some (.ok above, after)
  classes : ∀ type ∈ above, ∃ id : ClassId, type = .cls id ∧ id.index < after.arena.size
  reference : container.isReference = true
  place : container.Inside w.arena.size
  inside : ∀ arg ∈ args, arg.Inside w.arena.size
  from_ : ∀ id ∈ accessor, id.index < w.arena.size
  ample : 2 * after.unmet [] + w.config.arrayInterfaces.length + after.arena.size + 2 < depth

theorem Search.ofClass {id : ClassId} (initialised : w.Initialised) (place : id.index < w.arena.size)
    (inside : ∀ arg ∈ args, arg.Inside w.arena.size) (from_ : ∀ id ∈ accessor, id.index < w.arena.size)
    (ample : 2 * w.unmet [] + w.config.arrayInterfaces.length + w.arena.size + 2 < depth) :
    w.Search depth (.cls id) args accessor (w.arena.get id).supertypes w :=
  ⟨initialised, initialised, Loader.on_supertypes initialised place, initialised.supertypes id, rfl, place, inside, from_, ample⟩

theorem declared_spec (initialised : w.Initialised) (listed : m ∈ w.declared name type) :
    m.container = type ∧ (∀ formal ∈ m.formals, formal.KnownIn w.arena) ∧ w.Lists m := by
  cases type with
  | cls id =>
    obtain ⟨member, -⟩ := List.mem_filter.mp listed
    obtain ⟨container, formals⟩ := initialised.methods id m member
    refine ⟨container, formals, fun other same => ?_⟩
    cases container.symm.trans same
    exact member
  | array base =>
    obtain ⟨-, rfl⟩ := mem_declared_array.mp listed
    exact ⟨rfl, nofun, nofun⟩
  | _ => cases listed

end World

namespace Loader

/-- The verdict that a method gets in a world. -/
def judgement (l : Loader) (container : Ty) (args : List Ty) (accessor : Option ClassId) (w : World) (m : Method) :
    Except Error (Option Bool) :=
  match (l.verdict container args accessor m).on w with
  | some (result, _) => result
  | none => .ok none

theorem judgement_of_concur {l : Loader}
    (concur : Concur w v bad (l.verdict container args accessor m) (l.verdict container args accessor m)) :
    (l.verdict container args accessor m).on w = some (l.judgement container args accessor w m, w) ∧
      l.judgement container args accessor v m = l.judgement container args accessor w m ∧
      ∀ e, l.judgement container args accessor w m = .error e → bad e := by
  obtain ⟨result, ran, ran', fails⟩ := concur
  simp only [judgement, ran, ran']
  exact ⟨trivial, trivial, fails⟩

theorem on_findMethod {l : Loader} {after : World}
    (ran : (l.acceptableMethods container name args accessor).on w = some (.ok acceptable, after)) :
    (l.findMethod container name args accessor).on w = if acceptable = [] then some (.error
        (.noApplicableMember .method name (after.arena.typeNames args) (after.arena.typeName container)), after)
      else (l.select .method Method.toProcedure name acceptable).on after := by
  cases acceptable <;> exact on_bind_ok ran

open Classical in
/-- The methods that are left for the selection. -/
noncomputable def acceptable (l : Loader) (container : Ty) (args : List Ty) (accessor : Option ClassId) (w : World)
    (methods : List Method) : List Method :=
  let judged := l.judgement container args accessor w
  methods.filter fun m => !decide (w.Hides (methods.filter (Candidates.given judged false)) m) &&
    Candidates.given judged true m

end Loader

namespace World.Search

open Loader

variable {w after : World} {depth : Nat} {container : Ty} {name : String} {args : List Ty} {accessor : Option ClassId}
  {above : List Ty} (search : w.Search depth container args accessor above after)
include search

theorem grown : w.arena.size ≤ after.arena.size :=
  ((directSupertypes_within (Settles.loadRelation.ofDepth (depth + 1)) container).left search.looked).headers.size

theorem fits : after.arena.size ≤ depth := by
  have ample := search.ample
  omega

/-- Verdicts on the methods that are met do not depend on orders, and fail in one way only. -/
theorem concur (reordered : after.Reordered v) (listed : m ∈ after.declared name type) :
    Concur after v (· = refusal after container args) ((ofDepth (depth + 1)).verdict container args accessor m)
      ((ofDepth (depth + 1)).verdict container args accessor m) := by
  obtain ⟨-, formals, -⟩ := declared_spec search.initialised listed
  refine concur_verdict search.initialised reordered search.fits (search.place.mono search.grown) ?_ ?_ ?_
  · exact fun arg member => (search.inside arg member).mono search.grown
  · exact fun id member => Nat.lt_of_lt_of_le (search.from_ id member) search.grown
  · exact fun formal member => (formals formal member).canonical

/-- The types that a search meets, and what it comes to when all verdicts are known. -/
theorem gathers (name : String) : ∃ walk, (container :: walk).Nodup ∧ (∀ type, type ∈ walk ↔ after.Reaches above type) ∧
    ((ofDepth (depth + 1)).candidatesWithin container name args accessor depth [] {} [container]).on w =
      some (Candidates.gather ((ofDepth (depth + 1)).judgement container args accessor after) {}
        ((container :: walk).flatMap (after.declared name)), after) := by
  have ample := search.ample
  refine candidates_walk search.start search.place search.looked search.initialised search.reference search.classes ?_ (by omega)
  exact fun type _ m listed => (judgement_of_concur (search.concur (.refl after) listed)).1

theorem placed (met : type = container ∨ after.Reaches above type) (listed : m ∈ after.declared name type)
    (inaccessible : Candidates.given ((ofDepth (depth + 1)).judgement container args accessor after) false m = true) :
    ∃ id : ClassId, m.container = .cls id ∧ id.index < after.arena.size := by
  obtain ⟨declaredIn, -⟩ := declared_spec search.initialised listed
  rw [declaredIn]
  cases type with
  | cls id =>
    refine ⟨id, rfl, ?_⟩
    rcases met with rfl | reached
    · exact Nat.lt_of_lt_of_le search.place search.grown
    · exact reached_inside search.initialised.supertypes search.classes reached
  | array base =>
    obtain ⟨-, rfl⟩ := mem_declared_array.mp listed
    unfold Candidates.given judgement at inaccessible
    rw [on_verdict_clone] at inaccessible
    split at inaccessible <;> simp_all
  | _ => cases listed

/-- Unless a verdict fails, what is left are the accessible methods that no inaccessible one overrides. -/
theorem accepts (name : String) : ∃ walk, (container :: walk).Nodup ∧ (∀ type, type ∈ walk ↔ after.Reaches above type) ∧
    let l := ofDepth (depth + 1)
    let met := (container :: walk).flatMap (after.declared name)
    ((∀ m ∈ met, ∃ judgement, l.judgement container args accessor after m = .ok judgement) ∧
      (l.acceptableMethods container name args accessor).on w =
        some (.ok (l.acceptable container args accessor after met), after) ∨
    (∃ m ∈ met, ∃ e, l.judgement container args accessor after m = .error e) ∧
      (l.acceptableMethods container name args accessor).on w = some (.error (refusal after container args), after)) := by
  obtain ⟨walk, nodup, members, ran⟩ := search.gathers name
  refine ⟨walk, nodup, members, ?_⟩
  by_cases fails : ∃ m ∈ (container :: walk).flatMap (after.declared name), ∃ e,
      (ofDepth (depth + 1)).judgement container args accessor after m = .error e
  · refine .inr ⟨fails, ?_⟩
    obtain ⟨m, listed, e, failed⟩ := fails
    have only : ∀ m ∈ (container :: walk).flatMap (after.declared name), ∀ e,
        (ofDepth (depth + 1)).judgement container args accessor after m = .error e → e = refusal after container args := by
      intro m listed
      obtain ⟨type, -, declared⟩ := List.mem_flatMap.mp listed
      exact (judgement_of_concur (search.concur (.refl after) declared)).2.2
    have first := only m listed e failed
    subst first
    rw [Candidates.gather_error {} ⟨m, listed, failed⟩ only] at ran
    exact on_bind_error ran
  · have answered (m : Method) (listed : m ∈ (container :: walk).flatMap (after.declared name)) :
        ∃ judgement, (ofDepth (depth + 1)).judgement container args accessor after m = .ok judgement := by
      cases judges : (ofDepth (depth + 1)).judgement container args accessor after m with
      | ok judgement => exact ⟨judgement, rfl⟩
      | error e => exact (fails ⟨m, listed, e, judges⟩).elim
    refine .inl ⟨answered, ?_⟩
    rw [Candidates.gather_ok {} answered] at ran
    have enough : after.arena.size < depth := by
      have ample := search.ample
      omega
    refine (on_bind_ok ran).trans ((on_hideOverridden search.initialised enough ?_ ?_).trans ?_)
    · intro m inaccessible
      obtain ⟨listed, judged⟩ := List.mem_filter.mp inaccessible
      obtain ⟨type, met, declared⟩ := List.mem_flatMap.mp listed
      exact search.placed ((List.mem_cons.mp met).imp_right (members type).mp) declared judged
    · intro m accessible
      obtain ⟨type, -, declared⟩ := List.mem_flatMap.mp (List.mem_filter.mp accessible).1
      exact (declared_spec search.initialised declared).2.2
    · exact congrArg (fun left => some (Except.ok left, after)) List.filter_filter

section Listed

variable (canonical : container.isCanonical = true) (plain : ∀ arg ∈ args, arg.isCanonical = true)
  (listed : m ∈ after.declared name type)
include canonical plain listed

/-- With canonical arguments and a canonical container no verdict fails. -/
theorem judges : ∃ valid, ((ofDepth (depth + 1)).callValid m.toProcedure args).on after = some (.ok valid, after) ∧
      ∃ answer, ((ofDepth (depth + 1)).methodAccessible container accessor m).on after = some (.ok answer, after) ∧
        (ofDepth (depth + 1)).judgement container args accessor after m = .ok (if valid then some answer else none) := by
  obtain ⟨-, formals, -⟩ := declared_spec search.initialised listed
  have known : ∀ arg ∈ args, arg.KnownIn after.arena := fun arg member =>
    Ty.knownIn_iff.mpr ⟨(search.inside arg member).mono search.grown, plain arg member⟩
  obtain ⟨valid, ran, -⟩ := callValid_decides search.initialised.grounded search.fits known fun formal member =>
    (formals formal member).canonical
  have accessible : Concur after after (fun _ => False) ((ofDepth (depth + 1)).methodAccessible container accessor m)
      ((ofDepth (depth + 1)).methodAccessible container accessor m) := by
    cases accessor with
    | none => exact concur_pure true
    | some accessor =>
      refine concur_isAccessibleIn search.initialised (.refl after) search.fits ?_ (search.place.mono search.grown) ?_
      · exact Nat.lt_of_lt_of_le (search.from_ accessor rfl) search.grown
      · simp [canonical]
  obtain ⟨result, answered, -, fails⟩ := accessible
  cases result with
  | error e => exact (fails e rfl).elim
  | ok answer =>
    refine ⟨valid, ran, answer, answered, ?_⟩
    unfold judgement verdict
    rw [on_bind_ok ran]
    cases valid with
    | false => rfl
    | true =>
      simp only [Bool.not_true, Bool.false_eq_true, if_false, if_true]
      rw [on_bind_ok answered]
      rfl

theorem given_iff (accessible : Bool) :
    Candidates.given ((ofDepth (depth + 1)).judgement container args accessor after) accessible m = true ↔
      ((ofDepth (depth + 1)).callValid m.toProcedure args).on after = some (.ok true, after) ∧
        (((ofDepth (depth + 1)).methodAccessible container accessor m).on after = some (.ok true, after) ↔
          accessible = true) := by
  obtain ⟨valid, ran, answer, answered, judged⟩ := search.judges canonical plain listed
  rw [Candidates.given, judged, ran, answered]
  cases valid <;> cases answer <;> cases accessible <;> simp

end Listed

theorem knows (met : type = container ∧ container.isCanonical = true ∨ after.Reaches above type)
    (listed : m ∈ after.declared name type) : after.Knows m.toProcedure := by
  obtain ⟨declaredIn, formals, -⟩ := declared_spec search.initialised listed
  refine ⟨?_, formals⟩
  rw [declaredIn]
  rcases met with ⟨rfl, canonical⟩ | reached
  · exact Ty.knownIn_iff.mpr ⟨search.place.mono search.grown, canonical⟩
  · obtain ⟨id, rfl⟩ := reached.isClass
    exact reached_inside search.initialised.supertypes search.classes reached

open Classical in
/-- What is left for the selection, said of the methods that are met. -/
theorem acceptable_eq (canonical : container.isCanonical = true) (plain : ∀ arg ∈ args, arg.isCanonical = true)
    (types : List Ty) (name : String) :
    let l := ofDepth (depth + 1)
    let Valid (m : Method) : Prop := (l.callValid m.toProcedure args).on after = some (.ok true, after)
    let Accessible (m : Method) : Prop := (l.methodAccessible container accessor m).on after = some (.ok true, after)
    let met := types.flatMap (after.declared name)
    l.acceptable container args accessor after met = met.filter fun m => decide (Valid m ∧ Accessible m ∧
      ∀ other ∈ met, Valid other → ¬ Accessible other → ¬ after.Overrides other m) := by
  intro l Valid Accessible met
  have given {m : Method} (listed : m ∈ met) (accessible : Bool) :
      Candidates.given (l.judgement container args accessor after) accessible m = true ↔
        Valid m ∧ (Accessible m ↔ accessible = true) := by
    obtain ⟨type, -, declared⟩ := List.mem_flatMap.mp listed
    exact search.given_iff canonical plain declared accessible
  refine List.filter_congr fun m listed => ?_
  rw [Bool.eq_iff_iff]
  simp only [Bool.and_eq_true, given listed, decide_eq_true_eq, Bool.not_eq_true', decide_eq_false_iff_not, Hides,
    List.mem_filter, iff_true]
  constructor
  · rintro ⟨spared, valid, accessible⟩
    refine ⟨valid, accessible, fun other met valid inaccessible overrides => spared ⟨other, ⟨met, ?_⟩, overrides⟩⟩
    exact (given met false).mpr ⟨valid, by simpa using inaccessible⟩
  · rintro ⟨valid, accessible, spared⟩
    refine ⟨?_, valid, accessible⟩
    rintro ⟨other, ⟨met, inaccessible⟩, overrides⟩
    obtain ⟨valid, none⟩ := (given met false).mp inaccessible
    exact spared other met valid (by simpa using none) overrides

end World.Search

open Classical in
/-- A call selects soundly and completely. Of the methods that apply and are accessible, and that no inaccessible method
which applies overrides, it gives one that none outdoes, or names several such. One that outdoes all others is given. -/
theorem findMethod_most_specific {w after : World} {root : ClassId} {depth : Nat} {container : Ty} {args : List Ty}
    {accessor : Option ClassId} {above : List Ty} (search : w.Search depth container args accessor above after)
    (layered : after.Layered root) (canonical : container.isCanonical = true)
    (plain : ∀ arg ∈ args, arg.isCanonical = true) (name : String) :
    let l := Loader.ofDepth (depth + 1)
    let Valid (m : Method) : Prop := (l.callValid m.toProcedure args).on after = some (.ok true, after)
    let Accessible (m : Method) : Prop := (l.methodAccessible container accessor m).on after = some (.ok true, after)
    let Outdoes (p q : Method) : Prop :=
      (l.strictlyMoreSpecific p.toProcedure q.toProcedure).on after = some (.ok true, after)
    ∃ walk : List Ty, walk.Nodup ∧ (∀ type, type ∈ walk ↔ type = container ∨ after.Reaches above type) ∧
      let met := walk.flatMap (after.declared name)
      let acceptable := met.filter fun m => decide (Valid m ∧ Accessible m ∧
        ∀ other ∈ met, Valid other → ¬ Accessible other → ¬ after.Overrides other m)
      ∃ outcome, (l.findMethod container name args accessor).on w = some (outcome, after) ∧
        (acceptable = [] → outcome = .error
          (.noApplicableMember .method name (after.arena.typeNames args) (after.arena.typeName container))) ∧
        (acceptable ≠ [] → (∃ m ∈ acceptable, (∀ q ∈ acceptable, ¬ Outdoes q m) ∧ outcome = .ok m) ∨
          ∃ several : List Method, several.Sublist acceptable ∧ 2 ≤ several.length ∧
            (∀ m ∈ several, ∀ q ∈ acceptable, ¬ Outdoes q m) ∧ outcome = .error (.ambiguousCall .method name
              (several.map fun m => qualify (after.arena.typeName m.container) (after.arena.signature m.toProcedure)))) ∧
        (∀ before m behind, acceptable = before ++ m :: behind → (∀ q ∈ before ++ behind, Outdoes m q) → outcome = .ok m) ∧
        ∀ position, outcome ≠ .error (.semantic (.noneNamed .method name) position) := by
  intro l Valid Accessible Outdoes
  obtain ⟨walk, nodup, members, answered⟩ := search.accepts name
  refine ⟨container :: walk, nodup, fun type => ?_, ?_⟩
  · rw [List.mem_cons, members]
  intro met acceptable
  have declared {m : Method} (listed : m ∈ met) :
      ∃ type, (type = container ∨ after.Reaches above type) ∧ m ∈ after.declared name type := by
    obtain ⟨type, listed, declared⟩ := List.mem_flatMap.mp listed
    exact ⟨type, (List.mem_cons.mp listed).imp_right (members type).mp, declared⟩
  have accepted : (l.acceptableMethods container name args accessor).on w = some (.ok acceptable, after) := by
    rcases answered with ⟨-, accepted⟩ | ⟨⟨m, listed, e, failed⟩, -⟩
    · rw [accepted, search.acceptable_eq canonical plain (container :: walk) name]
    · obtain ⟨type, -, declared⟩ := declared listed
      obtain ⟨valid, -, answer, -, judged⟩ := search.judges canonical plain declared
      cases judged.symm.trans failed
  have ran := Loader.on_findMethod accepted
  by_cases empty : acceptable = []
  · rw [if_pos empty] at ran
    refine ⟨_, ran, fun _ => rfl, fun some_ => absurd empty some_, fun before m behind split => ?_, nofun⟩
    simp [empty] at split
  · rw [if_neg empty] at ran
    have known : ∀ m ∈ acceptable, after.Knows m.toProcedure := by
      intro m kept
      obtain ⟨type, met, declared⟩ := declared (List.mem_filter.mp kept).1
      exact search.knows (met.imp_left fun here => ⟨here, canonical⟩) declared
    have outdoes {p q : Method} (left : p ∈ acceptable) (right : q ∈ acceptable) :
        Outdoes p q ↔ after.Outdoes p.toProcedure q.toProcedure :=
      (Loader.strictlyMoreSpecific_decides search.initialised.grounded search.fits (known p left) (known q right)).true_iff
    obtain ⟨outcome, selected, found, best⟩ :=
      Loader.select_unbeaten search.initialised.grounded layered search.fits known empty .method name
    refine ⟨outcome, ran.trans selected, fun none => absurd none empty, fun _ => ?_, ?_, ?_⟩
    · refine found.imp ?_ ?_
      · rintro ⟨m, listed, unbeaten, rfl⟩
        exact ⟨m, listed, fun q member beats => unbeaten q member ((outdoes member listed).mp beats), rfl⟩
      · rintro ⟨several, sublist, many, unbeaten, rfl⟩
        refine ⟨several, sublist, many, fun m listed q member beats => ?_, rfl⟩
        exact unbeaten m listed q member ((outdoes member (sublist.subset listed)).mp beats)
    · intro before m behind split beats
      refine best before m behind split fun q other => ?_
      have listed : q ∈ acceptable := by
        rw [split]
        rcases List.mem_append.mp other with earlier | later
        · exact List.mem_append_left _ earlier
        · exact List.mem_append_right _ (List.mem_cons_of_mem m later)
      have here : m ∈ acceptable := by simp [split]
      exact (outdoes here listed).mp (beats q other)
    · rintro position rfl
      rcases found with ⟨m, -, -, other⟩ | ⟨several, -, -, -, other⟩ <;> cases other

open Classical in
/-- A private method hides the public one that it overrides. Of the others the more specific one is called. -/
theorem findMethod_most_specific_hidden :
    let stages := Stage.all.foldl Stages.add .none
    let method (id : Nat) (access : Flag) (formal : Nat) : Method :=
      { container := .cls ⟨id⟩, flags := .ofList [access], name := "m", formals := [.cls ⟨formal⟩], returns := .void }
    let w : World := { World.ofUniverse {} {} with
      root := some ⟨0⟩
      arena := ⟨#[
        { name := "Object", package := some ⟨"java.lang"⟩, stages },
        { name := "A", superType := some (.cls ⟨0⟩), methods := [method 1 .publicAccess 0, method 1 .publicAccess 2], stages },
        { name := "B", superType := some (.cls ⟨1⟩), methods := [method 2 .privateAccess 2, method 2 .publicAccess 1], stages },
        { name := "C", superType := some (.cls ⟨0⟩), stages }]⟩ }
    let l := Loader.ofDepth 17
    let Valid (m : Method) : Prop := (l.callValid m.toProcedure [.cls ⟨2⟩]).on w = some (.ok true, w)
    let Accessible (m : Method) : Prop := (l.methodAccessible (.cls ⟨2⟩) (some ⟨3⟩) m).on w = some (.ok true, w)
    let Outdoes (p q : Method) : Prop := (l.strictlyMoreSpecific p.toProcedure q.toProcedure).on w = some (.ok true, w)
    (w.Search 16 (.cls ⟨2⟩) [.cls ⟨2⟩] (some ⟨3⟩) [.cls ⟨1⟩] w ∧ w.Layered ⟨0⟩) ∧
    (l.findMethod (.cls ⟨2⟩) "m" [.cls ⟨2⟩] (some ⟨3⟩)).on w = some (.ok (method 2 .publicAccess 1), w) ∧
    ∃ walk : List Ty, (∀ type, type ∈ walk ↔ type = .cls ⟨2⟩ ∨ w.Reaches [.cls ⟨1⟩] type) ∧
      let met := walk.flatMap (w.declared "m")
      let acceptable := met.filter fun m => decide (Valid m ∧ Accessible m ∧
        ∀ other ∈ met, Valid other → ¬ Accessible other → ¬ w.Overrides other m)
      method 2 .publicAccess 1 ∈ acceptable ∧ ∀ q ∈ acceptable, ¬ Outdoes q (method 2 .publicAccess 1) := by
  intro stages method w l Valid Accessible Outdoes
  have arranged : w.Arranged := by decide
  have layered : w.Layered ⟨0⟩ := { toRooted := by decide, topLevel := rfl, untangled := arranged.untangled }
  have search : w.Search 16 (.cls ⟨2⟩) [.cls ⟨2⟩] (some ⟨3⟩) [.cls ⟨1⟩] w :=
    .ofClass arranged.initialised (by decide) (by simp [Ty.Inside, Arena.size, w]) (by simp [Arena.size, w]) (by decide)
  have called : (l.findMethod (.cls ⟨2⟩) "m" [.cls ⟨2⟩] (some ⟨3⟩)).on w = some (.ok (method 2 .publicAccess 1), w) := rfl
  obtain ⟨walk, -, members, outcome, ran, empty, some_, -⟩ :=
    findMethod_most_specific search layered rfl (by simp [Ty.isCanonical]) "m"
  cases called.symm.trans ran
  refine ⟨⟨search, layered⟩, called, walk, members, ?_⟩
  have found : _ ≠ [] := fun none => by cases empty none
  rcases some_ found with ⟨m, listed, unbeaten, same⟩ | ⟨_, -, -, -, other⟩
  · cases same
    exact ⟨listed, unbeaten⟩
  · cases other

/-- Neither is called where a name of the interfaces of arrays leads to a package, nor where several methods are found and
the container is an array of an unresolved type. -/
theorem findMethod_array_refused :
    let stages := Stage.all.foldl Stages.add .none
    let method (name : String) : Method := { container := .cls ⟨0⟩, name, returns := .void }
    let arena : Arena := ⟨#[
      { name := "Object", package := some ⟨"java.lang"⟩, methods := [method "clone", method "toString"], stages }]⟩
    let w : World := { World.ofUniverse { arrayInterfaces := [] } {} with arena, root := some ⟨0⟩ }
    let v : World := { World.ofUniverse { arrayInterfaces := ["java.lang"] } {} with
      arena
      root := some ⟨0⟩
      caches := Assoc.empty.insert .session (({} : Layers).insert "java.lang" (.package ⟨"java.lang"⟩)) }
    let l := Loader.ofDepth 12
    (w.Initialised ∧ w.WellKinded ∧ w.Layered ⟨0⟩ ∧
      (l.findMethod (.array (.unknown "x")) "clone" [] none).on w = some (.error (.notCanonical "x[]"), w)) ∧
    v.Initialised ∧ v.WellKinded ∧ v.Layered ⟨0⟩ ∧
      (l.findMethod (.array .int) "toString" [] none).on v =
        some (.error (.semantic (.packageNotClass "java.lang") none), v) := by
  intro stages method arena w v l
  have arranged : w.Arranged := by decide
  have arranged' : v.Arranged := by decide
  refine ⟨⟨arranged.initialised, by decide, { toRooted := by decide, topLevel := rfl, untangled := arranged.untangled }, rfl⟩,
    arranged'.initialised, by decide, { toRooted := by decide, topLevel := rfl, untangled := arranged'.untangled }, rfl⟩

end ClassUniverse
