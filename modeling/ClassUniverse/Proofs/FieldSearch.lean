import Mathlib.Data.Set.Subsingleton
import ClassUniverse.Proofs.SupertypeWalks

/-! The search for a field. On every way up from the container it ends at the first type that declares the name. Since a
type is looked at once, the supertypes may have common supertypes and even form cycles. -/
namespace ClassUniverse

open Run

variable {field : Field} {seen : List Ty}

namespace World

/-- The field of that name that a type declares itself. -/
def ownField (w : World) (name : String) : Ty → Option Field
  | .cls id => (w.arena.get id).fieldNamed? name
  | .array base =>
    if name = "length" then some { container := .array base, flags := .ofList [.publicAccess, .final], type := .int, name }
    else none
  | _ => none

/-- Where the search goes on. A type that declares the field hides what is above it. -/
def onward (w : World) (arrays : List Ty) (name : String) (type : Ty) : List Ty :=
  if (w.ownField name type).isSome then [] else w.above arrays type

/-- There is a way up from the container to the type, and no type below it on this way declares the field. -/
def Meets (w : World) (arrays : List Ty) (name : String) : (container type : Ty) → Prop :=
  Relation.ReflTransGen fun lower upper => upper ∈ w.onward arrays name lower

/-- The types that declare the field and are met. -/
def declarers (w : World) (arrays : List Ty) (name : String) (container : Ty) : Set Ty :=
  {type | w.Meets arrays name container type ∧ (w.ownField name type).isSome}

/-- Supertypes and fields of all classes are there, and no type of a field is left to be resolved. -/
def Filled (w : World) : Prop := ∀ id ∈ w.arena.ids,
  w.hasStage id .supertypesResolved = true ∧ w.hasStage id .membersAdded = true ∧
  (∀ f ∈ (w.arena.get id).fields, f.container = .cls id ∧ (f.isCanonical = true ∨ w.hasStage id .signaturesResolved = true)) ∧
  ∀ type ∈ (w.arena.get id).supertypes, ∀ above ∈ type.class?, above.index < w.arena.size

instance (w : World) : Decidable w.Filled := inferInstanceAs (Decidable (∀ id ∈ w.arena.ids, _))

/-- What a search from the container can make pending. -/
def extent (w : World) (arrays : List Ty) (name : String) (container : Ty) : Nat :=
  Worklist.unseen id (w.onward arrays name) []
    (container :: (arrays ++ w.arena.ids.flatMap fun id => (w.arena.get id).supertypes))

/-- A search for a field where everything that it meets is filled in. Only for an array that does not declare the field is
anything looked up: the root class and the interfaces of arrays. -/
structure FieldSearch (w : World) (depth : Nat) (container : Ty) (name : String) (arrays : List Ty) (after : World) : Prop where
  filled : after.Filled
  place : ∀ id ∈ container.class?, id.index < after.arena.size
  known : ∀ type ∈ arrays, ∀ id ∈ type.class?, id.index < after.arena.size
  still : (∀ base, container = .array base → name = "length") → after = w
  looked : ∀ base, container = .array base → name ≠ "length" →
    ((Loader.ofDepth (depth + 1)).directSupertypes container).on w = some (.ok arrays, after)
  /-- Arrays that are supertypes have the same supertypes, and nothing is left to be looked up for them. -/
  again : name ≠ "length" → ∀ base, .array base ≠ container → after.Meets arrays name container (.array base) →
    ((Loader.ofDepth (depth + 1)).directSupertypes (.array base)).on after = some (.ok arrays, after)
  ample : after.extent arrays name container + 1 < depth

/-- What a search comes to, given the types that declare the field and are met. -/
structure Finds (w : World) (container : Ty) (name : String) (declarers : Set Ty) (outcome : Except Error Field) : Prop where
  nothing : declarers = ∅ → outcome = .error (.noSuchMember .field name (w.arena.typeName container))
  only : ∀ type, declarers = {type} → ∃ field, w.ownField name type = some field ∧ outcome = .ok field
  several : declarers.Nontrivial → ∃ first ∈ declarers, ∃ second ∈ declarers, first ≠ second ∧
    outcome = .error (.ambiguous ("field " ++ name) (w.arena.typeNames [first, second]) none)

/-- What the fields that were gathered come to. -/
def fieldOutcome (w : World) (container : Ty) (name : String) : List Field → Except Error Field
  | [] => .error (.noSuchMember .field name (w.arena.typeName container))
  | [field] => .ok field
  | first :: second :: _ => .error (.ambiguous ("field " ++ name) (w.arena.typeNames [first.container, second.container]) none)

section Filled

variable {w : World}

theorem mem_onward :
    upper ∈ w.onward arrays name type ↔ w.ownField name type = none ∧ upper ∈ w.above arrays type := by
  unfold onward
  cases w.ownField name type <;> simp

theorem onward_of_none (open_ : w.ownField name type = none) : w.onward arrays name type = w.above arrays type := by
  simp [onward, open_]

theorem onward_of_some (hit : w.ownField name type = some field) : w.onward arrays name type = [] := by
  simp [onward, hit]

theorem Initialised.filled (initialised : w.Initialised) : w.Filled := by
  intro id listed
  have stage := initialised.complete id (Arena.mem_ids_iff.mp listed)
  refine ⟨stage _, stage _, fun f member => ⟨initialised.fields id f member, .inr (stage _)⟩, ?_⟩
  rintro type direct above known
  obtain ⟨other, rfl, inside⟩ := initialised.supertypes id type direct
  cases known
  exact inside

theorem Filled.container_eq (filled : w.Filled) (place : ∀ id ∈ type.class?, id.index < w.arena.size)
    (hit : w.ownField name type = some field) : field.container = type := by
  cases type with
  | cls id =>
    have inside : id ∈ w.arena.ids := w.arena.mem_ids (place id rfl)
    exact ((filled id inside).2.2.1 field (List.mem_of_find?_eq_some hit)).1
  | array base =>
    simp only [ownField] at hit
    split at hit <;> cases hit
    rfl
  | _ => cases hit

theorem Filled.above_inside (filled : w.Filled) (known : ∀ type ∈ arrays, ∀ id ∈ type.class?, id.index < w.arena.size)
    (direct : upper ∈ w.above arrays type) : ∀ id ∈ upper.class?, id.index < w.arena.size := by
  cases type with
  | cls id => exact (filled id (Arena.mem_ids_iff.mpr (Arena.inside_of_supertype direct))).2.2.2 upper direct
  | array base => exact known upper direct
  | _ => cases direct

/-- Met are the container, supertypes of arrays and supertypes of classes. -/
theorem Meets.listed (met : w.Meets arrays name container type) :
    type ∈ container :: (arrays ++ w.arena.ids.flatMap fun id => (w.arena.get id).supertypes) := by
  cases met with
  | refl => exact List.mem_cons_self
  | @tail lower _ _ step =>
    have direct := (mem_onward.mp step).2
    cases lower with
    | cls id =>
      have inside : id ∈ w.arena.ids := Arena.mem_ids_iff.mpr (Arena.inside_of_supertype direct)
      simp only [List.mem_cons, List.mem_append, List.mem_flatMap]
      exact .inr (.inr ⟨id, inside, direct⟩)
    | array base => exact List.mem_cons_of_mem _ (List.mem_append_left _ direct)
    | _ => cases direct

theorem Meets.mem_of_closed {types : List Ty} (start : container ∈ types)
    (closed : ∀ lower ∈ types, ∀ upper ∈ w.onward arrays name lower, upper ∈ types)
    (met : w.Meets arrays name container type) : type ∈ types := by
  induction met with
  | refl => exact start
  | tail _ step ih => exact closed _ ih _ step

end Filled

end World

namespace Loader

variable {depth : Nat}

theorem on_ownField (filled : w.Filled) (place : ∀ id ∈ type.class?, id.index < w.arena.size) :
    ((ofDepth (depth + 1)).declaredField name type).on w = some (.ok (w.ownField name type), w) := by
  cases type with
  | cls id =>
    obtain ⟨-, members, fields, -⟩ := filled id (w.arena.mem_ids (place id rfl))
    change ((ofDepth (depth + 1)).fieldNamed id name).on w = some (.ok ((w.arena.get id).fieldNamed? name), w)
    unfold fieldNamed
    rw [on_bind_ok (ensure_reached depth members), on_bind_ok (show (Run.record id).on w = some (.ok (w.arena.get id), w) from rfl)]
    cases hit : (w.arena.get id).fieldNamed? name with
    | none => rfl
    | some field =>
      dsimp only
      by_cases canonical : field.isCanonical = true
      · rw [if_pos canonical]
        rfl
      · have signatures := (fields field (List.mem_of_find?_eq_some hit)).2.resolve_left canonical
        rw [if_neg canonical, on_bind_ok (ensure_reached depth signatures)]
        exact congrArg (fun field => some (Except.ok field, w)) hit
  | array base =>
    by_cases isLength : name = "length" <;> simp only [declaredField, World.ownField, isLength, if_true, if_false] <;> rfl
  | _ => rfl

theorem on_above (filled : w.Filled) (place : ∀ id ∈ type.class?, id.index < w.arena.size)
    (settled : ∀ base, type = .array base →
      ((ofDepth (depth + 1)).directSupertypes (.array base)).on w = some (.ok arrays, w)) :
    ((ofDepth (depth + 1)).directSupertypes type).on w = some (.ok (w.above arrays type), w) := by
  cases type with
  | cls id => exact on_staged depth (filled id (w.arena.mem_ids (place id rfl))).1 (·.supertypes)
  | array base => exact settled base rfl
  | _ => rfl

/-- A field that belongs to another type than the fields before it is none of them. -/
theorem any_same_eq_false {found : List Field} (earlier : ∀ f ∈ found, f.container ∈ seen)
    (fresh : field.container ∉ seen) : found.any field.same = false := by
  rw [List.any_eq_false]
  intro f member same
  simp only [Field.same, Bool.and_eq_true, beq_iff_eq] at same
  apply fresh
  rw [same.1.1.1]
  exact earlier f member

/-- The fields that are gathered are those of the types that are met, in the order in which they are met. -/
theorem fieldsWithin_walk {l : Loader} (left : List Ty → Nat)
    (placed : ∀ type field, w.Meets arrays name container type → w.ownField name type = some field → field.container = type)
    (declares : ∀ type, w.Meets arrays name container type →
      (l.declaredField name type).on w = some (.ok (w.ownField name type), w))
    (settled : ∀ type ∉ seen, w.Meets arrays name container type → w.ownField name type = none →
      (l.directSupertypes type).on w = some (.ok (w.above arrays type), w))
    (pays : ∀ type seen, w.Meets arrays name container type → type ∉ seen →
      (w.onward arrays name type).length + left (type :: seen) ≤ left seen)
    (waiting : ∀ type ∈ pending, w.Meets arrays name container type) (budget : pending.length + left seen < steps) :
    ∃ walk, Worklist.Walk (w.onward arrays name) seen pending walk ∧ ∀ found : List Field, (∀ f ∈ found, f.container ∈ seen) →
      (l.fieldsWithin name steps seen found pending).on w =
        some (.ok (found ++ walk.filterMap (w.ownField name)), w) := by
  revert settled
  refine Worklist.induction _ left (fun _ _ => .refl _) (fun _ here _ => here.tail) pays
    ?nil ?skip ?visit steps seen pending waiting budget
  case nil => exact fun _ _ _ => ⟨[], .nil _ _, fun found _ => by simp only [List.filterMap_nil, List.append_nil]; rfl⟩
  case skip =>
    intro steps seen type pending again ih settled
    obtain ⟨walk, met, ran⟩ := ih settled
    refine ⟨walk, met.skip again, fun found earlier => ?_⟩
    unfold fieldsWithin
    rw [if_pos (by simpa using again)]
    exact ran found earlier
  case visit =>
    intro steps seen type pending here again ih settled
    obtain ⟨walk, met, ran⟩ := ih fun other unseen => settled other fun member => unseen (List.mem_cons_of_mem type member)
    refine ⟨type :: walk, met.visit again (.refl _), fun found earlier => ?_⟩
    have earlier' : ∀ f ∈ found, f.container ∈ type :: seen := fun f member => List.mem_cons_of_mem type (earlier f member)
    unfold fieldsWithin
    rw [if_neg (by simpa using again), on_bind_ok (declares type here)]
    cases hit : w.ownField name type with
    | none =>
      rw [World.onward_of_none hit] at ran
      rw [on_bind_ok (settled type again here hit), ran found earlier', List.filterMap_cons_none hit]
    | some field =>
      have own := placed type field here hit
      have new : found.any field.same = false := any_same_eq_false earlier (own ▸ again)
      have earlier'' : ∀ f ∈ found ++ [field], f.container ∈ type :: seen := by
        intro f member
        rcases List.mem_append.mp member with member | last
        · exact earlier' f member
        · rw [List.mem_singleton.mp last, own]
          exact List.mem_cons_self
      rw [World.onward_of_some hit, List.nil_append] at ran
      simp only [new, Bool.false_eq_true, if_false]
      rw [ran _ earlier'', List.filterMap_cons_some hit, List.append_assoc]
      rfl

/-- Without an accessor only the number of the fields matters. -/
theorem on_findField {l : Loader} {fields : List Field}
    (ran : (l.fieldsWithin name l.depth [] [] [container]).on w = some (.ok fields, after)) :
    (l.findField container name none).on w = some (after.fieldOutcome container name fields, after) := by
  rw [findField, on_bind_ok ran]
  rcases fields with _ | ⟨first, _ | ⟨second, rest⟩⟩ <;> rfl

end Loader

namespace World.FieldSearch

open Loader

variable {w : World} {depth : Nat}
  (search : w.FieldSearch depth container name arrays after)
include search

theorem met_inside (met : after.Meets arrays name container type) :
    ∀ id ∈ type.class?, id.index < after.arena.size := by
  cases met with
  | refl => exact search.place
  | tail _ step => exact search.filled.above_inside search.known (mem_onward.mp step).2

theorem first_declared : ((ofDepth (depth + 1)).declaredField name container).on w =
    some (.ok (after.ownField name container), w) := by
  by_cases quiet : ∀ base, container = .array base → name = "length"
  · cases search.still quiet
    exact on_ownField search.filled search.place
  · simp only [not_forall] at quiet
    obtain ⟨base, rfl, other⟩ := quiet
    simp only [declaredField, ownField, if_neg other]
    rfl

theorem first_above (open_ : after.ownField name container = none) :
    ((ofDepth (depth + 1)).directSupertypes container).on w = some (.ok (after.above arrays container), after) := by
  by_cases array : ∃ base, container = .array base
  · obtain ⟨base, rfl⟩ := array
    apply search.looked base rfl
    rintro rfl
    cases open_
  · have quiet : after = w := search.still fun base same => absurd ⟨base, same⟩ array
    cases quiet
    exact on_above search.filled search.place fun base same => absurd ⟨base, same⟩ array

/-- A container that declares the field is all that is looked at. -/
theorem after_eq (hit : after.ownField name container = some field) : after = w := by
  apply search.still
  rintro base rfl
  by_contra other
  simp [ownField, other] at hit

theorem fields_walk : ∃ walk, Worklist.Walk (after.onward arrays name) [] [container] walk ∧
    ((ofDepth (depth + 1)).fieldsWithin name depth [] [] [container]).on w =
      some (.ok (walk.filterMap (after.ownField name)), after) := by
  obtain ⟨steps, rfl⟩ : ∃ steps, depth = steps + 2 := ⟨depth - 2, by have ample := search.ample; omega⟩
  have fresh : container ∉ [] := List.not_mem_nil
  unfold fieldsWithin
  rw [if_neg (by simp), on_bind_ok search.first_declared]
  cases hit : after.ownField name container with
  | some field =>
    have here : Worklist.Walk (after.onward arrays name) [container] (after.onward arrays name container ++ []) [] := by
      rw [onward_of_some hit]
      exact .nil _ _
    refine ⟨[container], here.visit fresh (.refl _), ?_⟩
    cases search.after_eq hit
    rw [List.filterMap_cons_some hit]
    rfl
  | none =>
    let items := container :: (arrays ++ after.arena.ids.flatMap fun id => (after.arena.get id).supertypes)
    have visited : (after.onward arrays name container).length +
        Worklist.unseen id (after.onward arrays name) [container] items ≤ after.extent arrays name container :=
      Worklist.unseen_visit id (after.onward arrays name) (by simp) List.mem_cons_self
    rw [onward_of_none hit] at visited
    have ample := search.ample
    have budget : (after.above arrays container ++ []).length +
        Worklist.unseen id (after.onward arrays name) [container] items < steps + 1 := by
      rw [List.append_nil]
      omega
    have waiting : ∀ type ∈ after.above arrays container ++ [], after.Meets arrays name container type := by
      intro type direct
      rw [List.append_nil] at direct
      exact .single (mem_onward.mpr ⟨hit, direct⟩)
    -- Whatever is met afterwards is a class, or an array that is not the container.
    have settled : ∀ type ∉ [container], after.Meets arrays name container type → after.ownField name type = none →
        ((ofDepth (steps + 2 + 1)).directSupertypes type).on after = some (.ok (after.above arrays type), after) := by
      intro type other met unhidden
      apply on_above search.filled (search.met_inside met)
      rintro base rfl
      apply search.again _ base (by simpa using other) met
      rintro rfl
      cases unhidden
    obtain ⟨walk, met, ran⟩ := fieldsWithin_walk (fun seen => Worklist.unseen id (after.onward arrays name) seen items)
      (fun type field met => search.filled.container_eq (search.met_inside met))
      (fun type met => on_ownField search.filled (search.met_inside met))
      settled (fun type seen met fresh => Worklist.unseen_visit id _ (by simpa using fresh) met.listed) waiting budget
    rw [← onward_of_none hit] at met
    refine ⟨container :: walk, met.visit fresh (.refl _), ?_⟩
    rw [on_bind_ok (search.first_above hit), ran [] (by simp), List.filterMap_cons_none hit, List.nil_append]

/-- The fields that are gathered are declared by different types, and these are all that declare the field and are met. -/
theorem gathers : ∃ types fields, types.Nodup ∧ after.declarers arrays name container = {type | type ∈ types} ∧
    List.Forall₂ (fun type field => after.ownField name type = some field ∧ field.container = type) types fields ∧
    ((ofDepth (depth + 1)).fieldsWithin name depth [] [] [container]).on w = some (.ok fields, after) := by
  obtain ⟨walk, met, ran⟩ := search.fields_walk
  have reached (type : Ty) : type ∈ walk ↔ after.Meets arrays name container type := by
    rw [met.mem_iff (by simp)]
    simp [Worklist.Leads, Meets]
  refine ⟨walk.filter fun type => (after.ownField name type).isSome, _, met.nodup.filter _, ?_, ?_, ran⟩
  · ext type
    simp [declarers, reached]
  · have placed (type : Ty) (listed : type ∈ walk) := search.met_inside ((reached type).mp listed)
    clear met ran reached
    induction walk with
    | nil => exact .nil
    | cons type rest ih =>
      obtain ⟨here, later⟩ := List.forall_mem_cons.mp placed
      cases hit : after.ownField name type with
      | none => simpa [hit] using ih later
      | some field =>
        rw [List.filter_cons_of_pos (by simp [hit]), List.filterMap_cons_some hit]
        exact .cons ⟨hit, search.filled.container_eq here hit⟩ (ih later)

/-- What the search comes to depends only on the types that declare the field and are met. -/
theorem finds : ∃ outcome, ((ofDepth (depth + 1)).findField container name none).on w = some (outcome, after) ∧
    after.Finds container name (after.declarers arrays name container) outcome := by
  obtain ⟨types, fields, nodup, declared, matched, ran⟩ := search.gathers
  refine ⟨_, on_findField ran, ?_⟩
  rw [declared]
  cases matched with
  | nil => constructor <;> simp [fieldOutcome]
  | @cons first _ _ _ hit rest =>
    cases rest with
    | nil =>
      constructor
      case nothing => simp
      case only =>
        intro type same
        have here : first ∈ ({type} : Set Ty) := same ▸ List.mem_cons_self
        cases here
        exact ⟨_, hit.1, rfl⟩
      case several => simp
    | @cons second _ _ _ hit' rest =>
      have apart : first ≠ second := fun same => (List.nodup_cons.mp nodup).1 (same ▸ List.mem_cons_self)
      constructor
      case nothing => exact fun none => absurd none (Set.nonempty_iff_ne_empty.mp ⟨first, List.mem_cons_self⟩)
      case only =>
        intro type same
        have here : first ∈ ({type} : Set Ty) := same ▸ List.mem_cons_self
        have there : second ∈ ({type} : Set Ty) := same ▸ List.mem_cons_of_mem _ List.mem_cons_self
        exact absurd (here.trans there.symm) apart
      case several =>
        intro _
        refine ⟨first, List.mem_cons_self, second, List.mem_cons_of_mem _ List.mem_cons_self, apart, ?_⟩
        rw [fieldOutcome, hit.2, hit'.2]

end World.FieldSearch

namespace World

variable {w v : World}

/-- Worlds with the same fields, where types have the same supertypes, in whatever order. -/
theorem declarers_congr (fields : v.ownField name = w.ownField name)
    (supertypes : ∀ lower upper, upper ∈ v.above arrays' lower ↔ upper ∈ w.above arrays lower) :
    v.declarers arrays' name container = w.declarers arrays name container := by
  have steps : (fun lower upper => upper ∈ v.onward arrays' name lower) = fun lower upper => upper ∈ w.onward arrays name lower := by
    funext lower upper
    rw [mem_onward, mem_onward, fields, supertypes]
  unfold declarers Meets
  rw [fields, steps]

/-- Which of several types are named is all that two searches may differ in. -/
theorem Finds.agree {declarers : Set Ty} {outcome outcome' : Except Error Field} (fields : v.ownField name = w.ownField name)
    (names : v.arena.typeName = w.arena.typeName) (finds : w.Finds container name declarers outcome)
    (finds' : v.Finds container name declarers outcome') :
    outcome' = outcome ∨ ∃ candidates candidates', outcome = .error (.ambiguous ("field " ++ name) candidates none) ∧
      outcome' = .error (.ambiguous ("field " ++ name) candidates' none) := by
  rcases declarers.subsingleton_or_nontrivial with few | many
  · left
    rcases few.eq_empty_or_singleton with none | ⟨type, only⟩
    · rw [finds.nothing none, finds'.nothing none, names]
    · obtain ⟨field, hit, rfl⟩ := finds.only type only
      obtain ⟨field', hit', rfl⟩ := finds'.only type only
      rw [fields, hit] at hit'
      cases hit'
      rfl
  · right
    obtain ⟨_, -, _, -, -, outcome⟩ := finds.several many
    obtain ⟨_, -, _, -, -, outcome'⟩ := finds'.several many
    exact ⟨_, _, outcome, outcome'⟩

namespace Reordered

variable (reordered : w.Reordered v)
include reordered

theorem ownField : v.ownField name = w.ownField name := by
  funext type
  cases type with
  | cls id => simp only [World.ownField, ClassRecord.fieldNamed?, reordered.fields]
  | _ => rfl

theorem above (same : arrays'.Perm arrays) (lower : Ty) : (v.above arrays' lower).Perm (w.above arrays lower) := by
  cases lower with
  | cls id => exact reordered.supertypes id
  | array base => exact same
  | _ => exact .refl _

end Reordered

end World

/-- A field is found in the only type that declares it on the ways up from the container, where a way ends at the first type
that declares it. If there is none, or more than one, the search fails and says so. In which order interfaces are declared,
and in which order arrays implement theirs, makes no difference but for the types that an ambiguity names. -/
theorem findField_exact {w after : World} {depth : Nat} {container : Ty} {name : String} {arrays : List Ty}
    (search : w.FieldSearch depth container name arrays after) :
    ∃ outcome, ((Loader.ofDepth (depth + 1)).findField container name none).on w = some (outcome, after) ∧
      after.Finds container name (after.declarers arrays name container) outcome ∧
      ∀ {v after' : World} {arrays' : List Ty}, v.FieldSearch depth container name arrays' after' →
        after.Reordered { after' with config := after.config } → arrays'.Perm arrays →
        ∃ outcome', ((Loader.ofDepth (depth + 1)).findField container name none).on v = some (outcome', after') ∧
          (outcome' = outcome ∨ ∃ candidates candidates',
            outcome = .error (.ambiguous ("field " ++ name) candidates none) ∧
            outcome' = .error (.ambiguous ("field " ++ name) candidates' none)) := by
  obtain ⟨outcome, ran, finds⟩ := search.finds
  refine ⟨outcome, ran, finds, ?_⟩
  intro v after' arrays' search' reordered same
  obtain ⟨outcome', ran', finds'⟩ := search'.finds
  have fields : after'.ownField name = after.ownField name := reordered.ownField
  have declared : after'.declarers arrays' name container = after.declarers arrays name container :=
    World.declarers_congr fields fun lower _ => (reordered.above same lower).mem_iff
  rw [declared] at finds'
  exact ⟨outcome', ran', finds.agree fields (Arena.typeName_of_headers reordered.header) finds'⟩

/-- Arrays implement two interfaces that inherit from each other. The field comes from an interface above both. -/
theorem findField_exact_cycle :
    let stages := Stage.all.foldl Stages.add .none
    let field : Field := { container := .cls ⟨1⟩, flags := .ofList [.publicAccess, .final], type := .int, name := "x" }
    let interface (name : String) (interfaces : List Ty) (fields : List Field) : ClassRecord :=
      { name, flags := .ofList [.interface, .abstract], interfaces, fields, stages }
    let world (arrayInterfaces : List String) (interfaces : List Ty) : World :=
      { World.ofUniverse { arrayInterfaces } {} with
        root := some ⟨0⟩
        arena := ⟨#[
          { name := "Object", package := some ⟨"java.lang"⟩, stages }, interface "I" [] [field], interface "J" interfaces [],
          interface "K" [.cls ⟨2⟩] []]⟩
        caches := Assoc.empty.insert .session ((({} : Layers).insert "J" (.cls ⟨2⟩)).insert "K" (.cls ⟨3⟩)) }
    let w := world ["J", "K"] [.cls ⟨1⟩, .cls ⟨3⟩]
    let v := world ["K", "J"] [.cls ⟨3⟩, .cls ⟨1⟩]
    let l := Loader.ofDepth 17
    (w.FieldSearch 16 (.array .int) "x" [.cls ⟨0⟩, .cls ⟨2⟩, .cls ⟨3⟩] w ∧
      v.FieldSearch 16 (.array .int) "x" [.cls ⟨0⟩, .cls ⟨3⟩, .cls ⟨2⟩] v ∧ w.Reordered { v with config := w.config }) ∧
    w.declarers [.cls ⟨0⟩, .cls ⟨2⟩, .cls ⟨3⟩] "x" (.array .int) = {.cls ⟨1⟩} ∧
    (l.findField (.array .int) "x" none).on w = some (.ok field, w) ∧
    (l.findField (.array .int) "x" none).on v = some (.ok field, v) := by
  intro stages field interface world w v l
  have search : w.FieldSearch 16 (.array .int) "x" [.cls ⟨0⟩, .cls ⟨2⟩, .cls ⟨3⟩] w :=
    ⟨by decide, nofun, by decide, fun _ => rfl, fun _ _ _ => by rfl, fun _ _ _ _ => rfl, by decide⟩
  have search' : v.FieldSearch 16 (.array .int) "x" [.cls ⟨0⟩, .cls ⟨3⟩, .cls ⟨2⟩] v :=
    ⟨by decide, nofun, by decide, fun _ => rfl, fun _ _ _ => by rfl, fun _ _ _ _ => rfl, by decide⟩
  have reordered : w.Reordered { v with config := w.config } := by
    refine ⟨rfl, rfl, rfl, fun id => ?_⟩
    match id with
    | ⟨0⟩ | ⟨1⟩ | ⟨2⟩ | ⟨3⟩ => exact ⟨_, _, rfl, by decide, by decide⟩
    | ⟨_ + 4⟩ => exact ⟨_, _, rfl, .refl _, .refl _⟩
  have declared : w.declarers [.cls ⟨0⟩, .cls ⟨2⟩, .cls ⟨3⟩] "x" (.array .int) = {.cls ⟨1⟩} := by
    let types : List Ty := [.array .int, .cls ⟨0⟩, .cls ⟨1⟩, .cls ⟨2⟩, .cls ⟨3⟩]
    ext type
    constructor
    · rintro ⟨met, own⟩
      have only : ∀ type ∈ types, (w.ownField "x" type).isSome → type = .cls ⟨1⟩ := by decide
      exact only type (met.mem_of_closed (by decide) (by decide)) own
    · rintro rfl
      have up : Ty.cls ⟨2⟩ ∈ w.onward [.cls ⟨0⟩, .cls ⟨2⟩, .cls ⟨3⟩] "x" (.array .int) := by decide
      exact ⟨.tail (.single up) (by decide), by decide⟩
  refine ⟨⟨search, search', reordered⟩, declared, ?_⟩
  obtain ⟨outcome, ran, finds, anyOrder⟩ := findField_exact search
  obtain ⟨outcome', ran', alike⟩ := anyOrder search' reordered (by decide)
  obtain ⟨found, own, rfl⟩ := finds.only _ declared
  cases own
  rcases alike with rfl | ⟨_, _, other, -⟩
  · exact ⟨ran, ran'⟩
  · cases other

/-- Nothing declares the field, but a name of the interfaces of arrays leads to a package. -/
theorem findField_array_refused :
    let stages := Stage.all.foldl Stages.add .none
    let w : World := { World.ofUniverse { arrayInterfaces := ["java.lang"] } {} with
      arena := ⟨#[{ name := "Object", package := some ⟨"java.lang"⟩, stages }]⟩
      root := some ⟨0⟩
      caches := Assoc.empty.insert .session (({} : Layers).insert "java.lang" (.package ⟨"java.lang"⟩)) }
    w.Initialised ∧ w.Filled ∧ (∀ arrays, w.declarers arrays "x" (.array .int) = ∅) ∧
      ((Loader.ofDepth 12).findField (.array .int) "x" none).on w =
        some (.error (.semantic (.packageNotClass "java.lang") none), w) := by
  intro stages w
  have none (type : Ty) : w.ownField "x" type = none := by
    match type with
    | .cls ⟨0⟩ | .cls ⟨_ + 1⟩ | .array _ | .null | .package _ | .unknown _ | .primitive _ => rfl
  refine ⟨World.Arranged.initialised (by decide), by decide, fun arrays => ?_, rfl⟩
  simp [World.declarers, none]

end ClassUniverse
