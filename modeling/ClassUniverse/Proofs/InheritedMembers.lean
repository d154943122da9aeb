import ClassUniverse.Proofs.FieldSearch
import ClassUniverse.Proofs.OverloadSelection

/-! Where members are found. Look-ups of methods and fields walk through the supertypes that classes declare. What they meet
there is what subtyping puts above the container. -/
namespace ClassUniverse

open Run

variable {above : List Ty} {type : Ty} {w : World}

theorem Run.Concur.unchanged (concur : Concur w v bad x y) :
    x.Ends w (fun _ later => later = w) fun _ _ => True := by
  obtain ⟨result, ran, -⟩ := concur
  refine ends_of_outcomes (fun a later answered => ?_) fun _ _ _ => trivial
  cases ran.symm.trans answered
  rfl

namespace World

/-- Interfaces inherit from no class but the root class. -/
def PlainInterfaces (w : World) (root : ClassId) : Prop :=
  ∀ id ∈ w.arena.ids, w.arena.isInterface id = true → ∀ type ∈ (w.arena.get id).superType, type = .cls root

instance (w : World) (root : ClassId) : Decidable (w.PlainInterfaces root) :=
  inferInstanceAs (Decidable (∀ id ∈ w.arena.ids, _))

/-- The root class, or a class that is called like an interface of arrays. -/
def AboveArrays (w : World) (root : ClassId) (type : Ty) : Prop :=
  ∀ id ∈ type.class?, id = root ∨ w.isArrayInterface id = true

instance (w : World) (root : ClassId) (type : Ty) : Decidable (w.AboveArrays root type) :=
  inferInstanceAs (Decidable (∀ id ∈ type.class?, _))

/-- The supertypes of arrays are called like interfaces of arrays, and so is what these inherit from. -/
def ArraysClosed (w : World) (root : ClassId) (above : List Ty) : Prop :=
  (∀ type ∈ above, w.AboveArrays root type) ∧
    ∀ id ∈ w.arena.ids, w.isArrayInterface id = true → ∀ type ∈ (w.arena.get id).supertypes, w.AboveArrays root type

instance (w : World) (root : ClassId) (above : List Ty) : Decidable (w.ArraysClosed root above) :=
  inferInstanceAs (Decidable (_ ∧ _))

theorem PlainInterfaces.superclass {root id above : ClassId} (interfaces : w.PlainInterfaces root)
    (interface : w.arena.isInterface id = true) (super : (w.arena.get id).superType = some (.cls above)) : above = root := by
  have listed : .cls above ∈ (w.arena.get id).supertypes := List.mem_append_left _ (by simp [super])
  cases interfaces id (Arena.mem_ids_iff.mpr (Arena.inside_of_supertype listed)) interface _ super
  rfl

theorem ArraysClosed.reached {root top : ClassId} (arrays : w.ArraysClosed root above)
    (rooted : w.Rooted root) (reaches : w.Reaches above (.cls top)) : top = root ∨ w.isArrayInterface top = true := by
  obtain ⟨first, _, listed, same, leads⟩ := reaches
  cases same
  have start := arrays.1 _ listed first rfl
  have step {child parent : ClassId} (held : child = root ∨ w.isArrayInterface child = true)
      (direct : parent ∈ w.arena.parents child) : parent = root ∨ w.isArrayInterface parent = true := by
    have supertype := Arena.mem_parents.mp direct
    rcases held with rfl | held
    · rw [rooted.alone] at supertype
      cases supertype
    · exact arrays.2 child (Arena.mem_ids_iff.mpr (Arena.inside_of_supertype supertype)) held _ supertype parent rfl
  rcases leads with rfl | chain
  · exact start
  · induction chain with
    | single direct => exact step start direct
    | tail _ direct ih => exact step ih direct

end World

namespace Loader

variable {depth : Nat}

theorem place_of_inside (place : type.Inside w.arena.size) : ∀ id ∈ type.class?, id.index < w.arena.size := by
  rintro id known
  cases type <;> cases known
  exact place

/-- Depth first, fields are found in types that the search reaches. -/
theorem fieldsWithin_placed (initialised : w.Initialised)
    (classes : ∀ type ∈ above, ∃ id : ClassId, type = .cls id ∧ id.index < w.arena.size)
    (waiting : ∀ type ∈ pending, w.Reaches above type) (placed : ∀ f ∈ found, w.Reaches above f.container) :
    ((ofDepth (depth + 1)).fieldsWithin name steps seen found pending).Ends w
      (fun fields final => final = w ∧ ∀ f ∈ fields, w.Reaches above f.container) fun _ _ => True := by
  induction steps generalizing seen pending found with
  | zero => exact ends_exhausted.mpr trivial
  | succ steps ih =>
    cases pending with
    | nil => exact ends_pure.mpr ⟨rfl, placed⟩
    | cons type pending =>
      obtain ⟨here, later⟩ := List.forall_mem_cons.mp waiting
      refine ends_ite.mpr ⟨fun _ => ih later placed, fun _ => ?_⟩
      obtain ⟨id, rfl⟩ := here.isClass
      have inside := World.reached_inside initialised.supertypes classes here
      have place : ∀ other ∈ (Ty.cls id).class?, other.index < w.arena.size := place_of_inside inside
      refine ends_step (on_ownField initialised.filled place) ?_
      cases hit : w.ownField name (.cls id) with
      | some field =>
        refine ih later fun f listed => ?_
        split at listed
        · exact placed f listed
        · rcases List.mem_append.mp listed with listed | last
          · exact placed f listed
          · rw [List.mem_singleton.mp last, initialised.filled.container_eq place hit]
            exact here
      | none =>
        refine ends_step (on_supertypes initialised inside) (ih (fun type listed => ?_) placed)
        exact (List.mem_append.mp listed).elim (World.reaches_supertype initialised.supertypes here) (later type)

/-- The container is asked first. Only if it does not declare the field are its supertypes looked up. -/
theorem fieldsWithin_first (start : w.Initialised) (place : container.Inside w.arena.size)
    (own : ∀ field, field.container = container → ok [field] w)
    (further : ((ofDepth (depth + 1)).directSupertypes container >>= fun supertypes =>
      (ofDepth (depth + 1)).fieldsWithin name steps [container] [] (supertypes ++ [])).Ends w ok fun _ _ => True) :
    ((ofDepth (depth + 1)).fieldsWithin name (steps + 1) [] [] [container]).Ends w ok fun _ _ => True := by
  refine ends_step (on_ownField start.filled (place_of_inside place)) ?_
  cases hit : w.ownField name container with
  | some field =>
    cases steps with
    | zero => exact ends_exhausted.mpr trivial
    | succ steps => exact ends_pure.mpr (own field (start.filled.container_eq (place_of_inside place) hit))
  | none => exact further

/-- What holds of all fields of the name holds of the one that is found, if asking for access does not spoil it. -/
theorem findField_ends {l : Loader}
    (fields : (l.fieldsWithin name l.depth [] [] [container]).Ends w (fun fields middle => ∀ f ∈ fields, P f middle)
      fun _ _ => True) (access : ∀ id ∈ accessor, ∀ f middle, P f middle →
      (l.isAccessibleIn f.protection container id).Ends middle (fun _ later => P f later) fun _ _ => True) :
    (l.findField container name accessor).Ends w P fun _ _ => True := by
  unfold findField
  rw [ends_bind]
  refine fields.mono (fun fields middle placed => ?_) fun _ _ => id
  split
  · exact ends_step rfl (ends_throw.mpr trivial)
  · rename_i field
    have here := placed field List.mem_cons_self
    cases accessor with
    | none => exact ends_pure.mpr here
    | some accessor =>
      rw [ends_bind]
      refine (access accessor rfl field middle here).mono (fun allowed later kept => ?_) fun _ _ => id
      refine ends_ite.mpr ⟨fun _ => ends_pure.mpr kept, fun _ => ends_step rfl ?_⟩
      rw [ends_bind, ends_throw]
      trivial
  · exact ends_step rfl (ends_throw.mpr trivial)

/-- Where the supertypes of arrays cannot be looked up, only `length` is found. -/
theorem findField_failed (start : w.Initialised) (place : (Ty.array base).Inside w.arena.size)
    (looked : ((ofDepth (depth + 2)).directSupertypes (.array base)).on w = some (.error e, after))
    (accessor : Option ClassId) : ((ofDepth (depth + 2)).findField (.array base) name accessor).Ends w
      (fun f _ => f.container = .array base) fun _ _ => True := by
  refine findField_ends (fieldsWithin_first start place (fun field own => by simpa using own) ?_) fun id _ f middle here => ?_
  · unfold Ends
    rw [on_bind_error looked]
    trivial
  · exact (meets_trivial _ middle).mono (fun _ _ _ => here) fun _ _ _ => trivial

end Loader

namespace World

/-- A search in a hierarchy where interfaces inherit from interfaces and the root class only, and arrays from what is called
like an interface of arrays. -/
structure PlainSearch (w : World) (root : ClassId) (depth : Nat) (container : Ty) (args : List Ty)
    (accessor : Option ClassId) (above : List Ty) (after : World) : Prop extends
    w.Search depth container args accessor above after where
  rooted : after.Rooted root
  interfaces : after.PlainInterfaces root
  arrays : ∀ base, container = .array base → after.ArraysClosed root above

end World

namespace World.Search

open Loader

variable {depth : Nat}
  (search : w.Search depth container args accessor above after)
include search

theorem method_placed (canonical : container.isCanonical = true)
    (found : ((ofDepth (depth + 1)).findMethod container name args accessor).on w = some (.ok m, final)) :
    final = after ∧ (m.container = container ∨ after.Reaches above m.container) := by
  obtain ⟨walk, -, members, outcome⟩ := search.accepts name
  rcases outcome with ⟨-, ran⟩ | ⟨-, ran⟩
  · rw [on_findMethod ran] at found
    split at found
    · cases found
    · have declared {m : Method} (kept : m ∈ (ofDepth (depth + 1)).acceptable container args accessor after
          ((container :: walk).flatMap (after.declared name))) :
          ∃ type, (type = container ∨ after.Reaches above type) ∧ m ∈ after.declared name type := by
        obtain ⟨type, listed, declared⟩ := List.mem_flatMap.mp (List.mem_filter.mp kept).1
        exact ⟨type, (List.mem_cons.mp listed).imp_right (members type).mp, declared⟩
      obtain ⟨outcome, selected, listed⟩ := select_listed search.initialised.grounded search.fits (fun m kept => by
        obtain ⟨type, met, declared⟩ := declared kept
        exact search.knows (met.imp_left fun here => ⟨here, canonical⟩) declared) .method name
      cases selected.symm.trans found
      obtain ⟨type, met, declared⟩ := declared (listed m rfl)
      rw [(declared_spec search.initialised declared).1]
      exact ⟨rfl, met⟩
  · cases (on_bind_error ran).symm.trans found

theorem field_placed (name : String) : ((ofDepth (depth + 1)).findField container name accessor).Ends w (fun f final =>
    (final = w ∧ f.container = container) ∨ (final = after ∧ after.Reaches above f.container)) fun _ _ => True := by
  obtain ⟨steps, rfl⟩ : ∃ steps, depth = steps + 1 := ⟨depth - 1, by have ample := search.ample; omega⟩
  have grown := search.grown
  have fits := search.fits
  refine findField_ends (fieldsWithin_first search.start search.place ?_ (ends_step search.looked ?_)) ?_
  · exact fun field own => List.forall_mem_singleton.mpr (.inl ⟨rfl, own⟩)
  · refine Ends.mono (fieldsWithin_placed search.initialised search.classes (fun type listed => ?_) (by simp))
      (fun fields middle placed f listed => .inr ⟨placed.1, placed.2 f listed⟩) fun _ _ => id
    rw [List.append_nil] at listed
    obtain ⟨id, rfl, -⟩ := search.classes type listed
    exact ⟨id, id, listed, rfl, .inl rfl⟩
  · intro id asked f middle here
    obtain ⟨initialised, small, large⟩ :
        middle.Initialised ∧ middle.arena.size ≤ steps + 1 ∧ w.arena.size ≤ middle.arena.size := by
      rcases here with ⟨rfl, -⟩ | ⟨rfl, -⟩
      · exact ⟨search.start, by omega, by omega⟩
      · exact ⟨search.initialised, by omega, by omega⟩
    have access : Concur middle middle (fun _ => True) ((ofDepth (steps + 2)).isAccessibleIn f.protection container id)
        ((ofDepth (steps + 2)).isAccessibleIn f.protection container id) :=
      concur_isAccessibleIn initialised (.refl middle) small (Nat.lt_of_lt_of_le (search.from_ id asked) large)
        (search.place.mono large) fun _ => trivial
    refine access.unchanged.mono (fun _ later same => ?_) fun _ _ _ => trivial
    rwa [same]

end World.Search

theorem World.PlainSearch.isSubtype {root : ClassId}
    (search : w.PlainSearch root depth container args accessor above after)
    (canonical : container.isCanonical = true) (reached : after.Reaches above type) :
    ((Loader.ofDepth (depth + 1)).isSubtype container type).on after = some (.ok true, after) := by
  obtain ⟨first, top, listed, rfl, leads⟩ := id reached
  have known : container.KnownIn after.arena :=
    Ty.knownIn_iff.mpr ⟨search.place.mono search.toSearch.grown, canonical⟩
  refine (Loader.isSubtype_under search.initialised.grounded search.toSearch.fits known rfl).true_iff.mpr ?_
  have looked := search.looked
  cases container with
  | cls id =>
    cases (Loader.on_supertypes search.start search.place).symm.trans looked
    have chain : w.arena.Inherits id top := Arena.inherits_iff.mpr ⟨_, listed, first, rfl, leads.imp_left Eq.symm⟩
    rcases search.rooted.climbs_of_inherits (fun _ _ => search.interfaces.superclass) chain with rfl | climbs
    · exact .toRoot search.rooted.top
    · exact .climbs climbs
  | array base =>
    refine .arrayClass (((search.arrays base rfl).reached search.rooted reached).imp_left ?_)
    rintro rfl
    exact search.rooted.top
  | _ =>
    cases looked
    cases listed

/-- Members are found in supertypes only. -/
theorem members_found_in_supertypes {w after : World} {root : ClassId} {depth : Nat} {container : Ty} {args : List Ty}
    {accessor : Option ClassId} {found : Except Error (List Ty)} (start : w.Initialised)
    (place : container.Inside w.arena.size) (deep : 0 < depth)
    (looked : ((Loader.ofDepth (depth + 1)).directSupertypes container).on w = some (found, after))
    (search : ∀ above, found = .ok above → w.PlainSearch root depth container args accessor above after)
    (canonical : container.isCanonical = true) (name : String) :
    let l := Loader.ofDepth (depth + 1)
    (∀ m final, (l.findMethod container name args accessor).on w = some (.ok m, final) →
      (l.isSubtype container m.container).on final = some (.ok true, final)) ∧
    ∀ f final, (l.findField container name accessor).on w = some (.ok f, final) →
      (l.isSubtype container f.container).on final = some (.ok true, final) := by
  intro l
  have same (final : World) : (l.isSubtype container container).on final = some (.ok true, final) := by
    unfold l Loader.isSubtype Ty.subtypeBy
    rw [on_bind_ok (Loader.on_requireCanonical canonical), on_bind_ok (Loader.on_requireCanonical canonical), if_pos rfl]
    rfl
  cases found with
  | ok above =>
    have search := search above rfl
    constructor
    · intro m final found
      obtain ⟨rfl, here | reached⟩ := search.toSearch.method_placed canonical found
      · rw [here]
        exact same final
      · exact search.isSubtype canonical reached
    · intro f final found
      rcases (search.toSearch.field_placed name).answer found with ⟨-, here⟩ | ⟨rfl, reached⟩
      · rw [here]
        exact same final
      · exact search.isSubtype canonical reached
  | error e =>
    obtain ⟨steps, rfl⟩ : ∃ steps, depth = steps + 1 := ⟨depth - 1, by omega⟩
    cases container with
    | cls id => cases (Loader.on_supertypes start place).symm.trans looked
    | array base =>
      constructor
      · intro m final found
        cases (Loader.findMethod_failed looked).symm.trans found
      · intro f final found
        rw [(Loader.findField_failed start place looked accessor).answer found]
        exact same final
    | _ => cases looked

/-- Members of an interface and of a superclass, found in a class and in an array. -/
theorem members_found_in_supertypes_inherited :
    let stages := Stage.all.foldl Stages.add .none
    let method : Method := { container := .cls ⟨1⟩, flags := .ofList [.publicAccess, .abstract], name := "m", returns := .void }
    let field : Field := { container := .cls ⟨2⟩, type := .int, name := "x" }
    let w : World := { World.ofUniverse { arrayInterfaces := ["I"] } {} with
      root := some ⟨0⟩
      arena := ⟨#[
        { name := "Object", package := some ⟨"java.lang"⟩, stages },
        { name := "I", superType := some (.cls ⟨0⟩), flags := .ofList [.interface, .abstract], methods := [method], stages },
        { name := "A", superType := some (.cls ⟨0⟩), fields := [field], stages },
        { name := "B", superType := some (.cls ⟨2⟩), flags := .ofList [.abstract], interfaces := [.cls ⟨1⟩], stages }]⟩
      caches := Assoc.empty.insert .session (({} : Layers).insert "I" (.cls ⟨1⟩)) }
    let l := Loader.ofDepth 21
    (w.PlainSearch ⟨0⟩ 20 (.cls ⟨3⟩) [] none [.cls ⟨2⟩, .cls ⟨1⟩] w ∧
      w.PlainSearch ⟨0⟩ 20 (.array .int) [] none [.cls ⟨0⟩, .cls ⟨1⟩] w) ∧
    ((l.findMethod (.cls ⟨3⟩) "m" [] none).on w = some (.ok method, w) ∧
      (l.isSubtype (.cls ⟨3⟩) (.cls ⟨1⟩)).on w = some (.ok true, w)) ∧
    ((l.findField (.cls ⟨3⟩) "x" none).on w = some (.ok field, w) ∧
      (l.isSubtype (.cls ⟨3⟩) (.cls ⟨2⟩)).on w = some (.ok true, w)) ∧
    (l.findMethod (.array .int) "m" [] none).on w = some (.ok method, w) ∧
      (l.isSubtype (.array .int) (.cls ⟨1⟩)).on w = some (.ok true, w) := by
  intro stages method field w l
  have initialised : w.Initialised := World.Arranged.initialised (by decide)
  have fromClass : w.PlainSearch ⟨0⟩ 20 (.cls ⟨3⟩) [] none [.cls ⟨2⟩, .cls ⟨1⟩] w :=
    ⟨.ofClass initialised (by decide) nofun nofun (by decide), by decide, by decide, nofun⟩
  have fromArray : w.PlainSearch ⟨0⟩ 20 (.array .int) [] none [.cls ⟨0⟩, .cls ⟨1⟩] w :=
    ⟨⟨initialised, initialised, rfl, by simp [w, Arena.size], rfl, trivial, nofun, nofun, by decide⟩, by decide, by decide,
      fun _ _ => by decide +kernel⟩
  have inClass (name : String) := members_found_in_supertypes initialised fromClass.place (by decide) fromClass.looked
    (by rintro _ ⟨⟩; exact fromClass) rfl name
  have inArray := members_found_in_supertypes initialised fromArray.place (by decide) fromArray.looked
    (by rintro _ ⟨⟩; exact fromArray) rfl "m"
  exact ⟨⟨fromClass, fromArray⟩, ⟨rfl, (inClass "m").1 method w rfl⟩, ⟨rfl, (inClass "x").2 field w rfl⟩, rfl,
    inArray.1 method w rfl⟩

/-- An interface that inherits from a class is no subtype of it, an array is no subtype of what its interfaces inherit or
what their names lead to, and for an array of an unresolved type there is no answer. -/
theorem members_found_outside_supertypes :
    let stages := Stage.all.foldl Stages.add .none
    let method (id : Nat) (name : String) : Method := { container := .cls ⟨id⟩, name, returns := .void }
    let interface : Flags := .ofList [.interface, .abstract]
    let object : ClassRecord := { name := "Object", package := some ⟨"java.lang"⟩, stages }
    let w : World := { World.ofUniverse {} {} with
      root := some ⟨0⟩
      arena := ⟨#[object,
        { name := "A", superType := some (.cls ⟨0⟩), methods := [method 1 "m"], stages },
        { name := "I", superType := some (.cls ⟨1⟩), flags := interface, stages }]⟩ }
    let v : World := { World.ofUniverse { arrayInterfaces := ["J", "L"] } {} with
      root := some ⟨0⟩
      arena := ⟨#[object,
        { name := "K", flags := interface, methods := [method 1 "m"], stages },
        { name := "J", flags := interface, interfaces := [.cls ⟨1⟩], stages },
        { name := "M", flags := interface, methods := [method 3 "n"], stages }]⟩
      caches := Assoc.empty.insert .session ((({} : Layers).insert "J" (.cls ⟨2⟩)).insert "L" (.cls ⟨3⟩)) }
    let l := Loader.ofDepth 21
    (w.Initialised ∧ w.WellKinded ∧ w.Rooted ⟨0⟩) ∧ (v.Initialised ∧ v.WellKinded ∧ v.Rooted ⟨0⟩) ∧
    ((l.findMethod (.cls ⟨2⟩) "m" [] none).on w = some (.ok (method 1 "m"), w) ∧
      (l.isSubtype (.cls ⟨2⟩) (.cls ⟨1⟩)).on w = some (.ok false, w)) ∧
    ((l.findMethod (.array .int) "m" [] none).on v = some (.ok (method 1 "m"), v) ∧
      (l.isSubtype (.array .int) (.cls ⟨1⟩)).on v = some (.ok false, v)) ∧
    ((l.findMethod (.array .int) "n" [] none).on v = some (.ok (method 3 "n"), v) ∧
      (l.isSubtype (.array .int) (.cls ⟨3⟩)).on v = some (.ok false, v)) ∧
    ∃ f, (l.findField (.array (.unknown "x")) "length" none).on w = some (.ok f, w) ∧
      (l.isSubtype (.array (.unknown "x")) f.container).on w = some (.error (.notCanonical "x[]"), w) := by
  intro stages method interface object w v l
  have initialised : w.Initialised := World.Arranged.initialised (by decide)
  have initialised' : v.Initialised := World.Arranged.initialised (by decide)
  have below (id : ClassId) (outside : (v.isRoot id || v.isArrayInterface id) = false) :
      (l.isSubtype (.array .int) (.cls id)).on v = some (.ok false, v) :=
    congrArg (fun holds => some (Except.ok holds, v)) outside
  refine ⟨⟨initialised, by decide, by decide⟩, ⟨initialised', by decide, by decide⟩, ⟨rfl, rfl⟩,
    ⟨rfl, below ⟨1⟩ (by decide +kernel)⟩, ⟨rfl, below ⟨3⟩ (by decide +kernel)⟩, ?_⟩
  exact ⟨_, rfl, rfl⟩

end ClassUniverse
