import ClassUniverse.Proofs.Subtyping

/-! Well-formed hierarchies: what kinds of classes stand above a class, the root class above all of them, and how the
root class is looked up. Subtyping is a partial order there, which agrees with declared inheritance. -/
namespace ClassUniverse

open Run

variable {id : ClassId} {w : World} {l : Loader}

instance Ty.decidableKnownIn (arena : Arena) : (type : Ty) → Decidable (type.KnownIn arena)
  | .cls id => inferInstanceAs (Decidable (id.index < arena.size))
  | .array base => decidableKnownIn arena base
  | .unknown _ => isFalse nofun
  | .primitive _ | .null | .package _ => isTrue trivial

namespace World

/-- Classes that come after their supertypes inherit from earlier classes only. -/
theorem Grounded.of_earlier (resolved : ∀ id ∈ w.arena.ids, w.hasStage id .supertypesResolved = true)
    (earlier : ∀ id ∈ w.arena.ids, ∀ type ∈ (w.arena.get id).supertypes,
      (type.class?.any fun above => above.index < id.index) = true) : w.Grounded := by
  have step {id : ClassId} {type : Ty} (listed : type ∈ (w.arena.get id).supertypes) :
      ∃ above : ClassId, type = .cls above ∧ above.index < id.index := by
    have holds := earlier id (Arena.mem_ids_iff.mpr (Arena.inside_of_supertype listed)) type listed
    cases type with
    | cls above => exact ⟨above, rfl, of_decide_eq_true holds⟩
    | _ => cases holds
  have less {id above : ClassId} (direct : above ∈ w.arena.parents id) : above.index < id.index := by
    obtain ⟨_, ⟨⟩, less⟩ := step (Arena.mem_parents.mp direct)
    exact less
  constructor
  · exact fun id inside => resolved id (Arena.mem_ids_iff.mpr inside)
  · exact fun id cycle => Nat.lt_irrefl _ (cycle.earlier fun _ _ => less)
  · intro id type listed
    obtain ⟨above, rfl, less⟩ := step listed
    exact ⟨above, rfl, Nat.lt_trans less (Arena.inside_of_supertype listed)⟩

/-- Superclasses are no interfaces, and what classes implement are interfaces. -/
structure WellKinded (w : World) : Prop where
  superclass : ∀ id above, (w.arena.get id).superType = some (.cls above) → w.arena.isInterface above = false
  interfaces : ∀ id above, .cls above ∈ (w.arena.get id).interfaces → w.arena.isInterface above = true

instance (w : World) : Decidable w.WellKinded :=
  decidable_of_iff (∀ id ∈ w.arena.ids,
    (∀ type ∈ (w.arena.get id).superType, ∀ above ∈ type.class?, w.arena.isInterface above = false) ∧
      ∀ type ∈ (w.arena.get id).interfaces, ∀ above ∈ type.class?, w.arena.isInterface above = true) <| by
    constructor
    · intro held
      constructor
      · intro id above given
        have listed : .cls above ∈ (w.arena.get id).supertypes := List.mem_append_left _ (by simp [given])
        exact (held id (Arena.mem_ids_iff.mpr (Arena.inside_of_supertype listed))).1 _ given above rfl
      · intro id above given
        have listed : .cls above ∈ (w.arena.get id).supertypes := List.mem_append_right _ given
        exact (held id (Arena.mem_ids_iff.mpr (Arena.inside_of_supertype listed))).2 _ given above rfl
    · intro kinds id _
      constructor
      · intro type given above named
        cases type with
        | cls id' =>
          cases named
          exact kinds.superclass id above given
        | _ => cases named
      · intro type given above named
        cases type with
        | cls id' =>
          cases named
          exact kinds.interfaces id above given
        | _ => cases named

instance (w : World) (root : ClassId) : Decidable (w.Rooted root) :=
  decidable_of_iff (root.index < w.arena.size ∧ (∀ id ∈ w.arena.ids, w.isRoot id = true ↔ id = root) ∧
    w.arena.isInterface root = false ∧ (w.arena.get root).supertypes = []) <| by
    constructor
    · rintro ⟨inside, isRoot, isClass, alone⟩
      exact ⟨inside, fun id known => isRoot id (Arena.mem_ids_iff.mpr known), isClass, alone⟩
    · rintro ⟨inside, isRoot, isClass, alone⟩
      exact ⟨inside, fun id listed => isRoot id (Arena.mem_ids_iff.mp listed), isClass, alone⟩

theorem under_class_iff : w.Under (.cls a) (.cls b) ↔ a = b ∨ w.isRoot b = true ∨ w.Climbs a b := by
  constructor
  · intro below
    cases below with
    | refl => exact .inl rfl
    | toRoot top => exact .inr (.inl top)
    | climbs chain => exact .inr (.inr chain)
  · rintro (rfl | top | chain)
    · exact .refl _
    · exact .toRoot top
    · exact .climbs chain

theorem Under.of_class (below : w.Under (.cls a) c) : ∃ above, c = .cls above := by
  cases below <;> exact ⟨_, rfl⟩

namespace Rooted

variable {root : ClassId} (rooted : w.Rooted root)
include rooted

theorem top : w.isRoot root = true := (rooted.isRoot root rooted.inside).mpr rfl

theorem climbs_none (above : ClassId) : ¬ w.Climbs root above := fun chain => rooted.inherits_none above chain.inherits

theorem eq_of_under (inside : a.index < w.arena.size) (above : w.Under (.cls root) (.cls a)) : a = root := by
  rcases under_class_iff.mp above with same | top | chain
  · exact same.symm
  · exact (rooted.isRoot a inside).mp top
  · exact (rooted.climbs_none a chain).elim

theorem under_trans (inside : b.index < w.arena.size) (first : w.Under (.cls a) (.cls b))
    (second : w.Under (.cls b) (.cls c)) : w.Under (.cls a) (.cls c) := by
  rcases under_class_iff.mp second with rfl | top | further
  · exact first
  · exact .toRoot top
  · rcases under_class_iff.mp first with rfl | top | chain
    · exact second
    · cases (rooted.isRoot b inside).mp top
      exact (rooted.climbs_none c further).elim
    · exact .climbs (Relation.TransGen.trans chain further)

theorem under_antisymm (acyclic : w.arena.Acyclic) (inside : a.index < w.arena.size) (inside' : b.index < w.arena.size)
    (first : w.Under (.cls a) (.cls b)) (second : w.Under (.cls b) (.cls a)) : a = b := by
  rcases under_class_iff.mp first with same | top | chain
  · exact same
  · cases (rooted.isRoot b inside').mp top
    exact rooted.eq_of_under inside second
  · rcases under_class_iff.mp second with same | top | back
    · exact same.symm
    · cases (rooted.isRoot a inside).mp top
      exact (rooted.climbs_none b chain).elim
    · exact (acyclic a (Relation.TransGen.trans chain.inherits back.inherits)).elim

end Rooted

/-- All supertypes are known, nothing inherits from itself, and everything stands below one root class. What the
interfaces of arrays inherit from are again interfaces of arrays. -/
structure Hierarchy (w : World) (root : ClassId) : Prop where
  resolved : ∀ id : ClassId, id.index < w.arena.size → w.hasStage id .supertypesResolved
  acyclic : w.arena.Acyclic
  superclass : ∀ id type, (w.arena.get id).superType = some type →
    ∃ above : ClassId, type = .cls above ∧ above.index < w.arena.size ∧ w.arena.isInterface above = false
  interfaces : ∀ id, ∀ type ∈ (w.arena.get id).interfaces,
    ∃ above : ClassId, type = .cls above ∧ above.index < w.arena.size ∧ w.arena.isInterface above = true
  interfaceSuper : ∀ id above, w.arena.isInterface id = true → (w.arena.get id).superType = some (.cls above) → above = root
  rootInside : root.index < w.arena.size
  isRoot : ∀ id : ClassId, id.index < w.arena.size → (w.isRoot id = true ↔ id = root)
  rootClass : w.arena.isInterface root = false
  rootAlone : (w.arena.get root).supertypes = []
  arrays : ∀ id above, w.isArrayInterface id = true → w.arena.Inherits id above →
    above = root ∨ w.isArrayInterface above = true

namespace Hierarchy

variable {root : ClassId}

theorem of_checks (grounded : w.Grounded) (kinds : w.WellKinded) (rooted : w.Rooted root)
    (interfaceSuper : ∀ id ∈ w.arena.ids, w.arena.isInterface id = true → ∀ type ∈ (w.arena.get id).superType, type = .cls root)
    (arrays : ∀ id ∈ w.arena.ids, w.isArrayInterface id = true → ∀ above ∈ w.arena.parents id,
      above = root ∨ w.isArrayInterface above = true) : w.Hierarchy root where
  __ := grounded
  superclass id type given := by
    obtain ⟨above, rfl, inside⟩ := grounded.supertypes id type (List.mem_append_left _ (Option.mem_toList.mpr given))
    exact ⟨above, rfl, inside, kinds.superclass id above given⟩
  interfaces id type given := by
    obtain ⟨above, rfl, inside⟩ := grounded.supertypes id type (List.mem_append_right _ given)
    exact ⟨above, rfl, inside, kinds.interfaces id above given⟩
  interfaceSuper id above interface given := by
    have inside := Arena.inside_of_supertype (List.mem_append_left _ (Option.mem_toList.mpr given))
    exact Ty.cls.inj (interfaceSuper id (Arena.mem_ids_iff.mpr inside) interface _ given)
  rootInside := rooted.inside
  isRoot := rooted.isRoot
  rootClass := rooted.isClass
  rootAlone := rooted.alone
  arrays id above held chain := by
    have step {id above : ClassId} (held : w.isArrayInterface id = true) (direct : above ∈ w.arena.parents id) :=
      arrays id (Arena.mem_ids_iff.mpr (Arena.inside_of_supertype (Arena.mem_parents.mp direct))) held above direct
    induction chain using Relation.TransGen.head_induction_on with
    | single direct => exact step held direct
    | head direct chain ih =>
      rcases step held direct with rfl | above
      · exact (rooted.inherits_none _ chain).elim
      · exact ih above

variable (hierarchy : w.Hierarchy root)
include hierarchy

theorem rooted : w.Rooted root := ⟨hierarchy.rootInside, hierarchy.isRoot, hierarchy.rootClass, hierarchy.rootAlone⟩

theorem grounded : w.Grounded where
  __ := hierarchy
  supertypes id type listed := by
    rcases List.mem_append.mp listed with super | interface
    · obtain ⟨above, rfl, inside, -⟩ := hierarchy.superclass id type (Option.mem_toList.mp super)
      exact ⟨above, rfl, inside⟩
    · obtain ⟨above, rfl, inside, -⟩ := hierarchy.interfaces id type interface
      exact ⟨above, rfl, inside⟩

theorem trans (known : b.KnownIn w.arena) (first : w.Under a b) (second : w.Under b c) : w.Under a c := by
  induction first generalizing c with
  | refl => exact second
  | nullArray base =>
    cases second with
    | refl => exact .nullArray base
    | array => exact .nullArray _
    | arrayClass => exact .nullClass _
  | nullClass id =>
    obtain ⟨above, rfl⟩ := second.of_class
    exact .nullClass above
  | array reference reference' below ih =>
    cases second with
    | refl => exact .array reference reference' below
    | array _ reference'' above => exact .array reference reference'' (ih known above)
    | arrayClass holds => exact .arrayClass holds
  | arrayClass holds =>
    cases second with
    | refl => exact .arrayClass holds
    | toRoot top => exact .arrayClass (.inl top)
    | climbs chain =>
      rcases holds with top | interface
      · cases (hierarchy.isRoot _ known).mp top
        exact (hierarchy.rooted.climbs_none _ chain).elim
      · rcases hierarchy.arrays _ _ interface chain.inherits with rfl | higher
        · exact .arrayClass (.inl hierarchy.rooted.top)
        · exact .arrayClass (.inr higher)
  | toRoot top =>
    obtain ⟨above, rfl⟩ := second.of_class
    exact hierarchy.rooted.under_trans known (.toRoot top) second
  | climbs chain =>
    obtain ⟨above, rfl⟩ := second.of_class
    exact hierarchy.rooted.under_trans known (.climbs chain) second

theorem antisymm (known : a.KnownIn w.arena) (known' : b.KnownIn w.arena) (first : w.Under a b) (second : w.Under b a) : a = b := by
  induction first with
  | refl => rfl
  | nullArray | nullClass | arrayClass => cases second
  | array _ _ below ih =>
    cases second with
    | refl => rfl
    | array _ _ above => rw [ih known known' above]
  | toRoot top =>
    exact congrArg Ty.cls (hierarchy.rooted.under_antisymm hierarchy.acyclic known known' (.toRoot top) second)
  | climbs chain =>
    exact congrArg Ty.cls (hierarchy.rooted.under_antisymm hierarchy.acyclic known known' (.climbs chain) second)

end Hierarchy

/-- Interfaces lead to interfaces only. -/
theorem WellKinded.climbs_interface (kinds : w.WellKinded)
    (interface : w.arena.isInterface id = true) (chain : w.Climbs id above) : w.arena.isInterface above = true := by
  have step {child parent : ClassId} (held : w.arena.isInterface child = true) (direct : .cls parent ∈ w.followed child) :
      w.arena.isInterface parent = true := by
    rw [followed, if_pos held] at direct
    exact kinds.interfaces child parent direct
  induction chain with
  | single direct => exact step interface direct
  | tail _ direct ih => exact step ih direct

/-- Between classes proper, chains follow superclasses. -/
theorem WellKinded.climbs_super (kinds : w.WellKinded) (isClass : w.arena.isInterface above = false)
    (chain : w.Climbs id above) :
    ∃ parent, (w.arena.get id).superType = some (.cls parent) ∧ w.Under (.cls parent) (.cls above) := by
  obtain ⟨type, listed, parent, rfl, leads⟩ := climbs_iff.mp chain
  rcases List.mem_append.mp (w.followed_subset id listed) with super | implemented
  · refine ⟨parent, Option.mem_toList.mp super, ?_⟩
    rcases leads with rfl | further
    · exact .refl _
    · exact .climbs further
  · have interface := kinds.interfaces id parent implemented
    rcases leads with rfl | further
    · simp [isClass] at interface
    · have above := kinds.climbs_interface interface further
      simp [isClass] at above

/-- Every class is complete, nothing inherits from itself, and members say where they are declared. -/
structure Initialised (w : World) : Prop where
  complete : ∀ id : ClassId, id.index < w.arena.size → ∀ stage, w.hasStage id stage
  acyclic : w.arena.Acyclic
  supertypes : ∀ id, ∀ type ∈ (w.arena.get id).supertypes, ∃ above : ClassId, type = .cls above ∧ above.index < w.arena.size
  outers : ∀ id outer, w.arena.outer? id = some outer → outer.index < w.arena.size
  fields : ∀ id, ∀ f ∈ (w.arena.get id).fields, f.container = .cls id
  methods : ∀ id, ∀ m ∈ (w.arena.get id).methods, m.container = .cls id ∧ ∀ formal ∈ m.formals, formal.KnownIn w.arena

theorem Initialised.grounded (initialised : w.Initialised) : w.Grounded where
  __ := initialised
  resolved id inside := initialised.complete id inside .supertypesResolved

/-- Classes that are complete and come after their supertypes and the classes around them. -/
def Arranged (w : World) : Prop := ∀ id ∈ w.arena.ids, (∀ stage ∈ Stage.all, w.hasStage id stage = true) ∧
  (∀ type ∈ (w.arena.get id).supertypes, (type.class?.any fun above => above.index < id.index) = true) ∧
  (∀ outer ∈ w.arena.outer? id, outer.index < id.index) ∧ (∀ f ∈ (w.arena.get id).fields, f.container = .cls id) ∧
  ∀ m ∈ (w.arena.get id).methods, m.container = .cls id ∧ ∀ formal ∈ m.formals, formal.KnownIn w.arena

instance (w : World) : Decidable w.Arranged := inferInstanceAs (Decidable (∀ id ∈ w.arena.ids, _))

theorem Arranged.initialised (arranged : w.Arranged) : w.Initialised := by
  have listed {id : ClassId} (inside : id.index < w.arena.size) := arranged id (Arena.mem_ids_iff.mpr inside)
  have stages (id : ClassId) (inside : id.index < w.arena.size) (stage : Stage) : w.hasStage id stage :=
    (listed inside).1 stage (by cases stage <;> decide)
  have grounded : w.Grounded := .of_earlier (fun id member => (arranged id member).1 _ (by decide)) fun id member =>
    (arranged id member).2.1
  have absent {id : ClassId} (outside : ¬ id.index < w.arena.size) : w.arena.get id = { name := "" } :=
    w.arena.get_absent (Nat.le_of_not_lt outside)
  refine ⟨stages, grounded.acyclic, grounded.supertypes, fun id outer around => ?_, fun id => ?_, fun id => ?_⟩
  · by_cases inside : id.index < w.arena.size
    · exact Nat.lt_trans ((listed inside).2.2.1 outer around) inside
    · simp [Arena.outer?, absent inside, ClassKind.outer?] at around
  · by_cases inside : id.index < w.arena.size
    · exact (listed inside).2.2.2.1
    · simp [absent inside]
  · by_cases inside : id.index < w.arena.size
    · exact (listed inside).2.2.2.2
    · simp [absent inside]

/-- The classes around a class are in the arena. -/
theorem Initialised.nest_inside (initialised : w.Initialised) (inside : id.index < w.arena.size) :
    ∀ other ∈ w.arena.nest id, other.index < w.arena.size := by
  have around {id : ClassId} {outers : List ClassId} (around : w.arena.Around id outers) :
      ∀ other ∈ outers, other.index < w.arena.size := by
    induction around with
    | done => simp
    | next encloses _ ih => exact List.forall_mem_cons.mpr ⟨initialised.outers _ _ encloses, ih⟩
  exact List.forall_mem_cons.mpr ⟨inside, around (w.arena.outersWithin_around id.index id)⟩

end World

namespace Loader

theorem object_known (found : l.object.on w = some (.ok root, after)) : after.root = some root := by
  unfold object at found
  rw [on_get_bind] at found
  split at found
  · rename_i known
    cases found
    exact known
  · rw [on_bind] at found
    split at found
    · cases found
    · cases found
      rfl
    · cases found

theorem on_object (known : w.root = some root) : l.object.on w = some (.ok root, w) := by
  unfold object
  rw [on_get_bind, known]
  rfl

theorem on_objectType (found : l.object.on w = some (.ok root, after)) :
    l.objectType.on w = some (.ok (.cls root), after) := by
  unfold objectType
  rw [on_bind_ok found]
  rfl

end Loader

/-- Subtyping of canonical types never fails, is a partial order, and agrees for classes with what they declare. -/
theorem isSubtype_declared_order {w : World} {root : ClassId} {depth : Nat} (hierarchy : w.Hierarchy root)
    (ample : w.arena.size < depth) :
    let Below (a b : Ty) : Prop := ((Loader.ofDepth depth).isSubtype a b).on w = some (.ok true, w)
    (∀ a b : Ty, a.KnownIn w.arena → b.KnownIn w.arena →
      ∃ answer, ((Loader.ofDepth depth).isSubtype a b).on w = some (.ok answer, w)) ∧
    (∀ a : Ty, a.KnownIn w.arena → Below a a) ∧
    (∀ a b c : Ty, a.KnownIn w.arena → b.KnownIn w.arena → c.KnownIn w.arena → Below a b → Below b c → Below a c) ∧
    (∀ a b : Ty, a.KnownIn w.arena → b.KnownIn w.arena → Below a b → Below b a → a = b) ∧
    ∀ a b : ClassId, a.index < w.arena.size → b.index < w.arena.size →
      (Below (.cls a) (.cls b) ↔ a = b ∨ b = root ∨ w.arena.Inherits a b) := by
  intro Below
  obtain ⟨depth, rfl⟩ : ∃ smaller, depth = smaller + 1 := ⟨depth - 1, by omega⟩
  have decides {a b : Ty} (known : a.KnownIn w.arena) (known' : b.KnownIn w.arena) :=
    Loader.isSubtype_under hierarchy.grounded (Nat.le_of_lt_succ ample) known known'.canonical
  have below {a b : Ty} (known : a.KnownIn w.arena) (known' : b.KnownIn w.arena) : Below a b ↔ w.Under a b :=
    (decides known known').true_iff
  refine ⟨fun a b known known' => ?_, fun a known => ?_, fun a b c ka kb kc first second => ?_,
    fun a b known known' first second => ?_, fun a b inside inside' => ?_⟩
  · obtain ⟨answer, ran, -⟩ := decides known known'
    exact ⟨answer, ran⟩
  · exact (below known known).mpr (.refl a)
  · exact (below ka kc).mpr (hierarchy.trans kb ((below ka kb).mp first) ((below kb kc).mp second))
  · exact hierarchy.antisymm known known' ((below known known').mp first) ((below known' known).mp second)
  · rw [below (a := .cls a) (b := .cls b) inside inside', World.under_class_iff, hierarchy.isRoot b inside']
    refine or_congr_right ⟨Or.imp_right World.Climbs.inherits, ?_⟩
    rintro (top | chain)
    · exact .inl top
    · exact hierarchy.rooted.climbs_of_inherits hierarchy.interfaceSuper chain

/-- A class is below the interfaces of arrays through its superclass and an interface. -/
theorem isSubtype_declared_order_six :
    let stages := Stages.none.add .supertypesResolved
    let interface := Flags.ofList [.interface]
    let w : World := { World.ofUniverse {} {} with arena := ⟨#[
      { name := "Object", package := some ⟨"java.lang"⟩, stages },
      { name := "Serializable", package := some ⟨"java.io"⟩, flags := interface, superType := some (.cls ⟨0⟩), stages },
      { name := "Cloneable", package := some ⟨"java.lang"⟩, flags := interface, interfaces := [.cls ⟨1⟩], stages },
      { name := "I", flags := interface, interfaces := [.cls ⟨2⟩], stages },
      { name := "A", superType := some (.cls ⟨0⟩), interfaces := [.cls ⟨3⟩], stages },
      { name := "B", superType := some (.cls ⟨4⟩), stages }]⟩ }
    let Below (a b : Ty) : Prop := ((Loader.ofDepth 7).isSubtype a b).on w = some (.ok true, w)
    (w.Hierarchy ⟨0⟩ ∧ w.arena.size < 7) ∧ Below (.cls ⟨5⟩) (.cls ⟨1⟩) ∧ ¬ Below (.cls ⟨1⟩) (.cls ⟨5⟩) ∧
      Below .null (.cls ⟨1⟩) := by
  intro stages interface w Below
  have hierarchy : w.Hierarchy ⟨0⟩ :=
    .of_checks (.of_earlier (by decide) (by decide)) (by decide) (by decide +kernel) (by decide) (by decide +kernel)
  obtain ⟨-, -, trans, antisymm, classes⟩ := isSubtype_declared_order hierarchy (show w.arena.size < 7 by decide)
  have inside (index : Nat) (small : index < 6) : (Ty.cls ⟨index⟩).KnownIn w.arena := small
  have chain : w.arena.Inherits ⟨5⟩ ⟨1⟩ :=
    .head (b := ⟨4⟩) (by decide) (.head (b := ⟨3⟩) (by decide) (.head (b := ⟨2⟩) (by decide) (.single (by decide))))
  have below : Below (.cls ⟨5⟩) (.cls ⟨1⟩) := (classes ⟨5⟩ ⟨1⟩ (by decide) (by decide)).mpr (.inr (.inr chain))
  refine ⟨⟨hierarchy, by decide⟩, below, fun above => ?_, ?_⟩
  · cases antisymm _ _ (inside 5 (by decide)) (inside 1 (by decide)) below above
  · exact trans .null (.cls ⟨5⟩) (.cls ⟨1⟩) trivial (inside 5 (by decide)) (inside 1 (by decide)) rfl below

end ClassUniverse
