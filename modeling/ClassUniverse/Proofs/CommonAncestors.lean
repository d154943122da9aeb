import ClassUniverse.Ancestor
import ClassUniverse.Proofs.Hierarchies

/-! Least common ancestors. The search climbs from both types at once and falls back to the root class when its two
halves disagree. Superclasses form a tree, so for classes the halves never disagree, and what they find is the least
class above both. -/
namespace ClassUniverse

open Run

variable {l : Loader} {id : ClassId}

/-- How many times the type is an array. -/
def Ty.dimensions : Ty → Nat
  | .array base => base.dimensions + 1
  | _ => 0

namespace World

/-- The least class above two classes. -/
structure Joins (w : World) (a b above : ClassId) : Prop where
  inside : above.index < w.arena.size
  isClass : w.arena.isInterface above = false
  left : w.Under (.cls a) (.cls above)
  right : w.Under (.cls b) (.cls above)
  least : ∀ c : ClassId, w.arena.isInterface c = false → w.Under (.cls a) (.cls c) → w.Under (.cls b) (.cls c) →
    w.Under (.cls above) (.cls c)

namespace Joins

variable {w : World} {root : ClassId}

theorem symm (joins : w.Joins a b above) : w.Joins b a above where
  __ := joins
  left := joins.right
  right := joins.left
  least c isClass left right := joins.least c isClass right left

theorem of_under (inside : b.index < w.arena.size) (isClass : w.arena.isInterface b = false)
    (below : w.Under (.cls a) (.cls b)) : w.Joins a b b where
  inside := inside
  isClass := isClass
  left := below
  right := .refl _
  least _ _ _ right := right

theorem unique (rooted : w.Rooted root) (acyclic : w.arena.Acyclic) (joins : w.Joins a b above)
    (joins' : w.Joins a b other) : above = other :=
  rooted.under_antisymm acyclic joins.inside joins'.inside (joins.least other joins'.isClass joins'.left joins'.right)
    (joins'.least above joins.isClass joins.left joins.right)

theorem of_super (rooted : w.Rooted root) (kinds : w.WellKinded) (apart : ¬ w.Under (.cls b) (.cls a))
    (inside : parent.index < w.arena.size) (upward : w.Under (.cls a) (.cls parent))
    (super : (w.arena.get a).superType = some (.cls parent) ∨ (w.arena.get a).superType = none)
    (joins : w.Joins parent b above) : w.Joins a b above where
  __ := joins
  left := rooted.under_trans inside upward joins.left
  least c isClass left right := by
    rcases under_class_iff.mp left with rfl | top | chain
    · exact absurd right apart
    · exact .toRoot top
    · obtain ⟨first, declared, leads⟩ := kinds.climbs_super isClass chain
      rcases super with given | none
      · cases given.symm.trans declared
        exact joins.least c isClass leads right
      · cases none.symm.trans declared

end Joins

/-- The least type that the search knows above a class and an array. -/
def arrayBound (w : World) (root id : ClassId) : ClassId :=
  if w.arena.isInterface id = false ∧ w.isArrayInterface id = true then id else root

/-- A hierarchy whose root class has been looked up. -/
structure Crowned (w : World) (root : ClassId) : Prop extends w.Grounded, w.WellKinded, w.Rooted root where
  known : w.root = some root

theorem arrayBound_high {w : World} {root : ClassId} (high : w.arena.isInterface id = true ∨ id = root) :
    w.arrayBound root id = root := by
  unfold arrayBound
  split
  · rename_i holds
    rcases high with interface | same
    · simp [interface] at holds
    · exact same
  · rfl

theorem Crowned.arrayBound_above {w : World} {root : ClassId} (crowned : w.Crowned root)
    (inside : id.index < w.arena.size) (base : Ty) : (w.arrayBound root id).index < w.arena.size ∧
      w.Under (.cls id) (.cls (w.arrayBound root id)) ∧ w.Under (.array base) (.cls (w.arrayBound root id)) := by
  unfold arrayBound
  split
  · rename_i holds
    exact ⟨inside, .refl _, .arrayClass (.inr holds.2)⟩
  · exact ⟨crowned.inside, .toRoot crowned.top, .arrayClass (.inl crowned.top)⟩

end World

namespace Loader

variable {w : World} {depth : Nat}

theorem on_superOf_array (known : w.root = some root) :
    (l.superOf (.array base)).on w = some (.ok (.cls root), w) := on_objectType (on_object known)

theorem on_superOf (depth : Nat) (crowned : w.Crowned root) (inside : id.index < w.arena.size)
    (isClass : w.arena.isInterface id = false) (other : id ≠ root) :
    ∃ parent : ClassId, ((ofDepth (depth + 1)).superOf (.cls id)).on w = some (.ok (.cls parent), w) ∧
      parent.index < w.arena.size ∧ w.arena.isInterface parent = false ∧ w.Under (.cls id) (.cls parent) ∧
      ((w.arena.get id).superType = some (.cls parent) ∨ (w.arena.get id).superType = none ∧ parent = root) := by
  have superType : ((ofDepth (depth + 1)).superType id).on w = some (.ok (w.arena.get id).superType, w) :=
    on_staged depth (crowned.resolved id inside) (·.superType)
  cases given : (w.arena.get id).superType with
  | none =>
    refine ⟨root, ?_, crowned.inside, crowned.isClass, .toRoot crowned.top, .inr ⟨rfl, rfl⟩⟩
    rw [given] at superType
    exact (on_bind_ok superType).trans (on_objectType (on_object crowned.known))
  | some type =>
    have listed : type ∈ (w.arena.get id).supertypes := List.mem_append_left _ (by simp [given])
    obtain ⟨parent, rfl, above⟩ := crowned.supertypes id type listed
    rw [given] at superType
    refine ⟨parent, on_bind_ok superType, above, crowned.superclass id parent given, .climbs (.single ?_), .inl rfl⟩
    have notRoot : w.isRoot id = false := by
      rw [Bool.eq_false_iff, ne_eq, crowned.isRoot id inside]
      exact other
    simpa [World.followed, isClass, notRoot] using listed

theorem commonAncestorWithin_self (canonical : a.isCanonical = true) :
    (l.commonAncestorWithin (steps + 1) a a).on w = some (.ok a, w) := by
  unfold commonAncestorWithin
  rw [on_bind_ok (on_requireCanonical canonical), on_bind_ok (on_requireCanonical canonical), if_pos rfl]
  rfl

/-- Two types of which at least one is a class, and the other a class or an array. -/
theorem commonAncestorWithin_reference (canonical : a.isCanonical = true)
    (canonical' : b.isCanonical = true) (apart : a ≠ b) (reference : a.isReference = true ∧ b.isReference = true)
    (present : a.isNull = false ∧ b.isNull = false) (single : a.base? = none ∨ b.base? = none) :
    (l.commonAncestorWithin (steps + 1) a b).on w = (l.commonReference (l.commonAncestorWithin steps) a b).on w := by
  unfold commonAncestorWithin
  rw [on_bind_ok (on_requireCanonical canonical), on_bind_ok (on_requireCanonical canonical')]
  cases a <;> cases b <;> simp_all [Ty.isReference, Ty.base?, Ty.isNull]

/-- With an interface or the root class on either side the answer is the root class. -/
theorem commonReference_root (known : w.root = some root)
    (high : (a.class?.any w.arena.isInterface || b.class?.any w.arena.isInterface) = true ∨ a = .cls root ∨ b = .cls root) :
    (l.commonReference common a b).on w = some (.ok (.cls root), w) := by
  unfold commonReference
  rw [on_bind_ok (on_objectType (on_object known)), on_bind_ok (show Run.arena.on w = some (.ok w.arena, w) from rfl)]
  by_cases interface : (a.class?.any w.arena.isInterface || b.class?.any w.arena.isInterface) = true
  · simp only [interface, if_true]
    rfl
  · simp only [interface]
    by_cases left : a = .cls root
    · subst left
      simp only [if_true]
      rfl
    · obtain rfl : b = .cls root := (high.resolve_left interface).resolve_left left
      simp only [if_neg left, if_true]
      rfl

/-- The search between two types other than the root class, none of which is an interface. -/
theorem on_commonReference (known : w.root = some root)
    (left : a.class?.any w.arena.isInterface = false) (right : b.class?.any w.arena.isInterface = false)
    (other : a ≠ .cls root) (other' : b ≠ .cls root) (below : (l.isSubtype a b).on w = some (.ok down, w))
    (above : (l.isSubtype b a).on w = some (.ok up, w)) :
    (l.commonReference common a b).on w =
      if down then some (.ok b, w) else if up then some (.ok a, w)
      else (do
        let first ← common (← l.superOf a) b
        let second ← common (← l.superOf b) a
        return if first = second then first else .cls root : Run Ty).on w := by
  unfold commonReference
  rw [on_bind_ok (on_objectType (on_object known)), on_bind_ok (show Run.arena.on w = some (.ok w.arena, w) from rfl)]
  simp only [left, right, Bool.or_self, Bool.false_eq_true, if_false, if_neg other, if_neg other']
  rw [on_bind_ok below]
  cases down with
  | true => rfl
  | false =>
    simp only [Bool.false_eq_true, if_false]
    rw [on_bind_ok above]
    cases up <;> rfl

section Search

variable (crowned : w.Crowned root) (ample : w.arena.size ≤ depth)
include crowned

theorem commonAncestorWithin_root (depth steps : Nat) (known : b.KnownIn w.arena) (reference : b.isReference = true)
    (present : b.isNull = false) :
    ((ofDepth (depth + 1)).commonAncestorWithin (steps + 1) (.cls root) b).on w = some (.ok (.cls root), w) := by
  by_cases same : .cls root = b
  · exact same ▸ commonAncestorWithin_self rfl
  · rw [commonAncestorWithin_reference (a := .cls root) rfl known.canonical same ⟨rfl, reference⟩ ⟨rfl, present⟩ (.inl rfl)]
    exact commonReference_root crowned.known (.inr (.inl rfl))

include ample

/-- For classes the two halves of the search agree, since both find the least class above. -/
theorem commonAncestorWithin_classes {a b : ClassId}
    (trail : w.Passed a passed) (trail' : w.Passed b passed') (isClass : w.arena.isInterface a = false)
    (isClass' : w.arena.isInterface b = false) (enough : 2 * w.arena.size ≤ steps + passed.length + passed'.length) :
    ∃ above, ((ofDepth (depth + 1)).commonAncestorWithin steps (.cls a) (.cls b)).on w = some (.ok (.cls above), w) ∧
      w.Joins a b above := by
  induction steps generalizing a b passed passed' with
  | zero =>
    have bound := trail.bound crowned.acyclic
    have bound' := trail'.bound crowned.acyclic
    omega
  | succ steps ih =>
    have half {a b : ClassId} {passed passed' : List ClassId} (trail : w.Passed a passed) (trail' : w.Passed b passed')
        (isClass : w.arena.isInterface a = false) (isClass' : w.arena.isInterface b = false) (other : a ≠ root)
        (apart : ¬ w.Under (.cls b) (.cls a)) (enough : 2 * w.arena.size ≤ steps + 1 + passed.length + passed'.length) :
        ∃ parent above, ((ofDepth (depth + 1)).superOf (.cls a)).on w = some (.ok parent, w) ∧
          ((ofDepth (depth + 1)).commonAncestorWithin steps parent (.cls b)).on w = some (.ok (.cls above), w) ∧
          w.Joins a b above := by
      obtain ⟨parent, ran, inside, parentClass, upward, super⟩ := on_superOf depth crowned trail.here isClass other
      rcases super with super | ⟨none, rfl⟩
      · obtain ⟨above, found, joins⟩ := ih (trail.step crowned.acyclic inside super) trail' parentClass isClass' (by
          rw [List.length_cons]
          omega)
        exact ⟨_, above, ran, found, joins.of_super crowned.toRooted crowned.toWellKinded apart inside upward (.inl super)⟩
      · have bound := trail.bound crowned.acyclic
        have bound' := trail'.bound crowned.acyclic
        obtain ⟨fewer, rfl⟩ : ∃ fewer, steps = fewer + 1 := ⟨steps - 1, by omega⟩
        have joins : w.Joins parent b parent := (World.Joins.of_under inside parentClass (.toRoot crowned.top)).symm
        refine ⟨_, parent, ran, commonAncestorWithin_root crowned depth fewer trail'.here rfl rfl, ?_⟩
        exact joins.of_super crowned.toRooted crowned.toWellKinded apart inside upward (.inr none)
    by_cases same : a = b
    · subst same
      exact ⟨a, commonAncestorWithin_self rfl, .of_under trail.here isClass (.refl _)⟩
    by_cases left : a = root
    · subst left
      refine ⟨a, commonAncestorWithin_root crowned depth steps trail'.here rfl rfl, ?_⟩
      exact (World.Joins.of_under trail.here isClass (.toRoot crowned.top)).symm
    have apart : Ty.cls a ≠ .cls b := fun equal => same (Ty.cls.inj equal)
    rw [commonAncestorWithin_reference (a := .cls a) (b := .cls b) rfl rfl apart ⟨rfl, rfl⟩ ⟨rfl, rfl⟩ (.inl rfl)]
    by_cases right : b = root
    · subst right
      refine ⟨b, commonReference_root crowned.known (.inr (.inr rfl)), ?_⟩
      exact .of_under trail'.here isClass' (.toRoot crowned.top)
    obtain ⟨down, below, downward⟩ :=
      isSubtype_under crowned.toGrounded ample (a := .cls a) (b := .cls b) trail.here rfl
    obtain ⟨up, above, upward⟩ := isSubtype_under crowned.toGrounded ample (a := .cls b) (b := .cls a) trail'.here rfl
    rw [on_commonReference (a := .cls a) (b := .cls b) crowned.known isClass isClass'
      (fun equal => left (Ty.cls.inj equal)) (fun equal => right (Ty.cls.inj equal)) below above]
    cases down with
    | true => exact ⟨b, rfl, .of_under trail'.here isClass' (downward.mp rfl)⟩
    | false =>
      cases up with
      | true => exact ⟨a, rfl, (World.Joins.of_under trail.here isClass (upward.mp rfl)).symm⟩
      | false =>
        obtain ⟨parent, first, super, found, joins⟩ := half trail trail' isClass isClass' left (by simpa using upward) enough
        obtain ⟨parent', second, super', found', joins'⟩ := half trail' trail isClass' isClass right (by simpa using downward)
          (by omega)
        cases joins.unique crowned.toRooted crowned.acyclic joins'.symm
        refine ⟨first, ?_, joins⟩
        rw [on_bind_ok super, on_bind_ok found, on_bind_ok super', on_bind_ok found', if_pos rfl]
        rfl

/-- Only a class that can hold arrays has an array below it. -/
theorem isSubtype_array_class (inside : id.index < w.arena.size) (known : base.KnownIn w.arena)
    (isClass : w.arena.isInterface id = false) (other : id ≠ root) :
    ((ofDepth (depth + 1)).isSubtype (.cls id) (.array base)).on w = some (.ok false, w) ∧
      ∃ holds, ((ofDepth (depth + 1)).isSubtype (.array base) (.cls id)).on w = some (.ok holds, w) ∧
        .cls (w.arrayBound root id) = if holds then Ty.cls id else .cls root := by
  obtain ⟨down, below, downward⟩ :=
    isSubtype_under crowned.toGrounded ample (a := .cls id) (b := .array base) inside known.canonical
  obtain ⟨up, above, upward⟩ := isSubtype_under crowned.toGrounded ample (a := .array base) (b := .cls id) known rfl
  obtain rfl : down = false := by
    rw [Bool.eq_false_iff, ne_eq, downward]
    nofun
  have holds : up = true ↔ w.isArrayInterface id = true := by
    rw [upward]
    constructor
    · intro under
      cases under with
      | arrayClass holds => exact holds.resolve_left fun top => other ((crowned.isRoot id inside).mp top)
    · exact fun named => .arrayClass (.inr named)
  refine ⟨below, up, above, ?_⟩
  cases up <;> simp_all [World.arrayBound]

/-- Between a class and an array there is the class itself, if it can hold arrays, or else the root class. -/
theorem commonAncestorWithin_class_array
    (trail : w.Passed id passed) (known : base.KnownIn w.arena) (enough : w.arena.size < steps + passed.length) :
    ((ofDepth (depth + 1)).commonAncestorWithin steps (.cls id) (.array base)).on w =
        some (.ok (.cls (w.arrayBound root id)), w) ∧
      ((ofDepth (depth + 1)).commonAncestorWithin steps (.array base) (.cls id)).on w =
        some (.ok (.cls (w.arrayBound root id)), w) := by
  induction steps generalizing id passed with
  | zero =>
    have bound := trail.bound crowned.acyclic
    omega
  | succ steps ih =>
    rw [commonAncestorWithin_reference (a := .cls id) (b := .array base) rfl known.canonical nofun ⟨rfl, rfl⟩ ⟨rfl, rfl⟩ (.inl rfl),
      commonAncestorWithin_reference (a := .array base) (b := .cls id) known.canonical rfl nofun ⟨rfl, rfl⟩ ⟨rfl, rfl⟩ (.inr rfl)]
    by_cases high : w.arena.isInterface id = true ∨ id = root
    · rw [World.arrayBound_high high]
      constructor <;> exact commonReference_root crowned.known (by simpa [Ty.class?] using high)
    obtain ⟨isClass, other⟩ := not_or.mp high
    rw [Bool.not_eq_true] at isClass
    have apart : Ty.cls id ≠ .cls root := fun equal => other (Ty.cls.inj equal)
    obtain ⟨below, holds, above, bound⟩ := isSubtype_array_class crowned ample trail.here known isClass other
    have bounded := trail.bound crowned.acyclic
    obtain ⟨steps, rfl⟩ : ∃ fewer, steps = fewer + 1 := ⟨steps - 1, by omega⟩
    have back := commonAncestorWithin_root crowned depth steps (b := .cls id) trail.here rfl rfl
    obtain ⟨parent, super, inside, -, -, declared⟩ := on_superOf depth crowned trail.here isClass other
    obtain ⟨first, found⟩ : ∃ first, ((ofDepth (depth + 1)).commonAncestorWithin (steps + 1) (.cls parent) (.array base)).on w =
        some (.ok (.cls first), w) := by
      rcases declared with declared | ⟨-, rfl⟩
      · refine ⟨_, (ih (trail.step crowned.acyclic inside declared) ?_).1⟩
        rw [List.length_cons]
        omega
      · exact ⟨_, commonAncestorWithin_root crowned depth steps (b := .array base) known rfl rfl⟩
    rw [on_commonReference (a := .cls id) (b := .array base) crowned.known isClass rfl apart nofun below above,
      on_commonReference (a := .array base) (b := .cls id) crowned.known rfl isClass nofun apart above below, bound]
    cases holds with
    | true => exact ⟨rfl, rfl⟩
    | false =>
      rw [on_bind_ok super, on_bind_ok found, on_bind_ok (on_superOf_array crowned.known), on_bind_ok back,
        on_bind_ok (on_superOf_array crowned.known), on_bind_ok back, on_bind_ok super, on_bind_ok found, ite_self]
      have same : (if Ty.cls first = .cls root then Ty.cls first else .cls root) = .cls root :=
        ite_eq_right_iff.mpr fun equal => equal
      rw [same]
      exact ⟨rfl, rfl⟩

end Search

/-- Before the root class is known, the first thing that the search does is to look it up. -/
theorem commonReference_cold (found : l.object.on w = some (.ok root, after)) :
    (l.commonReference common a b).on w = (l.commonReference common a b).on after := by
  unfold commonReference
  rw [on_bind_ok (on_objectType found), on_bind_ok (on_objectType (on_object (object_known found)))]

end Loader

/-- Null, a known class, or an array whose innermost element is no package. -/
structure Ty.Comparable (arena : Arena) (type : Ty) : Prop where
  known : type.KnownIn arena
  reference : type.isReference = true
  element : ∀ package, type.ultimateBase ≠ .package package

theorem Ty.Comparable.base {arena : Arena} {base : Ty} (comparable : (array base).Comparable arena)
    (solid : base.isPrimitive = false) : base.Comparable arena := by
  refine ⟨comparable.known, ?_, comparable.element⟩
  cases base with
  | primitive kind => cases solid
  | package name => exact (comparable.element name rfl).elim
  | unknown name => exact comparable.known.elim
  | _ => rfl

namespace Loader

/-- The search between two types finds one above both, in either order. It may look up the root class on its way. -/
structure Meets (l : Loader) (w after : World) (steps : Nat) (a b above : Ty) : Prop where
  known : above.KnownIn after.arena
  reference : above.isReference = true
  left : after.Under a above
  right : after.Under b above
  forward : ∃ left, (l.commonAncestorWithin steps a b).on w = some (.ok above, left) ∧ (left = w ∨ left = after)
  backward : ∃ left, (l.commonAncestorWithin steps b a).on w = some (.ok above, left) ∧ (left = w ∨ left = after)

theorem Meets.symm (meets : l.Meets w after steps a b above) : l.Meets w after steps b a above where
  __ := meets
  left := meets.right
  right := meets.left
  forward := meets.backward
  backward := meets.forward

section Meeting

variable {depth : Nat}

theorem Meets.unique {above other : Ty} (meets : l.Meets w after steps a b above)
    (meets' : l.Meets w after steps a b other) : above = other := by
  obtain ⟨left, ran, -⟩ := meets.forward
  obtain ⟨left', ran', -⟩ := meets'.forward
  cases ran.symm.trans ran'
  rfl

theorem meets_self (comparable : a.Comparable after.arena) : l.Meets w after (steps + 1) a a a where
  __ := comparable
  left := .refl a
  right := .refl a
  forward := ⟨w, commonAncestorWithin_self comparable.known.canonical, .inl rfl⟩
  backward := ⟨w, commonAncestorWithin_self comparable.known.canonical, .inl rfl⟩

theorem meets_null (comparable : b.Comparable after.arena) : l.Meets w after (steps + 1) .null b b := by
  by_cases same : b = .null
  · subst same
    exact meets_self comparable
  have below : after.Under .null b := by
    cases b with
    | array base => exact .nullArray base
    | cls id => exact .nullClass id
    | null => exact absurd rfl same
    | _ => cases comparable.reference
  have canonical := comparable.known.canonical
  have reference := comparable.reference
  refine ⟨comparable.known, reference, below, .refl b, ⟨w, ?_, .inl rfl⟩, ⟨w, ?_, .inl rfl⟩⟩
  · unfold commonAncestorWithin
    rw [on_bind_ok (on_requireCanonical rfl), on_bind_ok (on_requireCanonical canonical), if_neg (Ne.symm same)]
    cases b <;> first | rfl | cases reference
  · unfold commonAncestorWithin
    rw [on_bind_ok (on_requireCanonical canonical), on_bind_ok (on_requireCanonical rfl), if_neg same]
    cases b <;> first | rfl | cases reference

/-- The search between two arrays goes on between what they hold, unless that is primitive. -/
theorem on_commonAncestorWithin_arrays (l : Loader) (w : World) (steps : Nat) {other : Ty}
    (canonical : (Ty.array base).isCanonical = true) (canonical' : (Ty.array other).isCanonical = true) (apart : base ≠ other) :
    (l.commonAncestorWithin (steps + 1) (.array base) (.array other)).on w =
      (if base.isPrimitive || other.isPrimitive then l.objectType
        else do return .array (← l.commonAncestorWithin steps base other) : Run Ty).on w := by
  have apart : Ty.array base ≠ .array other := fun equal => apart (Ty.array.inj equal)
  conv_lhs => unfold commonAncestorWithin
  rw [on_bind_ok (on_requireCanonical canonical), on_bind_ok (on_requireCanonical canonical'), if_neg apart]

variable (found : (ofDepth (depth + 1)).object.on w = some (.ok root, after)) (crowned : after.Crowned root)
include found

/-- What is found in the world that knows its root class is found in the world before. -/
theorem meets_of_known (inside : above.index < after.arena.size) (comparable : a.Comparable after.arena)
    (comparable' : b.Comparable after.arena) (apart : a ≠ b) (present : a.isNull = false ∧ b.isNull = false)
    (single : a.base? = none ∨ b.base? = none)
    (left : after.Under a (.cls above)) (right : after.Under b (.cls above))
    (forward : ((ofDepth (depth + 1)).commonAncestorWithin (steps + 1) a b).on after = some (.ok (.cls above), after))
    (backward : ((ofDepth (depth + 1)).commonAncestorWithin (steps + 1) b a).on after = some (.ok (.cls above), after)) :
    (ofDepth (depth + 1)).Meets w after (steps + 1) a b (.cls above) := by
  have canonical := comparable.known.canonical
  have canonical' := comparable'.known.canonical
  refine ⟨inside, rfl, left, right, ⟨after, ?_, .inr rfl⟩, ⟨after, ?_, .inr rfl⟩⟩
  · have references := And.intro comparable.reference comparable'.reference
    rw [commonAncestorWithin_reference canonical canonical' apart references present single] at forward ⊢
    rw [commonReference_cold found, forward]
  · have references := And.intro comparable'.reference comparable.reference
    rw [commonAncestorWithin_reference canonical' canonical apart.symm references present.symm single.symm] at backward ⊢
    rw [commonReference_cold found, backward]

include crowned

theorem meets_class_array (ample : after.arena.size ≤ depth)
    (inside : id.index < after.arena.size) (comparable : (Ty.array base).Comparable after.arena)
    (enough : after.arena.size ≤ steps) :
    (ofDepth (depth + 1)).Meets w after (steps + 1) (.cls id) (.array base) (.cls (after.arrayBound root id)) := by
  have known : base.KnownIn after.arena := comparable.known
  obtain ⟨forward, backward⟩ :=
    commonAncestorWithin_class_array crowned ample (.start inside) known (Nat.lt_succ_of_le enough)
  obtain ⟨bound, left, right⟩ := crowned.arrayBound_above inside base
  exact meets_of_known found bound ⟨inside, rfl, nofun⟩ comparable nofun ⟨rfl, rfl⟩ (.inl rfl) left right forward backward

theorem meets_classes (ample : after.arena.size ≤ depth) (inside : id.index < after.arena.size)
    (inside' : other.index < after.arena.size) (enough : 2 * after.arena.size ≤ steps + 1) :
    ∃ above, (ofDepth (depth + 1)).Meets w after (steps + 1) (.cls id) (.cls other) (.cls above) ∧
      (after.arena.isInterface id = false → after.arena.isInterface other = false → after.Joins id other above) := by
  by_cases same : id = other
  · subst same
    exact ⟨id, meets_self ⟨inside, rfl, nofun⟩, fun isClass _ => .of_under inside isClass (.refl _)⟩
  have apart : Ty.cls id ≠ .cls other := fun equal => same (Ty.cls.inj equal)
  have meets (above : ClassId) :
      above.index < after.arena.size → _ → _ → _ → _ →
        (ofDepth (depth + 1)).Meets w after (steps + 1) (.cls id) (.cls other) (.cls above) :=
    fun known => meets_of_known found known ⟨inside, rfl, nofun⟩ ⟨inside', rfl, nofun⟩ apart ⟨rfl, rfl⟩ (.inl rfl)
  cases interface : after.arena.isInterface id || after.arena.isInterface other with
  | false =>
    rw [Bool.or_eq_false_iff] at interface
    obtain ⟨above, forward, joins⟩ := commonAncestorWithin_classes crowned ample (.start inside) (.start inside') interface.1
      interface.2 enough
    obtain ⟨again, backward, joins'⟩ := commonAncestorWithin_classes crowned ample (.start inside') (.start inside)
      interface.2 interface.1 enough
    cases joins.unique crowned.toRooted crowned.acyclic joins'.symm
    exact ⟨above, meets above joins.inside joins.left joins.right forward backward, fun _ _ => joins⟩
  | true =>
    refine ⟨root, meets root crowned.inside (.toRoot crowned.top) (.toRoot crowned.top) ?_ ?_, fun left right => ?_⟩
    · rw [commonAncestorWithin_reference (a := .cls id) (b := .cls other) rfl rfl apart ⟨rfl, rfl⟩ ⟨rfl, rfl⟩ (.inl rfl)]
      exact commonReference_root crowned.known (.inl interface)
    · rw [commonAncestorWithin_reference (a := .cls other) (b := .cls id) rfl rfl apart.symm ⟨rfl, rfl⟩ ⟨rfl, rfl⟩ (.inl rfl)]
      refine commonReference_root crowned.known (.inl ?_)
      rw [Bool.or_comm]
      exact interface
    · simp [left, right] at interface

/-- Two arrays meet in the root class if either holds primitive values, and else in an array. -/
theorem meets_arrays {other : Ty} (comparable : (Ty.array base).Comparable after.arena)
    (comparable' : (Ty.array other).Comparable after.arena)
    (bases : base.Comparable after.arena → other.Comparable after.arena →
      ∃ above, (ofDepth (depth + 1)).Meets w after steps base other above) :
    ∃ above, (ofDepth (depth + 1)).Meets w after (steps + 1) (.array base) (.array other) above := by
  by_cases same : base = other
  · subst same
    exact ⟨_, meets_self comparable⟩
  have forward := (ofDepth (depth + 1)).on_commonAncestorWithin_arrays w steps comparable.known.canonical
    comparable'.known.canonical same
  have backward := (ofDepth (depth + 1)).on_commonAncestorWithin_arrays w steps comparable'.known.canonical
    comparable.known.canonical (Ne.symm same)
  rw [Bool.or_comm] at backward
  cases mixed : base.isPrimitive || other.isPrimitive with
  | true =>
    rw [mixed, if_pos rfl, on_objectType found] at forward backward
    exact ⟨.cls root, crowned.inside, rfl, .arrayClass (.inl crowned.top), .arrayClass (.inl crowned.top),
      ⟨after, forward, .inr rfl⟩, ⟨after, backward, .inr rfl⟩⟩
  | false =>
    rw [mixed, if_neg Bool.false_ne_true] at forward backward
    rw [Bool.or_eq_false_iff] at mixed
    have inner := comparable.base mixed.1
    have inner' := comparable'.base mixed.2
    obtain ⟨above, meets⟩ := bases inner inner'
    obtain ⟨left, first, either⟩ := meets.forward
    obtain ⟨left', second, either'⟩ := meets.backward
    exact ⟨.array above, meets.known, rfl, .array inner.reference meets.reference meets.left,
      .array inner'.reference meets.reference meets.right, ⟨left, forward.trans (on_bind_ok first), either⟩,
      ⟨left', backward.trans (on_bind_ok second), either'⟩⟩

theorem meets_comparable (ample : after.arena.size ≤ depth) (comparable : a.Comparable after.arena)
    (comparable' : b.Comparable after.arena) (enough : a.dimensions + 2 * after.arena.size ≤ steps) :
    ∃ above, (ofDepth (depth + 1)).Meets w after (steps + 1) a b above := by
  induction a generalizing b steps with
  | null => exact ⟨b, meets_null comparable'⟩
  | cls id =>
    cases b with
    | null => exact ⟨.cls id, (meets_null comparable).symm⟩
    | cls other =>
      have enough : 2 * after.arena.size ≤ steps + 1 := by omega
      obtain ⟨above, meets, -⟩ := meets_classes found crowned ample comparable.known comparable'.known enough
      exact ⟨_, meets⟩
    | array base => exact ⟨_, meets_class_array found crowned ample comparable.known comparable' (by omega)⟩
    | _ => cases comparable'.reference
  | array base ih =>
    cases b with
    | null => exact ⟨.array base, (meets_null comparable).symm⟩
    | cls id => exact ⟨_, (meets_class_array found crowned ample comparable'.known comparable (by omega)).symm⟩
    | array other =>
      have fewer : base.dimensions + 1 + 2 * after.arena.size ≤ steps := enough
      obtain ⟨steps, rfl⟩ : ∃ smaller, steps = smaller + 1 := ⟨steps - 1, by omega⟩
      exact meets_arrays found crowned comparable comparable' fun inner inner' => ih inner inner' (by omega)
    | _ => cases comparable'.reference
  | _ => cases comparable.reference

end Meeting

end Loader

/-- Least common ancestors exist, do not depend on the order, and are above both types. For two classes no class above
both is lower. -/
theorem leastCommonAncestor_least {w after : World} {root : ClassId} {depth : Nat} {a b : Ty}
    (found : (Loader.ofDepth depth).object.on w = some (.ok root, after)) (grounded : after.Grounded)
    (kinds : after.WellKinded) (rooted : after.Rooted root) (comparable : a.Comparable after.arena)
    (comparable' : b.Comparable after.arena) (ample : a.dimensions + 2 * after.arena.size + 1 < depth) :
    let l := Loader.ofDepth depth
    let Below (a b : Ty) : Prop := (l.isSubtype a b).on after = some (.ok true, after)
    ∃ above, (∃ left, (l.leastCommonAncestor a b).on w = some (.ok above, left) ∧ (left = w ∨ left = after)) ∧
      (∃ left, (l.leastCommonAncestor b a).on w = some (.ok above, left) ∧ (left = w ∨ left = after)) ∧
      Below a above ∧ Below b above ∧
      ∀ x y : ClassId, a = .cls x → b = .cls y → after.arena.isInterface x = false → after.arena.isInterface y = false →
        ∀ c : ClassId, c.index < after.arena.size → after.arena.isInterface c = false →
          Below a (.cls c) → Below b (.cls c) → Below above (.cls c) := by
  intro l Below
  obtain ⟨steps, rfl⟩ : ∃ steps, depth = steps + 1 + 1 := ⟨depth - 2, by omega⟩
  have crowned : after.Crowned root := ⟨grounded, kinds, rooted, Loader.object_known found⟩
  have fits : after.arena.size ≤ steps + 1 := by omega
  have below {a b : Ty} (known : a.KnownIn after.arena) (canonical : b.isCanonical = true) : Below a b ↔ after.Under a b :=
    (Loader.isSubtype_under grounded fits known canonical).true_iff
  have enough : a.dimensions + 2 * after.arena.size ≤ steps := by omega
  obtain ⟨above, meets⟩ := Loader.meets_comparable found crowned fits comparable comparable' enough
  refine ⟨above, meets.forward, meets.backward, ?_, ?_, ?_⟩
  · exact (below comparable.known meets.known.canonical).mpr meets.left
  · exact (below comparable'.known meets.known.canonical).mpr meets.right
  · rintro x y rfl rfl isClass isClass' c inside proper left right
    have enough : 2 * after.arena.size ≤ steps + 1 := by omega
    obtain ⟨least, meets', joins⟩ := Loader.meets_classes found crowned fits comparable.known comparable'.known enough
    cases meets.unique meets'
    refine (below meets.known rfl).mpr ((joins isClass isClass').least c proper ?_ ?_)
    · exact (below comparable.known rfl).mp left
    · exact (below comparable'.known rfl).mp right

/-- Two classes with one superclass, of which only the second implements an interface. -/
theorem leastCommonAncestor_least_siblings :
    let stages := Stages.none.add .supertypesResolved
    let w : World := { World.ofUniverse {} {} with
      root := some ⟨0⟩
      arena := ⟨#[
        { name := "Object", package := some ⟨"java.lang"⟩, stages },
        { name := "I", flags := .ofList [.interface], stages },
        { name := "A", superType := some (.cls ⟨0⟩), stages },
        { name := "B", superType := some (.cls ⟨2⟩), stages },
        { name := "C", superType := some (.cls ⟨2⟩), interfaces := [.cls ⟨1⟩], stages }]⟩ }
    let l := Loader.ofDepth 12
    let Below (a b : Ty) : Prop := (l.isSubtype a b).on w = some (.ok true, w)
    (l.object.on w = some (.ok ⟨0⟩, w) ∧ w.Grounded ∧ w.WellKinded ∧ w.Rooted ⟨0⟩ ∧
      (Ty.cls ⟨3⟩).Comparable w.arena ∧ (Ty.cls ⟨4⟩).Comparable w.arena ∧ 0 + 2 * w.arena.size + 1 < 12) ∧
    ∃ above, (∃ left, (l.leastCommonAncestor (.cls ⟨3⟩) (.cls ⟨4⟩)).on w = some (.ok above, left)) ∧
      (∃ left, (l.leastCommonAncestor (.cls ⟨4⟩) (.cls ⟨3⟩)).on w = some (.ok above, left)) ∧
      Below (.cls ⟨3⟩) above ∧ Below (.cls ⟨4⟩) above ∧ (Below (.cls ⟨3⟩) (.cls ⟨2⟩) → Below (.cls ⟨4⟩) (.cls ⟨2⟩) →
        Below above (.cls ⟨2⟩)) := by
  intro stages w l Below
  have found : l.object.on w = some (.ok ⟨0⟩, w) := Loader.on_object rfl
  have grounded : w.Grounded := .of_earlier (by decide) (by decide)
  have kinds : w.WellKinded := by decide
  have rooted : w.Rooted ⟨0⟩ := by decide
  have comparable (index : Nat) (inside : index < 5) : (Ty.cls ⟨index⟩).Comparable w.arena := ⟨inside, rfl, nofun⟩
  have left := comparable 3 (by decide)
  have right := comparable 4 (by decide)
  obtain ⟨above, ⟨_, forward, -⟩, ⟨_, backward, -⟩, below, below', least⟩ :=
    leastCommonAncestor_least found grounded kinds rooted left right (by decide)
  refine ⟨⟨found, grounded, kinds, rooted, left, right, by decide⟩, above, ⟨_, forward⟩, ⟨_, backward⟩, below, below', ?_⟩
  exact least ⟨3⟩ ⟨4⟩ rfl rfl (by decide) (by decide) ⟨2⟩ (by decide) (by decide)

/-- An array of an unresolved type has no least common ancestor with anything, not even with null. -/
theorem leastCommonAncestor_unresolved :
    let w : World := { World.ofUniverse {} {} with
      root := some ⟨0⟩
      arena := ⟨#[{ name := "Object", package := some ⟨"java.lang"⟩, stages := Stages.none.add .supertypesResolved }]⟩ }
    let l := Loader.ofDepth 12
    w.Grounded ∧ w.WellKinded ∧ w.Rooted ⟨0⟩ ∧ l.object.on w = some (.ok ⟨0⟩, w) ∧
      (∀ package, (Ty.array (.unknown "x")).ultimateBase ≠ .package package) ∧
      (l.leastCommonAncestor (.array (.unknown "x")) .null).on w = some (.error (.notCanonical "x[]"), w) := by
  intro w l
  refine ⟨.of_earlier (by decide) (by decide), by decide, by decide, Loader.on_object rfl, nofun, rfl⟩

end ClassUniverse
