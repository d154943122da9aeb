import ClassUniverse.Proofs.Cycles
import ClassUniverse.Proofs.Documents
import Mathlib.Data.List.Nodup
import Mathlib.Data.List.Perm.Subperm

/-! Subtyping. In a hierarchy whose supertypes are all known, whether a type is a subtype of another is decided
without a change to the world. -/
namespace ClassUniverse

open Run

variable {p q : Prop} {x : Run Bool} {arena : Arena} {type a b : Ty} {child ancestor parent id : ClassId} {w : World}

namespace Run

variable {w : World}

/-- The computation answers whether `p` holds and leaves the world as it was. -/
def Decides (x : Run Bool) (w : World) (p : Prop) : Prop := ∃ answer, x.on w = some (.ok answer, w) ∧ (answer = true ↔ p)

theorem decides_pure (right : answer = true ↔ p) : (pure answer : Run Bool).Decides w p :=
  ⟨answer, rfl, right⟩

theorem Decides.congr (decides : x.Decides w p) (same : p ↔ q) : x.Decides w q := by
  obtain ⟨answer, ran, right⟩ := decides
  exact ⟨answer, ran, right.trans same⟩

theorem Decides.true_iff (decides : x.Decides w p) : x.on w = some (.ok true, w) ↔ p := by
  obtain ⟨answer, ran, right⟩ := decides
  rw [ran, ← right]
  simp

theorem decides_step {x : Run α} {a : α} (first : x.on w = some (.ok a, w))
    (next : (f a).Decides w p) : (x >>= f).Decides w p := by
  obtain ⟨answer, ran, right⟩ := next
  exact ⟨answer, (on_bind_ok first).trans ran, right⟩

theorem Decides.branch {y z : Run Bool} (decides : x.Decides w p) (yes : p → y.Decides w q)
    (no : ¬ p → z.Decides w q) : (do if ← x then y else z).Decides w q := by
  obtain ⟨answer, ran, right⟩ := decides
  cases answer with
  | true => exact decides_step ran (yes (right.mp rfl))
  | false => exact decides_step ran (no fun holds => Bool.false_ne_true (right.mpr holds))

theorem decides_anyOf {P : α → Prop} (items : List α)
    (decides : ∀ a ∈ items, (test a).Decides w (P a)) : (anyOf test items).Decides w (∃ a ∈ items, P a) := by
  induction items with
  | nil => exact decides_pure (by simp)
  | cons a rest ih =>
    refine (decides a List.mem_cons_self).branch (fun holds => ?_) (fun fails => ?_)
    · exact decides_pure (by simp [holds])
    · refine (ih fun other member => decides other (List.mem_cons_of_mem a member)).congr ?_
      simp [fails]

end Run

/-- A canonical type over classes of the arena. -/
def Ty.KnownIn (arena : Arena) : Ty → Prop
  | .cls id => id.index < arena.size
  | .array base => base.KnownIn arena
  | .unknown _ => False
  | _ => True

theorem Ty.KnownIn.canonical (known : type.KnownIn arena) : type.isCanonical = true := by
  induction type with
  | array base ih => exact ih known
  | unknown name => exact known.elim
  | _ => rfl

theorem Arena.inside_of_supertype (listed : type ∈ (arena.get id).supertypes) : id.index < arena.size := by
  refine Nat.lt_of_not_le fun outside => ?_
  simp [arena.get_absent outside, ClassRecord.supertypes] at listed

theorem Arena.inherits_iff : arena.Inherits child ancestor ↔
    ∃ type ∈ (arena.get child).supertypes, ∃ parent, type = .cls parent ∧
      (parent = ancestor ∨ arena.Inherits parent ancestor) := by
  rw [Inherits, Relation.TransGen.head'_iff]
  constructor
  · rintro ⟨parent, direct, chain⟩
    have upward := (Relation.reflTransGen_iff_eq_or_transGen.mp chain).imp Eq.symm id
    exact ⟨.cls parent, mem_parents.mp direct, parent, rfl, upward⟩
  · rintro ⟨type, listed, parent, rfl, chain⟩
    refine ⟨parent, mem_parents.mpr listed, ?_⟩
    exact Relation.reflTransGen_iff_eq_or_transGen.mpr (chain.imp Eq.symm id)

namespace World

/-- All supertypes are known classes, and nothing inherits from itself. -/
structure Grounded (w : World) : Prop where
  resolved : ∀ id : ClassId, id.index < w.arena.size → w.hasStage id .supertypesResolved
  acyclic : w.arena.Acyclic
  supertypes : ∀ id, ∀ type ∈ (w.arena.get id).supertypes, ∃ above : ClassId, type = .cls above ∧ above.index < w.arena.size

/-- The supertypes that subtyping follows: none from the root class, and not the superclass of an interface. -/
def followed (w : World) (id : ClassId) : List Ty :=
  if w.arena.isInterface id then (w.arena.get id).interfaces
  else if w.isRoot id then [] else (w.arena.get id).supertypes

/-- A chain of supertypes that subtyping follows. -/
def Climbs (w : World) : ClassId → ClassId → Prop := Relation.TransGen fun child parent => .cls parent ∈ w.followed child

/-- The types that subtyping puts above a type. -/
inductive Under (w : World) : Ty → Ty → Prop where
  | refl (a : Ty) : Under w a a
  | nullArray (base : Ty) : Under w .null (.array base)
  | nullClass (id : ClassId) : Under w .null (.cls id)
  | array {a b : Ty} (reference : a.isReference = true) (reference' : b.isReference = true) (below : Under w a b) :
      Under w (.array a) (.array b)
  | arrayClass {a : Ty} {id : ClassId} (holds : w.isRoot id = true ∨ w.isArrayInterface id = true) :
      Under w (.array a) (.cls id)
  | toRoot {id above : ClassId} (top : w.isRoot above = true) : Under w (.cls id) (.cls above)
  | climbs {id above : ClassId} (chain : w.Climbs id above) : Under w (.cls id) (.cls above)

theorem followed_subset (w : World) (id : ClassId) : w.followed id ⊆ (w.arena.get id).supertypes := by
  intro type member
  unfold followed at member
  split at member
  · exact List.mem_append_right _ member
  · split at member
    · cases member
    · exact member

theorem Climbs.inherits (chain : w.Climbs child ancestor) : w.arena.Inherits child ancestor := by
  refine Relation.TransGen.mono (fun lower upper direct => ?_) child ancestor chain
  exact List.mem_filterMap.mpr ⟨.cls upper, w.followed_subset lower direct, rfl⟩

/-- A supertype is the class in question or leads to it. -/
def LeadsTo (w : World) (ancestor : ClassId) (type : Ty) : Prop :=
  ∃ parent, type = .cls parent ∧ (parent = ancestor ∨ w.Climbs parent ancestor)

theorem climbs_iff : w.Climbs child ancestor ↔ ∃ type ∈ w.followed child, w.LeadsTo ancestor type := by
  rw [Climbs, Relation.TransGen.head'_iff]
  constructor
  · rintro ⟨parent, direct, chain⟩
    exact ⟨_, direct, parent, rfl, (Relation.reflTransGen_iff_eq_or_transGen.mp chain).imp Eq.symm id⟩
  · rintro ⟨type, direct, parent, rfl, chain⟩
    exact ⟨parent, direct, Relation.reflTransGen_iff_eq_or_transGen.mpr (chain.imp Eq.symm id)⟩

end World

/-- There are no more different classes than the arena has. -/
theorem Arena.length_le_size {ids : List ClassId} (apart : ids.Nodup) (inside : ∀ id ∈ ids, id.index < arena.size) :
    ids.length ≤ arena.size := by
  have distinct : (ids.map ClassId.index).Nodup := by
    refine List.Nodup.map (fun a b same => ?_) apart
    cases a; cases b; cases same; rfl
  have listed : ids.map ClassId.index ⊆ List.range arena.size := by
    intro index member
    obtain ⟨id, here, rfl⟩ := List.mem_map.mp member
    exact List.mem_range.mpr (inside id here)
  simpa using (List.subperm_of_subset distinct listed).length_le

namespace World

/-- Different classes, passed on the way up to a class. -/
structure Passed (w : World) (id : ClassId) (passed : List ClassId) : Prop where
  inside : ∀ other ∈ id :: passed, other.index < w.arena.size
  below : ∀ other ∈ passed, w.arena.Inherits other id
  apart : passed.Nodup

namespace Passed

variable {passed : List ClassId}

theorem start (inside : id.index < w.arena.size) : w.Passed id [] := ⟨by simpa using inside, by simp, List.nodup_nil⟩

theorem here (trail : w.Passed id passed) : id.index < w.arena.size := trail.inside id List.mem_cons_self

theorem bound (trail : w.Passed id passed) (acyclic : w.arena.Acyclic) : passed.length < w.arena.size := by
  have fresh : id ∉ passed := fun member => acyclic id (trail.below id member)
  exact Arena.length_le_size (List.nodup_cons.mpr ⟨fresh, trail.apart⟩) trail.inside

theorem climb (trail : w.Passed id passed) (acyclic : w.arena.Acyclic) (inside : parent.index < w.arena.size)
    (direct : w.arena.Inherits id parent) : w.Passed parent (id :: passed) := by
  constructor
  · exact List.forall_mem_cons.mpr ⟨inside, trail.inside⟩
  · exact List.forall_mem_cons.mpr ⟨direct, fun other member => Relation.TransGen.trans (trail.below other member) direct⟩
  · exact List.nodup_cons.mpr ⟨fun member => acyclic id (trail.below id member), trail.apart⟩

theorem step (trail : w.Passed id passed) (acyclic : w.arena.Acyclic) (inside : parent.index < w.arena.size)
    (super : (w.arena.get id).superType = some (.cls parent)) : w.Passed parent (id :: passed) :=
  trail.climb acyclic inside
    (Arena.inherits_iff.mpr ⟨_, List.mem_append_left _ (by simp [super]), parent, rfl, .inl rfl⟩)

end Passed

end World

namespace Loader

variable {w : World} {depth : Nat} {inherits : ClassId → ClassId → Run Bool}

theorem subtypeBy_class_decides (decides : (inherits parent ancestor).Decides w p) :
    (Ty.subtypeBy inherits (.cls parent) (.cls ancestor)).Decides w (parent = ancestor ∨ p) := by
  have canonical (id : ClassId) : (requireCanonical (.cls id)).on w = some (.ok (), w) := rfl
  refine decides_step (canonical parent) (decides_step (canonical ancestor) ?_)
  by_cases same : parent = ancestor
  · rw [if_pos (congrArg Ty.cls same)]
    exact decides_pure (by simp [same])
  · rw [if_neg (fun equal => same (Ty.cls.inj equal)), Ty.descendsBy, if_neg same]
    exact decides.congr (by simp [same])

theorem reaches_decides (grounded : w.Grounded) (other : w.isRoot ancestor = false)
    (climbs : ∀ parent : ClassId, parent.index < w.arena.size → w.arena.Inherits child parent →
      (inherits parent ancestor).Decides w (w.isRoot ancestor = true ∨ w.Climbs parent ancestor))
    (listed : type ∈ (w.arena.get child).supertypes) :
    (Ty.subtypeBy inherits type (.cls ancestor)).Decides w (w.LeadsTo ancestor type) := by
  obtain ⟨parent, rfl, known⟩ := grounded.supertypes child type listed
  have direct : w.arena.Inherits child parent := Arena.inherits_iff.mpr ⟨_, listed, parent, rfl, .inl rfl⟩
  refine (subtypeBy_class_decides (climbs parent known direct)).congr ?_
  simp [World.LeadsTo, other]

/-- Between two different classes. -/
theorem inheritsWithin_decides (grounded : w.Grounded) {steps : Nat} {passed : List ClassId} (trail : w.Passed child passed)
    (ample : w.arena.size ≤ steps + passed.length) : ((ofDepth (depth + 1)).inheritsWithin steps child ancestor).Decides w
      (w.isRoot ancestor = true ∨ w.Climbs child ancestor) := by
  induction steps generalizing child passed with
  | zero =>
    have bound := trail.bound grounded.acyclic
    omega
  | succ steps ih =>
    have resolved := grounded.resolved child trail.here
    have climbs (parent : ClassId) (known : parent.index < w.arena.size) (direct : w.arena.Inherits child parent) :
        ((ofDepth (depth + 1)).inheritsWithin steps parent ancestor).Decides w
          (w.isRoot ancestor = true ∨ w.Climbs parent ancestor) := by
      refine ih (trail.climb grounded.acyclic known direct) ?_
      rw [List.length_cons]
      omega
    refine decides_step (a := w.isRoot ancestor) rfl ?_
    cases top : w.isRoot ancestor with
    | true =>
      exact decides_pure (by simp)
    | false =>
      rw [if_neg Bool.false_ne_true, World.climbs_iff]
      have viaSuper := decides_anyOf (w.arena.get child).superType.toList fun type listed =>
        reaches_decides grounded top climbs (List.mem_append_left _ listed)
      have viaInterfaces := decides_step (on_staged depth resolved (·.interfaces)) <|
        decides_anyOf (w.arena.get child).interfaces fun type listed =>
          reaches_decides grounded top climbs (List.mem_append_right _ listed)
      refine decides_step (a := w.arena.isInterface child) rfl ?_
      cases interface : w.arena.isInterface child with
      | true =>
        exact viaInterfaces.congr (by simp [World.followed, interface])
      | false =>
        refine decides_step (a := w.isRoot child) rfl ?_
        cases rooted : w.isRoot child with
        | true =>
          exact decides_pure (by simp [World.followed, interface, rooted])
        | false =>
          have followed : w.followed child = (w.arena.get child).superType.toList ++ (w.arena.get child).interfaces := by
            simp [World.followed, interface, rooted, ClassRecord.supertypes]
          rw [if_neg Bool.false_ne_true, followed]
          refine decides_step (on_staged depth resolved (·.superType)) (viaSuper.branch (fun holds => ?_) (fun fails => ?_))
          · obtain ⟨type, listed, leads⟩ := holds
            exact decides_pure (by simpa using ⟨type, .inl (by simpa using listed), leads⟩)
          · refine viaInterfaces.congr ?_
            constructor
            · rintro ⟨type, listed, leads⟩
              exact .inr ⟨type, List.mem_append_right _ listed, leads⟩
            · rintro (impossible | ⟨type, listed, leads⟩)
              · cases impossible
              · exact ⟨type, (List.mem_append.mp listed).resolve_left fun super => fails ⟨type, super, leads⟩, leads⟩

theorem descendsBy_decides (grounded : w.Grounded) (ample : w.arena.size ≤ depth) (known : a.KnownIn w.arena) :
    (Ty.descendsBy (ofDepth (depth + 1)).inherits a b).Decides w (a ≠ b ∧ w.Under a b) := by
  induction a generalizing b with
  | array base ih =>
    cases b with
    | array other =>
      rw [Ty.descendsBy]
      split
      · rename_i references
        refine (ih (b := other) known).congr ⟨fun ⟨_, below⟩ => ?_, fun ⟨_, below⟩ => ⟨references.1, ?_⟩⟩
        · exact ⟨fun same => references.1 (Ty.array.inj same), .array references.2.1 references.2.2 below⟩
        · cases below with
          | refl => exact .refl _
          | array _ _ below => exact below
      · rename_i mixed
        refine decides_pure (iff_of_false Bool.false_ne_true fun ⟨apart, below⟩ => ?_)
        cases below with
        | refl => exact apart rfl
        | array reference reference' _ => exact mixed ⟨fun same => apart (congrArg Ty.array same), reference, reference'⟩
    | cls id =>
      refine decides_step (a := w) rfl (decides_pure ?_)
      rw [Bool.or_eq_true]
      refine ⟨fun holds => ⟨nofun, .arrayClass holds⟩, fun ⟨_, below⟩ => ?_⟩
      cases below with
      | arrayClass holds => exact holds
    | _ => exact decides_pure (iff_of_false Bool.false_ne_true nofun)
  | cls id =>
    cases b with
    | cls other =>
      rw [Ty.descendsBy]
      split
      · rename_i same
        exact decides_pure (by simp [same])
      · rename_i differs
        refine (inheritsWithin_decides grounded (.start known) ample).congr ⟨fun holds => ?_, fun ⟨_, below⟩ => ?_⟩
        · refine ⟨fun same => differs (Ty.cls.inj same), ?_⟩
          rcases holds with top | chain
          · exact .toRoot top
          · exact .climbs chain
        · cases below with
          | refl => exact absurd rfl differs
          | toRoot top => exact .inl top
          | climbs chain => exact .inr chain
    | _ => exact decides_pure (iff_of_false Bool.false_ne_true nofun)
  | null =>
    cases b with
    | array base => exact decides_pure (iff_of_true rfl ⟨nofun, .nullArray base⟩)
    | cls id => exact decides_pure (iff_of_true rfl ⟨nofun, .nullClass id⟩)
    | null => exact decides_pure (by simp)
    | _ => exact decides_pure (iff_of_false Bool.false_ne_true nofun)
  | unknown name => exact known.elim
  | _ =>
    refine decides_pure (iff_of_false Bool.false_ne_true fun ⟨apart, below⟩ => ?_)
    cases below
    exact apart rfl

theorem on_requireCanonical (canonical : type.isCanonical = true) :
    (requireCanonical type).on w = some (.ok (), w) := by
  rw [requireCanonical, if_pos canonical]
  rfl

theorem isSubtype_under (grounded : w.Grounded) (ample : w.arena.size ≤ depth) (known : a.KnownIn w.arena)
    (canonical : b.isCanonical = true) : ((ofDepth (depth + 1)).isSubtype a b).Decides w (w.Under a b) := by
  refine decides_step (on_requireCanonical known.canonical) (decides_step (on_requireCanonical canonical) ?_)
  by_cases same : a = b
  · rw [if_pos same]
    exact decides_pure (iff_of_true rfl (same ▸ .refl a))
  · rw [if_neg same]
    exact (descendsBy_decides grounded ample known).congr (and_iff_right same)

end Loader

namespace World

/-- One class has nothing above it and is the root. -/
structure Rooted (w : World) (root : ClassId) : Prop where
  inside : root.index < w.arena.size
  isRoot : ∀ id : ClassId, id.index < w.arena.size → (w.isRoot id = true ↔ id = root)
  isClass : w.arena.isInterface root = false
  alone : (w.arena.get root).supertypes = []

namespace Rooted

variable {w : World} {root : ClassId} (rooted : w.Rooted root)
include rooted

theorem inherits_none (above : ClassId) : ¬ w.arena.Inherits root above := by
  intro chain
  obtain ⟨parent, direct, -⟩ := Relation.TransGen.head'_iff.mp chain
  simp [Arena.parents, rooted.alone] at direct

variable (interfaceSuper : ∀ id above, w.arena.isInterface id = true →
  (w.arena.get id).superType = some (.cls above) → above = root)
include interfaceSuper

/-- What subtyping does not follow leads to the root class. -/
theorem root_or_followed (direct : .cls parent ∈ (w.arena.get child).supertypes) :
    parent = root ∨ .cls parent ∈ w.followed child := by
  cases interface : w.arena.isInterface child with
  | true =>
    rcases List.mem_append.mp direct with super | listed
    · exact .inl (interfaceSuper child parent interface (Option.mem_toList.mp super))
    · exact .inr (by simpa [followed, interface] using listed)
  | false =>
    cases top : w.isRoot child with
    | true =>
      rw [(rooted.isRoot child (Arena.inside_of_supertype direct)).mp top, rooted.alone] at direct
      cases direct
    | false => exact .inr (by simpa [followed, interface, top] using direct)

theorem climbs_of_inherits (chain : w.arena.Inherits child ancestor) : ancestor = root ∨ w.Climbs child ancestor := by
  have step {child parent : ClassId} (direct : parent ∈ w.arena.parents child) :
      parent = root ∨ .cls parent ∈ w.followed child :=
    rooted.root_or_followed interfaceSuper (Arena.mem_parents.mp direct)
  induction chain using Relation.TransGen.head_induction_on with
  | single direct => exact (step direct).imp_right .single
  | head direct chain ih =>
    rcases step direct with rfl | followed
    · exact (rooted.inherits_none ancestor chain).elim
    · exact ih.imp_right (.head followed)

end Rooted

end World

end ClassUniverse
