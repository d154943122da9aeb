import ClassUniverse.Proofs.Widening

/-! Conversions between types. Between reference types, widening and subtyping are one computation, whatever is known
of the classes. A cast is legal one way exactly if it is legal the other way, and widening is a legal cast, except from
`void` and from arrays of nulls. -/
namespace ClassUniverse

open Run

variable {a type : Ty} {x : Run Bool}

/-! ## Widening of references -/

namespace Ty

theorem isReference_of_solid (canonical : a.isCanonical = true) (plain : a.isPrimitive = false)
    (solid : ∀ package, a.ultimateBase ≠ .package package) : a.isReference = true := by
  cases a with
  | primitive kind => cases plain
  | package name => exact absurd rfl (solid name)
  | unknown name => cases canonical
  | _ => rfl

theorem not_isReference_of_isPrimitive (primitive : type.isPrimitive = true) : type.isReference = false := by
  cases type with
  | primitive kind => rfl
  | _ => cases primitive

theorem subtypeBy_of_canonical (canonical : a.isCanonical = true) (canonical' : b.isCanonical = true) :
    subtypeBy inherits a b = if a = b then pure true else descendsBy inherits a b := by
  simp only [subtypeBy, requireCanonical, canonical, canonical', if_true, pure_bind]

theorem descendsBy_of_not_isReference (flat : b.isReference = false) : descendsBy inherits a b = pure false := by
  cases b with
  | null => cases flat
  | array base => cases flat
  | cls id => cases flat
  | _ => cases a <;> rfl

end Ty

/-- What follows the check of a type matters only if the type passes it. -/
theorem Run.requireCanonical_bind_congr (same : type.isCanonical = true → f () = g ()) :
    requireCanonical type >>= f = requireCanonical type >>= g := by
  by_cases canonical : type.isCanonical = true
  · simp only [requireCanonical, canonical, if_true, pure_bind]
    exact same canonical
  · simp only [requireCanonical, if_neg canonical, bind_assoc]
    rfl

theorem Loader.widensBetween_of_isReference (l : Loader) (canonical : a.isCanonical = true)
    (canonical' : b.isCanonical = true) (reference : a.isReference = true)
    (solid : ∀ package, a.ultimateBase ≠ .package package) :
    l.widensBetween a b = if a = b then pure true else Ty.descendsBy l.inherits a b := by
  induction a generalizing b with
  | null => cases b <;> rfl
  | cls id =>
    cases b with
    | cls other => exact Ty.subtypeBy_of_canonical canonical canonical'
    | _ => rfl
  | array base ih =>
    cases b with
    | array other =>
      have further (plain : base.isReference = true) := ih (b := other) canonical canonical' plain solid
      rw [widensBetween, Ty.descendsBy]
      by_cases same : base = other
      · subst same
        cases primitive : base.isPrimitive with
        | true => simp
        | false => simp [further (Ty.isReference_of_solid canonical primitive solid)]
      · rw [if_neg fun equal => same (Ty.array.inj equal)]
        cases mixed : base.isPrimitive || other.isPrimitive with
        | true =>
          rw [if_pos rfl, if_neg, decide_eq_false same]
          rintro ⟨-, left, right⟩
          rcases Bool.or_eq_true_iff.mp mixed with primitive | primitive
          · simp [Ty.not_isReference_of_isPrimitive primitive] at left
          · simp [Ty.not_isReference_of_isPrimitive primitive] at right
        | false =>
          have plain := Ty.isReference_of_solid (a := base) canonical (Bool.or_eq_false_iff.mp mixed).1 solid
          rw [if_neg Bool.false_ne_true, further plain, if_neg same]
          cases reached : other.isReference with
          | true => rw [if_pos ⟨same, plain, rfl⟩]
          | false => rw [if_neg (by simp), Ty.descendsBy_of_not_isReference reached]
    | _ => exact Ty.subtypeBy_of_canonical canonical canonical'
  | _ => cases reference

/-- From a reference type that is no array of packages, widening is subtyping. In every world they give the same answer
or miss the same goal, and they leave the same world behind. -/
theorem widening_is_subtyping (l : Loader) {a : Ty} (b : Ty) (reference : a.isReference = true)
    (solid : ∀ package, a.ultimateBase ≠ .package package) : l.isImplicitCastValid a b = l.isSubtype a b :=
  requireCanonical_bind_congr fun canonical => requireCanonical_bind_congr fun canonical' =>
    l.widensBetween_of_isReference canonical canonical' reference solid

/-- As long as the supertypes of a class are not known, an array of it misses the same goal either way. -/
theorem widening_is_subtyping_unresolved :
    let w : World := { World.ofUniverse {} {} with
      root := some ⟨0⟩
      arena := ⟨#[
        { name := "Object" }, { name := "A", completion := some .scheduled },
        { name := "B", completion := some .scheduled }]⟩ }
    let a : Ty := .arrayOf (.cls ⟨1⟩) 2
    let b : Ty := .arrayOf (.cls ⟨2⟩) 2
    let missed : Except Error Bool := .error (.missingDependency (.reach ⟨1⟩ .supertypesResolved))
    (a.isReference = true ∧ ∀ package, a.ultimateBase ≠ .package package) ∧
      ((Loader.ofDepth 3).isSubtype a b).on w = some (missed, w) ∧
      ((Loader.ofDepth 3).isImplicitCastValid a b).on w = some (missed, w) := by
  intro w a b missed
  have solid : ∀ package, a.ultimateBase ≠ .package package := nofun
  have misses : ((Loader.ofDepth 3).isSubtype a b).on w = some (missed, w) := rfl
  refine ⟨⟨rfl, solid⟩, misses, ?_⟩
  rw [widening_is_subtyping (Loader.ofDepth 3) b rfl solid, misses]

/-! ## Subtyping among known supertypes -/

namespace Run

/-- The computation answers, and leaves the world as it was. -/
def Tells (x : Run Bool) (w : World) : Prop := ∃ answer, x.on w = some (.ok answer, w)

theorem Decides.tells (decides : x.Decides w p) : x.Tells w := by
  obtain ⟨answer, ran, -⟩ := decides
  exact ⟨answer, ran⟩

theorem Tells.decides (tells : x.Tells w) : x.Decides w (x.on w = some (.ok true, w)) := by
  obtain ⟨answer, ran⟩ := tells
  exact ⟨answer, ran, by simp [ran]⟩

theorem tells_pure (answer : Bool) : (pure answer : Run Bool).Tells w := ⟨answer, rfl⟩

theorem tells_step {x : Run α} {a : α} (first : x.on w = some (.ok a, w))
    (next : (f a).Tells w) : (x >>= f).Tells w := by
  obtain ⟨answer, ran⟩ := next
  exact ⟨answer, (on_bind_ok first).trans ran⟩

theorem tells_ite [Decidable p] (yes : x.Tells w) (no : y.Tells w) : (if p then x else y).Tells w := by
  split
  · exact yes
  · exact no

theorem Tells.branch (tells : x.Tells w) (yes : y.Tells w) (no : z.Tells w) :
    (do if ← x then y else z).Tells w := by
  obtain ⟨answer, ran⟩ := tells
  exact tells_step ran (tells_ite yes no)

theorem Decides.given [Decidable q] (decides : x.Decides w p) : (if q then x else pure true).Decides w (q → p) := by
  split
  · rename_i holds
    exact decides.congr (by simp [holds])
  · rename_i fails
    exact decides_pure (by simp [fails])

theorem tells_anyOf (tells : ∀ a ∈ items, (test a).Tells w) : (anyOf test items).Tells w :=
  (decides_anyOf items fun a member => (tells a member).decides).tells

end Run

/-- All supertypes are known types, which need not be classes, and nothing inherits from itself. -/
structure World.Linked (w : World) : Prop where
  resolved : ∀ id : ClassId, id.index < w.arena.size → w.hasStage id .supertypesResolved
  acyclic : w.arena.Acyclic
  supertypes : ∀ id, ∀ type ∈ (w.arena.get id).supertypes, type.KnownIn w.arena

theorem World.Grounded.linked {w : World} (grounded : w.Grounded) : w.Linked where
  __ := grounded
  supertypes id type listed := by
    obtain ⟨above, rfl, inside⟩ := grounded.supertypes id type listed
    exact inside

namespace Loader

variable {depth : Nat}

theorem subtypeBy_tells {inherits : ClassId → ClassId → Run Bool} (known : type.KnownIn w.arena)
    (climbs : ∀ parent, type = .cls parent → (inherits parent ancestor).Tells w) :
    (Ty.subtypeBy inherits type (.cls ancestor)).Tells w := by
  cases type with
  | cls parent => exact (subtypeBy_class_decides (climbs parent rfl).decides).tells
  | unknown name => exact known.elim
  | _ =>
    rw [Ty.subtypeBy_of_canonical known.canonical rfl, if_neg nofun]
    exact ⟨_, rfl⟩

theorem inheritsWithin_tells (linked : w.Linked)
    (trail : w.Passed child passed) (ample : w.arena.size ≤ steps + passed.length) :
    ((ofDepth (depth + 1)).inheritsWithin steps child ancestor).Tells w := by
  induction steps generalizing child passed with
  | zero =>
    have bound := trail.bound linked.acyclic
    omega
  | succ steps ih =>
    have reaches (type : Ty) (listed : type ∈ (w.arena.get child).supertypes) :
        (Ty.subtypeBy ((ofDepth (depth + 1)).inheritsWithin steps) type (.cls ancestor)).Tells w := by
      refine subtypeBy_tells (linked.supertypes child type listed) ?_
      rintro parent rfl
      have direct : w.arena.Inherits child parent := Arena.inherits_iff.mpr ⟨_, listed, parent, rfl, .inl rfl⟩
      refine ih (trail.climb linked.acyclic (linked.supertypes child _ listed) direct) ?_
      rw [List.length_cons]
      omega
    have resolved := linked.resolved child trail.here
    have viaInterfaces := tells_step (on_staged depth resolved (·.interfaces))
      (tells_anyOf fun type listed => reaches type (List.mem_append_right _ listed))
    have viaSuper := tells_anyOf fun type listed => reaches type (List.mem_append_left _ listed)
    refine tells_step (a := w.isRoot ancestor) rfl (tells_ite (tells_pure true) ?_)
    refine tells_step (a := w.arena.isInterface child) rfl (tells_ite viaInterfaces ?_)
    refine tells_step (a := w.isRoot child) rfl (tells_ite (tells_pure false) ?_)
    exact tells_step (on_staged depth resolved (·.superType)) (viaSuper.branch (tells_pure true) viaInterfaces)

theorem isSubtype_tells (linked : w.Linked) (ample : w.arena.size ≤ depth) {id : ClassId}
    (known : type.KnownIn w.arena) : ((ofDepth (depth + 1)).isSubtype type (.cls id)).Tells w := by
  refine subtypeBy_tells known ?_
  rintro parent rfl
  exact inheritsWithin_tells linked (.start known) ample

end Loader

/-! ## Casts -/

namespace World

variable {w : World}

/-- Classes convert up and down. Interfaces convert freely, except that a final class must be below them. -/
def ClassCasts (w : World) (Below : Ty → ClassId → Prop) (a b : ClassId) : Prop :=
  match w.arena.isInterface a, w.arena.isInterface b with
  | false, false => Below (.cls a) b ∨ Below (.cls b) a
  | false, true => (w.arena.get a).flags.isFinal = true → Below (.cls a) b
  | true, false => (w.arena.get b).flags.isFinal = true → Below (.cls b) a
  | true, true => True

/-- The casts that are legal where `Below` tells what is below a class. -/
inductive Casts (w : World) (Below : Ty → ClassId → Prop) : Ty → Ty → Prop where
  | primitive {p q : Primitive} (value : p ≠ .void) (value' : q ≠ .void)
      (convertible : p = q ∨ p.isNumeric = true ∧ q.isNumeric = true) : Casts w Below (.primitive p) (.primitive q)
  | null {b : Ty} (reference : b.isReference = true) : Casts w Below .null b
  | elements {base : Ty} (primitive : base.isPrimitive = true) : Casts w Below (.array base) (.array base)
  | array {base other : Ty} (solid : base.isPrimitive = false ∧ base ≠ .null)
      (solid' : other.isPrimitive = false ∧ other ≠ .null) (inner : Casts w Below base other) :
      Casts w Below (.array base) (.array other)
  | arrayClass {base : Ty} {id : ClassId} (below : Below (.array base) id) : Casts w Below (.array base) (.cls id)
  | classArray {base : Ty} {id : ClassId} (below : Below (.array base) id) : Casts w Below (.cls id) (.array base)
  | cls {a b : ClassId} (legal : w.ClassCasts Below a b) : Casts w Below (.cls a) (.cls b)

theorem ClassCasts.symm {a b : ClassId} (legal : w.ClassCasts Below a b) : w.ClassCasts Below b a := by
  unfold ClassCasts at legal ⊢
  cases source : w.arena.isInterface a <;> cases target : w.arena.isInterface b <;> rw [source, target] at legal
  · exact legal.symm
  · exact legal
  · exact legal
  · trivial

/-- Only a null can be cast to what cannot be cast back. -/
theorem Casts.symm (legal : w.Casts Below a b) (present : a ≠ .null) : w.Casts Below b a := by
  induction legal with
  | primitive value value' convertible =>
    exact .primitive value' value (convertible.imp Eq.symm And.symm)
  | null => exact absurd rfl present
  | elements primitive => exact .elements primitive
  | array solid solid' _ ih => exact .array solid' solid (ih solid.2)
  | arrayClass below => exact .classArray below
  | classArray below => exact .arrayClass below
  | cls legal => exact .cls legal.symm

end World

namespace Loader

variable {l : Loader} {Below : Ty → ClassId → Prop} (below : ∀ {a : Ty} {id : ClassId},
  a.KnownIn w.arena → id.index < w.arena.size → (l.isSubtype a (.cls id)).Decides w (Below a id))
include below

theorem classCast_decides {a b : ClassId} (inside : a.index < w.arena.size) (inside' : b.index < w.arena.size) :
    (l.classCast a b).Decides w (w.ClassCasts Below a b) := by
  have down := below (a := .cls a) inside inside'
  have up := below (a := .cls b) inside' inside
  unfold classCast World.ClassCasts
  refine decides_step (a := w.arena) rfl ?_
  cases source : w.arena.isInterface a <;> cases target : w.arena.isInterface b
  all_goals
    rw [Arena.isInterface] at source target
    dsimp only
    rw [source, target]
  · exact down.branch (fun holds => decides_pure (by simp [holds])) (fun fails => up.congr (by simp [fails]))
  · exact down.given
  · exact up.given
  · exact decides_pure (by simp)

theorem castBetween_decides (known : a.KnownIn w.arena) (known' : b.KnownIn w.arena) :
    (l.castBetween a b).Decides w (w.Casts Below a b) := by
  induction a generalizing b with
  | primitive p =>
    cases b with
    | primitive q =>
      refine decides_pure ⟨fun legal => ?_, fun legal => ?_⟩
      · obtain ⟨⟨value, value'⟩, convertible⟩ :
            (p ≠ .void ∧ q ≠ .void) ∧ (p = q ∨ p.isNumeric = true ∧ q.isNumeric = true) := by
          simpa using legal
        exact .primitive value value' convertible
      · cases legal with
        | primitive value value' convertible => simpa using ⟨⟨value, value'⟩, convertible⟩
    | _ => exact decides_pure (iff_of_false Bool.false_ne_true nofun)
  | null =>
    refine decides_pure ⟨.null, fun legal => ?_⟩
    cases legal with
    | null reference => exact reference
  | array base ih =>
    cases b with
    | array other =>
      unfold castBetween
      split
      · rename_i primitive
        refine decides_pure ⟨fun same => ?_, fun legal => ?_⟩
        · obtain rfl := of_decide_eq_true same
          exact .elements primitive
        · cases legal with
          | elements => exact decide_eq_true rfl
          | array solid => simp [solid.1] at primitive
      · rename_i plain
        split
        · rename_i barred
          refine decides_pure (iff_of_false Bool.false_ne_true fun legal => ?_)
          cases legal with
          | elements primitive => exact plain primitive
          | array solid solid' => simp [Ty.isNull, solid.2, solid'] at barred
        · rename_i free
          simp only [Ty.isNull, Bool.or_eq_true, beq_iff_eq, not_or] at free
          refine (ih (b := other) known known').congr ⟨.array ⟨?_, free.1.2⟩ ⟨?_, free.2⟩, fun legal => ?_⟩
          · simpa using plain
          · simpa using free.1.1
          · cases legal with
            | elements primitive => exact absurd primitive plain
            | array _ _ inner => exact inner
    | cls id =>
      refine (below (a := .array base) known known').congr ⟨.arrayClass, fun legal => ?_⟩
      cases legal with
      | arrayClass below => exact below
    | _ => exact decides_pure (iff_of_false Bool.false_ne_true nofun)
  | cls id =>
    cases b with
    | cls other =>
      refine (classCast_decides below known known').congr ⟨.cls, fun legal => ?_⟩
      cases legal with
      | cls legal => exact legal
    | array base =>
      refine (below (a := .array base) known' known).congr ⟨.classArray, fun legal => ?_⟩
      cases legal with
      | classArray below => exact below
    | _ => exact decides_pure (iff_of_false Bool.false_ne_true nofun)
  | unknown name => exact known.elim
  | package name => exact decides_pure (iff_of_false Bool.false_ne_true nofun)

theorem isCastValid_decides (known : a.KnownIn w.arena) (known' : b.KnownIn w.arena) :
    (l.isCastValid a b).Decides w (w.Casts Below a b) := by
  refine decides_step (on_requireCanonical known.canonical) (decides_step (on_requireCanonical known'.canonical) ?_)
  exact castBetween_decides below known known'

end Loader

/-- Except for the null type itself, whatever can be cast to a type can be cast back. -/
theorem isCastValid_symmetric {w : World} {depth : Nat} (linked : w.Linked) (ample : w.arena.size < depth) {a b : Ty}
    (known : a.KnownIn w.arena) (known' : b.KnownIn w.arena) (present : a ≠ .null) (present' : b ≠ .null) :
    ∃ legal, ((Loader.ofDepth depth).isCastValid a b).on w = some (.ok legal, w) ∧
      ((Loader.ofDepth depth).isCastValid b a).on w = some (.ok legal, w) := by
  obtain ⟨depth, rfl⟩ : ∃ smaller, depth = smaller + 1 := ⟨depth - 1, by omega⟩
  have decides {a b : Ty} (known : a.KnownIn w.arena) (known' : b.KnownIn w.arena) :=
    Loader.isCastValid_decides
      (fun known _ => (Loader.isSubtype_tells linked (Nat.le_of_lt_succ ample) known).decides) known known'
  obtain ⟨legal, ran, right⟩ := decides known known'
  obtain ⟨back, ranBack, rightBack⟩ := decides known' known
  have same : legal = back := by
    rw [Bool.eq_iff_iff, right, rightBack]
    exact ⟨fun casts => casts.symm present, fun casts => casts.symm present'⟩
  exact ⟨legal, ran, same ▸ ranBack⟩

/-- A final class does not implement the interface. -/
theorem isCastValid_symmetric_final :
    let stages := Stages.none.add .supertypesResolved
    let w : World := { World.ofUniverse {} {} with
      root := some ⟨0⟩
      arena := ⟨#[
        { name := "Object", stages }, { name := "I", flags := .ofList [.interface], stages },
        { name := "S", flags := .ofList [.final], superType := some (.cls ⟨0⟩), stages }]⟩ }
    let a : Ty := .array (.cls ⟨2⟩)
    let b : Ty := .array (.cls ⟨1⟩)
    (w.Linked ∧ w.arena.size < 4 ∧ a.KnownIn w.arena ∧ b.KnownIn w.arena) ∧
      ((Loader.ofDepth 4).isCastValid a b).on w = some (.ok false, w) ∧
      ((Loader.ofDepth 4).isCastValid b a).on w = some (.ok false, w) := by
  intro stages w a b
  have linked : w.Linked := (World.Grounded.of_earlier (by decide) (by decide)).linked
  have known : a.KnownIn w.arena ∧ b.KnownIn w.arena := by decide
  have barred : ((Loader.ofDepth 4).isCastValid a b).on w = some (.ok false, w) := rfl
  have small : w.arena.size < 4 := by decide
  obtain ⟨legal, ran, back⟩ := isCastValid_symmetric linked small known.1 known.2 nofun nofun
  cases ran
  exact ⟨⟨linked, small, known⟩, barred, back⟩

/-! ## Widening as a cast -/

theorem Primitive.isNumeric_of_widensTo {p q : Primitive} (widens : q ∈ p.widensTo) :
    p.isNumeric = true ∧ q.isNumeric = true := by
  cases p <;> cases q <;> first | exact ⟨rfl, rfl⟩ | simp [widensTo] at widens

namespace World

variable {w : World}

theorem not_casts_void : ¬ w.Casts Below .void b := by
  intro legal
  cases legal with
  | primitive value => exact value rfl

theorem Casts.inner (legal : w.Casts Below (.array base) (.array other))
    (plain : base.isPrimitive = false) : base ≠ .null ∧ w.Casts Below base other := by
  cases legal with
  | elements primitive => simp [plain] at primitive
  | array solid _ inner => exact ⟨solid.2, inner⟩

theorem not_casts_nulls (dims : Nat) (base : Ty) :
    ¬ w.Casts Below (.arrayOf .null (dims + 1)) (.arrayOf base (dims + 1)) := by
  induction dims with
  | zero => exact fun legal => (legal.inner rfl).1 rfl
  | succ dims ih => exact fun legal => ih (legal.inner rfl).2

variable (kinds : w.WellKinded) (root : ∀ id, w.isRoot id = true → (w.arena.get id).flags.isFinal = false)
include kinds root

/-- What an interface widens to is an interface or the root class. -/
theorem WellKinded.open_of_under {a b : ClassId}
    (interface : w.arena.isInterface a = true) (isClass : w.arena.isInterface b = false)
    (below : w.Under (.cls a) (.cls b)) : (w.arena.get b).flags.isFinal = false := by
  rcases under_class_iff.mp below with rfl | top | chain
  · simp [isClass] at interface
  · exact root b top
  · have above := kinds.climbs_interface interface chain
    simp [isClass] at above

theorem WellKinded.classCasts_of_under {a b : ClassId}
    (below : w.Under (.cls a) (.cls b)) : w.ClassCasts (fun type id => w.Under type (.cls id)) a b := by
  unfold ClassCasts
  cases source : w.arena.isInterface a <;> cases target : w.arena.isInterface b
  · exact .inl below
  · exact fun _ => below
  · intro final
    simp [kinds.open_of_under root source target below] at final
  · trivial

/-- Widening is a legal cast, except of `void` and of arrays of nulls to arrays of as many dimensions or more. -/
theorem Converts.casts_or (converts : w.Converts a b) :
    w.Casts (fun type id => w.Under type (.cls id)) a b ∨ a = .void ∨
      ∃ dims base, a = .arrayOf .null (dims + 1) ∧ b = .arrayOf base (dims + 1) := by
  induction converts with
  | @primitive p q wider =>
    by_cases nothing : p = .void
    · exact .inr (.inl (nothing ▸ rfl))
    rcases wider with rfl | widens
    · exact .inl (.primitive nothing nothing (.inl rfl))
    · have numeric := Primitive.isNumeric_of_widensTo widens
      refine .inl (.primitive nothing ?_ (.inr numeric))
      rintro rfl
      cases numeric.2
  | null reference => exact .inl (.null reference)
  | elements primitive => exact .inl (.elements primitive)
  | @array base other solid solid' inner ih =>
    by_cases empty : base = .null
    · exact .inr (.inr ⟨0, other, empty ▸ rfl, rfl⟩)
    rcases ih with legal | rfl | ⟨dims, last, rfl, rfl⟩
    · have full : other ≠ .null := by
        rintro rfl
        cases inner with
        | null => exact empty rfl
      exact .inl (.array ⟨solid, empty⟩ ⟨solid', full⟩ legal)
    · cases solid
    · exact .inr (.inr ⟨dims + 1, last, rfl, rfl⟩)
  | arrayClass below => exact .inl (.arrayClass below)
  | cls below => exact .inl (.cls (kinds.classCasts_of_under root below))

end World

/-- Where classes extend classes and implement interfaces, and the root class is not final: a widening conversion is
a legal cast, except of `void` and of an array of nulls to an array of as many dimensions or more. -/
theorem widening_castable {w : World} {depth : Nat} (grounded : w.Grounded) (kinds : w.WellKinded)
    (root : ∀ id, w.isRoot id = true → (w.arena.get id).flags.isFinal = false)
    (ample : w.arena.size < depth) {a b : Ty} (known : a.KnownIn w.arena) (known' : b.KnownIn w.arena)
    (widens : ((Loader.ofDepth depth).isImplicitCastValid a b).on w = some (.ok true, w)) :
    ∃ legal, ((Loader.ofDepth depth).isCastValid a b).on w = some (.ok legal, w) ∧
      (legal = false ↔ a = .void ∨ ∃ dims base, a = .arrayOf .null (dims + 1) ∧ b = .arrayOf base (dims + 1)) := by
  obtain ⟨depth, rfl⟩ : ∃ smaller, depth = smaller + 1 := ⟨depth - 1, by omega⟩
  have enough := Nat.le_of_lt_succ ample
  have converts := (Loader.isImplicitCastValid_decides grounded enough known known'.canonical).true_iff.mp widens
  obtain ⟨legal, ran, right⟩ := Loader.isCastValid_decides
    (fun known _ => Loader.isSubtype_under grounded enough known rfl) known known'
  refine ⟨legal, ran, ?_⟩
  rw [← Bool.not_eq_true, right]
  constructor
  · exact (converts.casts_or kinds root).resolve_left
  · rintro (rfl | ⟨dims, base, rfl, rfl⟩)
    · exact World.not_casts_void
    · exact World.not_casts_nulls dims base

/-- An interface can be cast to the root class, a two-dimensional array of nulls to no array of objects. -/
theorem widening_castable_root :
    let stages := Stages.none.add .supertypesResolved
    let w : World := { World.ofUniverse {} {} with
      root := some ⟨0⟩
      arena := ⟨#[
        { name := "Object", stages }, { name := "I", flags := .ofList [.interface], stages },
        { name := "S", flags := .ofList [.final], superType := some (.cls ⟨0⟩), interfaces := [.cls ⟨1⟩], stages }]⟩ }
    let l := Loader.ofDepth 4
    let nulls := Ty.arrayOf .null 2
    let objects := Ty.arrayOf (.cls ⟨0⟩) 2
    (w.Grounded ∧ w.WellKinded ∧ w.arena.size < 4 ∧
      (l.isImplicitCastValid (.cls ⟨1⟩) (.cls ⟨0⟩)).on w = some (.ok true, w) ∧
      (l.isImplicitCastValid nulls objects).on w = some (.ok true, w)) ∧
      (l.isCastValid (.cls ⟨1⟩) (.cls ⟨0⟩)).on w = some (.ok true, w) ∧
      (l.isCastValid nulls objects).on w = some (.ok false, w) := by
  intro stages w l nulls objects
  have grounded : w.Grounded := .of_earlier (by decide) (by decide)
  have kinds : w.WellKinded := by decide
  have root (id : ClassId) (top : w.isRoot id = true) : (w.arena.get id).flags.isFinal = false := by
    obtain rfl : ⟨0⟩ = id := eq_of_beq top
    decide
  have castable {a b : Ty} (known : a.KnownIn w.arena) (known' : b.KnownIn w.arena) :=
    widening_castable grounded kinds root (show w.arena.size < 4 by decide) known known'
  refine ⟨⟨grounded, kinds, by decide, rfl, rfl⟩, ?_, ?_⟩
  · obtain ⟨legal, ran, barred⟩ := castable (a := .cls ⟨1⟩) (b := .cls ⟨0⟩) (by decide) (by decide) rfl
    cases legal with
    | true => exact ran
    | false =>
      rcases barred.mp rfl with impossible | ⟨_, _, impossible, _⟩
      · cases impossible
      · cases impossible
  · obtain ⟨legal, ran, barred⟩ := castable (a := nulls) (b := objects) (by decide) (by decide) rfl
    rw [barred.mpr (.inr ⟨1, .cls ⟨0⟩, rfl, rfl⟩)] at ran
    exact ran

end ClassUniverse
