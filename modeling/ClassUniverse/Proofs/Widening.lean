import ClassUniverse.Proofs.Hierarchies

/-! Widening conversions and the calls that they allow. Both are decided without a change to the world. -/
namespace ClassUniverse

open Run

namespace Run

theorem decides_allOf {P : α → Prop} (items : List α)
    (decides : ∀ a ∈ items, (test a).Decides w (P a)) : (allOf test items).Decides w (∀ a ∈ items, P a) := by
  induction items with
  | nil => exact decides_pure (by simp)
  | cons a rest ih =>
    refine (decides a List.mem_cons_self).branch (fun holds => ?_) (fun fails => ?_)
    · refine (ih fun other member => decides other (List.mem_cons_of_mem a member)).congr ?_
      simp [holds]
    · exact decides_pure (by simp [fails])

open Classical in
theorem on_keep {P : α → Prop} (items : List α) (decides : ∀ a ∈ items, (test a).Decides w (P a)) :
    (keep test items).on w = some (.ok (items.filter fun a => decide (P a)), w) := by
  induction items with
  | nil => rfl
  | cons a rest ih =>
    obtain ⟨answer, ran, right⟩ := decides a List.mem_cons_self
    have further := ih fun other member => decides other (List.mem_cons_of_mem a member)
    unfold keep
    rw [on_bind_ok ran]
    cases answer with
    | true =>
      rw [if_pos rfl, on_bind_ok further, List.filter_cons_of_pos (by simpa using right.mp rfl)]
      rfl
    | false =>
      have fails : ¬ P a := fun holds => Bool.false_ne_true (right.mpr holds)
      rw [if_neg Bool.false_ne_true, further, List.filter_cons_of_neg (by simpa using fails)]

end Run

/-- The conversions that need no cast. -/
inductive World.Converts (w : World) : Ty → Ty → Prop where
  | primitive {p q : Primitive} (wider : p = q ∨ q ∈ p.widensTo) : Converts w (.primitive p) (.primitive q)
  | null {b : Ty} (reference : b.isReference = true) : Converts w .null b
  | elements {base : Ty} (primitive : base.isPrimitive = true) : Converts w (.array base) (.array base)
  | array {base other : Ty} (solid : base.isPrimitive = false) (solid' : other.isPrimitive = false)
      (inner : Converts w base other) : Converts w (.array base) (.array other)
  | arrayClass {base : Ty} {id : ClassId} (below : w.Under (.array base) (.cls id)) : Converts w (.array base) (.cls id)
  | cls {a b : ClassId} (below : w.Under (.cls a) (.cls b)) : Converts w (.cls a) (.cls b)

namespace Loader

variable {w : World} {depth : Nat} (grounded : w.Grounded) (ample : w.arena.size ≤ depth)
include grounded ample

theorem widensBetween_decides (known : a.KnownIn w.arena) (canonical : b.isCanonical = true) :
    ((ofDepth (depth + 1)).widensBetween a b).Decides w (w.Converts a b) := by
  induction a generalizing b with
  | primitive p =>
    cases b with
    | primitive q =>
      refine decides_pure ⟨fun wider => .primitive (by simpa using wider), fun widens => ?_⟩
      cases widens with
      | primitive wider => simpa using wider
    | _ => exact decides_pure (iff_of_false Bool.false_ne_true nofun)
  | null =>
    refine decides_pure ⟨.null, fun widens => ?_⟩
    cases widens with
    | null reference => exact reference
  | array base ih =>
    cases b with
    | array other =>
      unfold widensBetween
      cases mixed : base.isPrimitive || other.isPrimitive with
      | true =>
        refine decides_pure ⟨fun same => ?_, fun widens => ?_⟩
        · obtain rfl := of_decide_eq_true same
          exact .elements (by simpa using mixed)
        · cases widens with
          | elements => exact decide_eq_true rfl
          | array solid solid' => simp [solid, solid'] at mixed
      | false =>
        rw [Bool.or_eq_false_iff] at mixed
        refine (ih (b := other) known canonical).congr ⟨.array mixed.1 mixed.2, fun widens => ?_⟩
        cases widens with
        | elements primitive => simp [mixed.1] at primitive
        | array _ _ inner => exact inner
    | cls id =>
      refine (isSubtype_under grounded ample (a := .array base) known rfl).congr ⟨.arrayClass, fun widens => ?_⟩
      cases widens with
      | arrayClass below => exact below
    | unknown name => cases canonical
    | _ =>
      refine (isSubtype_under grounded ample (a := .array base) known rfl).congr ?_
      exact iff_of_false nofun nofun
  | cls id =>
    cases b with
    | cls other =>
      refine (isSubtype_under grounded ample (a := .cls id) known rfl).congr ⟨.cls, fun widens => ?_⟩
      cases widens with
      | cls below => exact below
    | _ => exact decides_pure (iff_of_false Bool.false_ne_true nofun)
  | unknown name => exact known.elim
  | package name => exact decides_pure (iff_of_false Bool.false_ne_true nofun)

theorem isImplicitCastValid_decides (known : a.KnownIn w.arena) (canonical : b.isCanonical = true) :
    ((ofDepth (depth + 1)).isImplicitCastValid a b).Decides w (w.Converts a b) := by
  refine decides_step (on_requireCanonical known.canonical) (decides_step (on_requireCanonical canonical) ?_)
  exact widensBetween_decides grounded ample known canonical

theorem callValid_decides (known : ∀ arg ∈ args, arg.KnownIn w.arena)
    (canonical : ∀ formal ∈ p.formals, formal.isCanonical = true) :
    ((ofDepth (depth + 1)).callValid p args).Decides w (List.Forall₂ w.Converts args p.formals) := by
  unfold callValid
  by_cases same : p.formals.length = args.length
  · rw [if_neg (not_not_intro same)]
    refine (decides_allOf (args.zip p.formals) (P := fun pair => w.Converts pair.1 pair.2) fun pair listed => ?_).congr ?_
    · obtain ⟨arg, formal⟩ := pair
      have parts := List.of_mem_zip listed
      exact isImplicitCastValid_decides grounded ample (known arg parts.1) (canonical formal parts.2)
    · rw [List.forall₂_iff_zip]
      constructor
      · exact fun each => ⟨same.symm, fun listed => each _ listed⟩
      · exact fun both pair listed => both.2 listed
  · rw [if_pos same]
    exact decides_pure (iff_of_false Bool.false_ne_true fun matched => same matched.length_eq.symm)

end Loader

end ClassUniverse
