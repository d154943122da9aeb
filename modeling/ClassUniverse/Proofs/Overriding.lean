import ClassUniverse.Proofs.SupertypeWalks

/-! Overriding. A method overrides the methods with its name and formal types along the superclasses, and an
inaccessible method hides what it overrides. -/
namespace ClassUniverse

open Run

namespace World

/-- A class and those that it extends, one after the other. -/
def Ascends (w : World) : ClassId → ClassId → Prop :=
  Relation.ReflTransGen fun id above => (w.arena.get id).superType = some (.cls above)

/-- The same name and formal types, in the class of `m` or in one that it extends. -/
def Overrides (w : World) (m other : Method) : Prop :=
  other.name = m.name ∧ other.formals = m.formals ∧
    ∃ id above, m.container = .cls id ∧ other.container = .cls above ∧ w.Ascends id above

/-- Some of these methods overrides the other. -/
def Hides (w : World) (methods : List Method) (other : Method) : Prop := ∃ m ∈ methods, w.Overrides m other

/-- The method is listed by the class that it says it is declared in. -/
def Lists (w : World) (m : Method) : Prop := ∀ id, m.container = .cls id → m ∈ (w.arena.get id).methods

theorem ascends_iff {w : World} {id above : ClassId} : w.Ascends id above ↔
    above = id ∨ ∃ parent, (w.arena.get id).superType = some (.cls parent) ∧ w.Ascends parent above := by
  unfold Ascends
  rw [Relation.ReflTransGen.cases_head_iff]
  exact or_congr_left eq_comm

end World

namespace Loader

variable {w : World} {depth : Nat} (initialised : w.Initialised)
include initialised

/-- The methods of one signature along the superclasses. -/
theorem on_overridesWithin {m : Method} {id : ClassId} {passed : List ClassId} (trail : w.Passed id passed)
    (enough : w.arena.size < steps + passed.length) :
    ∃ hidden, ((ofDepth (depth + 1)).overridesWithin m steps (passed.map .cls) (some (.cls id))).on w = some (.ok hidden, w) ∧
      ∀ other, other ∈ hidden ↔ other.formals = m.formals ∧
        ∃ above, w.Ascends id above ∧ other ∈ (w.arena.get above).methodsNamed m.name := by
  have bound := trail.bound initialised.acyclic
  induction steps generalizing id passed with
  | zero => omega
  | succ steps ih =>
    have declared : ((ofDepth (depth + 1)).declaredMethods m.name (.cls id)).on w =
        some (.ok ((w.arena.get id).methodsNamed m.name), w) := on_methodsNamed (initialised.complete id trail.here)
    have superType : ((ofDepth (depth + 1)).superType id).on w = some (.ok (w.arena.get id).superType, w) :=
      on_staged depth (initialised.complete id trail.here .supertypesResolved) (·.superType)
    have fresh : ¬ (passed.map Ty.cls).contains (.cls id) := by
      intro again
      obtain ⟨other, listed, same⟩ := List.mem_map.mp (List.contains_iff_mem.mp again)
      cases same
      exact initialised.acyclic id (trail.below id listed)
    unfold overridesWithin
    rw [if_neg fresh]
    rw [on_bind_ok declared, on_bind_ok superType]
    cases given : (w.arena.get id).superType with
    | none =>
      obtain ⟨steps, rfl⟩ : ∃ fewer, steps = fewer + 1 := ⟨steps - 1, by omega⟩
      have alone (above : ClassId) : w.Ascends id above ↔ above = id := by
        rw [World.ascends_iff]
        simp [given]
      exact ⟨_, rfl, fun other => by simp [alone, and_comm]⟩
    | some type =>
      have direct : type ∈ (w.arena.get id).supertypes := List.mem_append_left _ (by simp [given])
      obtain ⟨parent, rfl, inside⟩ := initialised.supertypes id type direct
      have further := trail.step initialised.acyclic inside given
      obtain ⟨hidden, ran, members⟩ := ih further (by rw [List.length_cons]; omega) (further.bound initialised.acyclic)
      refine ⟨_, (on_bind_ok ran).trans rfl, fun other => ?_⟩
      rw [List.mem_append, members, List.mem_filter, beq_iff_eq]
      constructor
      · rintro (⟨listed, same⟩ | ⟨same, above, chain, listed⟩)
        · exact ⟨same, id, .refl, listed⟩
        · exact ⟨same, above, .head given chain, listed⟩
      · rintro ⟨same, above, chain, listed⟩
        rcases World.ascends_iff.mp chain with rfl | ⟨next, super, chain⟩
        · exact .inl ⟨listed, same⟩
        · cases given.symm.trans super
          exact .inr ⟨same, above, chain, listed⟩

variable (ample : w.arena.size < depth)
include ample

/-- A listed method is among those that `m` overrides if its signature and its place say so. -/
theorem on_overrides {m : Method} {id : ClassId} (container : m.container = .cls id) (inside : id.index < w.arena.size) :
    ∃ hidden, ((ofDepth (depth + 1)).overrides m).on w = some (.ok hidden, w) ∧
      ∀ other, w.Lists other → (hidden.any other.same = true ↔ w.Overrides m other) := by
  obtain ⟨hidden, ran, members⟩ :
      ∃ hidden, ((ofDepth (depth + 1)).overridesWithin m depth [] (some (.cls id))).on w = some (.ok hidden, w) ∧ _ :=
    on_overridesWithin initialised (.start inside) (by simpa using ample)
  refine ⟨hidden, ?_, fun other listed => ?_⟩
  · unfold overrides
    rw [container]
    exact ran
  rw [List.any_eq_true]
  constructor
  · rintro ⟨twin, member, same⟩
    obtain ⟨formals, above, chain, declared⟩ := (members twin).mp member
    obtain ⟨declared, named⟩ := List.mem_filter.mp declared
    simp only [Method.same, Bool.and_eq_true, beq_iff_eq] at same named
    obtain ⟨⟨⟨⟨⟨place, -⟩, -⟩, name⟩, types⟩, -⟩ := same
    refine ⟨name.trans named, types.trans formals, id, above, container, ?_, chain⟩
    exact place.trans (initialised.methods above twin declared).1
  · rintro ⟨name, formals, start, above, place, here, chain⟩
    cases container.symm.trans place
    refine ⟨other, (members other).mpr ⟨formals, above, chain, ?_⟩, by simp [Method.same]⟩
    exact List.mem_filter.mpr ⟨listed above here, by simpa using name⟩

open Classical in
/-- What is left of the accessible methods is what no inaccessible method overrides. -/
theorem on_hideOverridden {inaccessible accessible : List Method}
    (placed : ∀ m ∈ inaccessible, ∃ id : ClassId, m.container = .cls id ∧ id.index < w.arena.size)
    (listed : ∀ m ∈ accessible, w.Lists m) : ((ofDepth (depth + 1)).hideOverridden inaccessible accessible).on w =
      some (.ok (accessible.filter fun other => !decide (w.Hides inaccessible other)), w) := by
  induction inaccessible generalizing accessible with
  | nil =>
    rw [List.filter_eq_self.mpr (by simp [World.Hides])]
    rfl
  | cons m rest ih =>
    obtain ⟨⟨id, container, inside⟩, later⟩ := List.forall_mem_cons.mp placed
    obtain ⟨hidden, ran, overridden⟩ := on_overrides initialised ample container inside
    unfold hideOverridden
    rw [on_bind_ok ran, ih later fun other kept => listed other (List.mem_filter.mp kept).1, List.filter_filter]
    refine congrArg (fun left => some (Except.ok left, w)) (List.filter_congr fun other member => ?_)
    have either : w.Hides (m :: rest) other ↔ hidden.any other.same = true ∨ w.Hides rest other := by
      rw [overridden other (listed other member)]
      simp [World.Hides]
    simp only [either, Bool.decide_or, Bool.decide_eq_true, Bool.not_or, Bool.and_comm]

end Loader

end ClassUniverse
