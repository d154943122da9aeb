import ClassUniverse.Proofs.SupertypeWalks

/-! What procedures may throw. That the exceptions of one are covered by those of another is a preorder, so overriding
that is checked from class to class is checked along the whole chain. -/
namespace ClassUniverse

open Run Loader

variable {P : World → Prop} {p q : Prop} {x y z : Run Bool} {w : World} {root : ClassId} {depth : Nat}
  {known : String → Option ClassId}

/-- Wherever the condition holds, the computation answers whether `p` does, and the condition holds on. -/
def Run.Judges (x : Run Bool) (P : World → Prop) (p : Prop) : Prop :=
  ∀ w, P w → x.Yields w fun answer after => P after ∧ (answer = true ↔ p)

namespace Run.Judges

theorem pure (right : answer = true ↔ p) : (pure answer : Run Bool).Judges P p :=
  fun _ holds => yields_pure ⟨holds, right⟩

theorem branch (first : x.Judges P p) (yes : p → y.Judges P q) (no : ¬ p → z.Judges P q) :
    (do if ← x then y else z).Judges P q := by
  intro w holds
  refine (first w holds).bind fun answer middle ⟨holds, right⟩ => ?_
  cases answer with
  | true => exact yes (right.mp rfl) middle holds
  | false => exact no (fun given => Bool.false_ne_true (right.mpr given)) middle holds

variable {test : α → Run Bool} {Q : α → Prop}

theorem anyOf (judges : ∀ a ∈ items, (test a).Judges P (Q a)) :
    (Run.anyOf test items).Judges P (∃ a ∈ items, Q a) := by
  induction items with
  | nil => exact pure (by simp)
  | cons a rest ih =>
    obtain ⟨here, others⟩ := List.forall_mem_cons.mp judges
    refine here.branch (fun holds => pure (by simp [holds])) fun fails => ?_
    simpa [fails] using ih others

theorem allOf (judges : ∀ a ∈ items, (test a).Judges P (Q a)) :
    (Run.allOf test items).Judges P (∀ a ∈ items, Q a) := by
  induction items with
  | nil => exact pure (by simp)
  | cons a rest ih =>
    obtain ⟨here, others⟩ := List.forall_mem_cons.mp judges
    refine here.branch (fun holds => ?_) fun fails => pure (by simp [fails])
    simpa [holds] using ih others

end Run.Judges

/-- Worlds that agree on a well-founded hierarchy with one root class, and between which the look-ups of the unchecked
exceptions lead: each name stands for a fixed class, or for none. -/
structure Loader.Settles (l : Loader) (root : ClassId) (known : String → Option ClassId) (P : World → Prop) : Prop where
  grounded : ∀ w, P w → w.Grounded
  rooted : ∀ w, P w → w.Rooted root
  alike : ∀ w after, P w → P after → after.arena = w.arena ∧ after.root = w.root ∧ after.config = w.config
  lookups : ∀ name ∈ ["java.lang.Error", "java.lang.RuntimeException"], ∀ w, P w →
    (l.knownClass name).Yields w fun found after => P after ∧ found = known name

/-- The exceptions are classes of the arena. -/
def Procedure.ThrowsClasses (p : Procedure) (arena : Arena) : Prop :=
  ∀ type ∈ p.throws, ∃ id : ClassId, type = .cls id ∧ id.index < arena.size

namespace World

def Unchecked (w : World) (known : String → Option ClassId) (type : Ty) : Prop :=
  ∃ name ∈ ["java.lang.Error", "java.lang.RuntimeException"], ∃ id, known name = some id ∧ w.Under type (.cls id)

/-- Every exception is unchecked, or below one of the others. -/
def Allows (w : World) (known : String → Option ClassId) (p q : Procedure) : Prop :=
  ∀ thrown ∈ p.throws, w.Unchecked known thrown ∨ ∃ allowed ∈ q.throws, w.Under thrown allowed

theorem Allows.refl (p : Procedure) : w.Allows known p p := fun thrown listed => .inr ⟨thrown, listed, .refl _⟩

/-- An exception that is covered by an unchecked one is itself unchecked. -/
theorem Allows.trans {p q r : Procedure} (rooted : w.Rooted root) (given : p.ThrowsClasses w.arena)
    (between : q.ThrowsClasses w.arena) (above : r.ThrowsClasses w.arena) (first : w.Allows known p q)
    (second : w.Allows known q r) : w.Allows known p r := by
  intro thrown listed
  obtain ⟨id, rfl, -⟩ := given thrown listed
  rcases first _ listed with unchecked | ⟨allowed, member, below⟩
  · exact .inl unchecked
  · obtain ⟨middle, rfl, inside⟩ := between allowed member
    rcases second _ member with ⟨name, special, top, found, further⟩ | ⟨last, member, further⟩
    · exact .inl ⟨name, special, top, found, rooted.under_trans inside below further⟩
    · obtain ⟨final, rfl, -⟩ := above last member
      exact .inr ⟨_, member, rooted.under_trans inside below further⟩

end World

namespace Loader.Settles

variable (settles : (ofDepth (depth + 1)).Settles root known P) (ample : w.arena.size ≤ depth) (start : P w)
include settles ample start

theorem isSubtype_judges {a b : ClassId} (inside : a.index < w.arena.size) :
    ((ofDepth (depth + 1)).isSubtype (.cls a) (.cls b)).Judges P (w.Under (.cls a) (.cls b)) := by
  intro other holds
  obtain ⟨arena, top, config⟩ := settles.alike w other start holds
  have isRoot : other.isRoot = w.isRoot := by
    funext id
    simp only [World.isRoot, arena, top, config]
  have followed : other.followed = w.followed := by
    funext id
    simp only [World.followed, arena, isRoot]
  have decides := isSubtype_under (settles.grounded other holds) (arena ▸ ample) (a := .cls a) (b := .cls b)
    (by rwa [Ty.KnownIn, arena]) rfl
  obtain ⟨answer, ran, right⟩ := decides
  refine ⟨answer, other, ran, holds, right.trans ?_⟩
  simp only [World.under_class_iff, World.Climbs, isRoot, followed]

theorem throwsSubset_judges {p q : Procedure} (given : p.ThrowsClasses w.arena) (above : q.ThrowsClasses w.arena) :
    ((ofDepth (depth + 1)).throwsSubset p q).Judges P (w.Allows known p q) := by
  refine .allOf fun thrown listed => ?_
  obtain ⟨id, rfl, inside⟩ := given thrown listed
  have unchecked : ((ofDepth (depth + 1)).isUnchecked (.cls id)).Judges P (w.Unchecked known (.cls id)) := by
    refine .anyOf fun name special other holds => ?_
    refine (settles.lookups name special other holds).bind fun found middle ⟨holds, same⟩ => ?_
    subst same
    cases known name with
    | none => exact yields_pure ⟨holds, by simp⟩
    | some top => simpa using settles.isSubtype_judges ample start inside middle holds
  refine unchecked.branch (fun special => .pure (by simp [special])) fun plain => ?_
  simp only [plain, false_or]
  refine .anyOf fun allowed member => ?_
  obtain ⟨last, rfl, -⟩ := above allowed member
  exact settles.isSubtype_judges ample start inside

end Loader.Settles

/-- Procedures whose exceptions are classes: each is covered by itself, and by whatever covers one that covers it. The
checks may be made in any of the worlds, so a chain of them needs no check from end to end. -/
theorem throws_preorder (settles : (ofDepth depth).Settles root known P) (ample : ∀ w, P w → w.arena.size < depth) :
    let Covers (w : World) (p q : Procedure) : Prop :=
      ((ofDepth depth).throwsSubset p q).Yields w fun answer after => P after ∧ answer = true
    ∀ w, P w →
      (∀ p : Procedure, p.ThrowsClasses w.arena → Covers w p p) ∧
      (∀ p q r : Procedure, p.ThrowsClasses w.arena → q.ThrowsClasses w.arena → r.ThrowsClasses w.arena →
        ∀ v u, P v → P u → Covers v p q → Covers u q r → Covers w p r) ∧
      ∀ p q : Procedure, p.ThrowsClasses w.arena →
        Relation.ReflTransGen (fun p q => q.ThrowsClasses w.arena ∧ ∃ v, P v ∧ Covers v p q) p q → Covers w p q := by
  intro Covers w start
  obtain ⟨depth, rfl⟩ : ∃ smaller, depth = smaller + 1 := ⟨depth - 1, by have := ample w start; omega⟩
  have iff {p q : Procedure} (given : p.ThrowsClasses w.arena) (above : q.ThrowsClasses w.arena) (v : World)
      (holds : P v) : Covers v p q ↔ w.Allows known p q := by
    obtain ⟨answer, after, ran, last, right⟩ :=
      settles.throwsSubset_judges (Nat.le_of_lt_succ (ample w start)) start given above v holds
    constructor
    · rintro ⟨_, _, again, _, rfl⟩
      rw [ran] at again
      cases again
      exact right.mp rfl
    · exact fun allows => ⟨answer, after, ran, last, right.mpr allows⟩
  have rooted := settles.rooted w start
  refine ⟨fun p given => (iff given given w start).mpr (.refl p), fun p q r given between above v u first second => ?_, ?_⟩
  · intro lower upper
    exact (iff given above w start).mpr (.trans rooted given between above ((iff given between v first).mp lower)
      ((iff between above u second).mp upper))
  · intro p q given chain
    have allows : q.ThrowsClasses w.arena ∧ w.Allows known p q := by
      induction chain with
      | refl => exact ⟨given, .refl p⟩
      | tail _ step ih =>
        obtain ⟨above, v, holds, covers⟩ := step
        exact ⟨above, .trans rooted given ih.1 above ih.2 ((iff ih.1 above v holds).mp covers)⟩
    exact (iff given allows.1 w start).mpr allows.2

/-- An unchecked exception is covered, where only one of the two special classes exists. -/
theorem throws_preorder_unchecked :
    let stages := Stages.none.add .supertypesResolved
    let layers : Layers := { base := { cache := .ofList [("java.lang.RuntimeException", .found (.cls ⟨2⟩)),
      ("java.lang.Error", .missing), ("java.lang", .found (.package ⟨"java.lang"⟩))] } }
    let w : World := { World.ofUniverse {} {} with root := some ⟨0⟩, caches := .ofList [(.session, layers)], arena := ⟨#[
      { name := "Object", package := some ⟨"java.lang"⟩, stages },
      { name := "Exception", package := some ⟨"java.lang"⟩, superType := some (.cls ⟨0⟩), stages },
      { name := "RuntimeException", package := some ⟨"java.lang"⟩, superType := some (.cls ⟨1⟩), stages }]⟩ }
    let throwing (throws : List Ty) : Procedure := { container := .null, name := "m", throws }
    let Covers (p q : Procedure) : Prop :=
      ((ofDepth 5).throwsSubset p q).Yields w fun answer after => after = w ∧ answer = true
    let known (name : String) : Option ClassId := if name = "java.lang.Error" then none else some ⟨2⟩
    ((ofDepth 5).Settles ⟨0⟩ known (· = w) ∧ w.arena.size < 5) ∧
      Covers (throwing [.cls ⟨2⟩]) (throwing [.cls ⟨1⟩]) ∧
      Covers (throwing [.cls ⟨2⟩]) (throwing [.cls ⟨0⟩]) := by
  intro stages layers w throwing Covers known
  have settles : (ofDepth 5).Settles ⟨0⟩ known (· = w) := by
    have grounded : w.Grounded := .of_earlier (by decide) (by decide)
    have rooted : w.Rooted ⟨0⟩ := by decide +kernel
    refine ⟨fun _ same => same ▸ grounded, fun _ same => same ▸ rooted, ?_, ?_⟩
    · rintro _ _ rfl rfl
      exact ⟨rfl, rfl, rfl⟩
    · rintro name special _ rfl
      simp only [List.mem_cons, List.not_mem_nil, or_false] at special
      rcases special with rfl | rfl
      · exact ⟨none, w, rfl, rfl, rfl⟩
      · exact ⟨some ⟨2⟩, w, rfl, rfl, rfl⟩
  have small : w.arena.size < 5 := by decide
  have throwsClasses (ids : List ClassId) (inside : ∀ id ∈ ids, id.index < w.arena.size) :
      (throwing (ids.map .cls)).ThrowsClasses w.arena := by
    intro type listed
    obtain ⟨id, member, rfl⟩ := List.mem_map.mp listed
    exact ⟨id, rfl, inside id member⟩
  have first : Covers (throwing [.cls ⟨2⟩]) (throwing [.cls ⟨1⟩]) := ⟨true, w, rfl, rfl, rfl⟩
  have second : Covers (throwing [.cls ⟨1⟩]) (throwing [.cls ⟨0⟩]) := ⟨true, w, rfl, rfl, rfl⟩
  have trans := (throws_preorder settles (fun _ same => same ▸ small) w rfl).2.1 _ _ _
    (throwsClasses [⟨2⟩] (by decide)) (throwsClasses [⟨1⟩] (by decide)) (throwsClasses [⟨0⟩] (by decide))
  exact ⟨⟨settles, small⟩, first, trans w w rfl rfl first second⟩

end ClassUniverse
