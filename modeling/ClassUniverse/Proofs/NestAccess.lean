import ClassUniverse.Proofs.Conversions

/-! Access inside a nest. Whatever is declared within one outermost class is accessible throughout it, before any supertype
is looked at, and a private member is accessible nowhere else. -/
namespace ClassUniverse

open Run

namespace Arena

variable {arena : Arena} {id : ClassId}

/-! ## Nests -/

/-- What holds of a class if it holds of the class around it holds of all classes. -/
theorem Nested.induction {motive : ClassId → Prop} (nested : arena.Nested)
    (step : ∀ id, (∀ outer, arena.outer? id = some outer → motive outer) → motive id) (id : ClassId) : motive id := by
  induction place : id.index using Nat.strongRecOn generalizing id with
  | ind index ih =>
    subst place
    exact step id fun outer encloses => ih outer.index (nested.outer_lt encloses) outer rfl

theorem outers_of_none (outermost : arena.outer? id = none) : arena.outers id = [] := by
  unfold outers
  cases id.index <;> simp [outersWithin, outermost]

theorem Nested.outers_of_some (nested : arena.Nested) (encloses : arena.outer? id = some outer) :
    arena.outers id = arena.nest outer := by
  have enough {id : ClassId} {steps : Nat} (enough : id.index ≤ steps) :
      arena.outersWithin steps id = arena.outers id := by
    refine nested.enough (fun id alone => ?_) (fun steps id around => ?_) enough
    · simp [outersWithin, alone]
    · rw [outersWithin, outersWithin]
      split
      · rw [around _ ‹_›]
      · rfl
  rw [← enough (Nat.le_succ id.index), outersWithin, encloses]
  simp only [enough (Nat.le_of_lt (nested.outer_lt encloses)), nest]

theorem topLevelOf_of_none (outermost : arena.outer? id = none) : arena.topLevelOf id = id := by
  simp [topLevelOf, outers_of_none outermost]

theorem Nested.topLevelOf_of_some (nested : arena.Nested) (encloses : arena.outer? id = some outer) :
    arena.topLevelOf id = arena.topLevelOf outer := by
  simp [topLevelOf, nested.outers_of_some encloses, nest, List.getLast?_cons]

theorem topLevelOf_mem_nest (arena : Arena) (id : ClassId) : arena.topLevelOf id ∈ arena.nest id := by
  unfold topLevelOf nest
  cases last : (arena.outers id).getLast? with
  | none => simp
  | some top => simp [List.mem_of_getLast? last]

theorem Nested.topLevelOf_of_mem (nested : arena.Nested) (around : outer ∈ arena.outers id) :
    arena.topLevelOf outer = arena.topLevelOf id := by
  induction id using nested.induction with
  | step id ih =>
    cases encloses : arena.outer? id with
    | none => simp [outers_of_none encloses] at around
    | some next =>
      rw [nested.outers_of_some encloses] at around
      rw [nested.topLevelOf_of_some encloses]
      rcases List.mem_cons.mp around with rfl | further
      · rfl
      · exact ih next encloses further

/-- Two classes have the same outermost class if one is the other, one lies inside the other, or both lie inside a third. -/
theorem Nested.topLevelOf_eq_iff (nested : arena.Nested) : arena.topLevelOf a = arena.topLevelOf b ↔
    (a = b ∨ arena.isEnclosed a b = true ∨ arena.isEnclosed b a = true) ∨
      ∃ around ∈ arena.outers b, arena.isEnclosed a around = true := by
  simp only [isEnclosed, List.contains_iff_mem]
  constructor
  · intro same
    have left := arena.topLevelOf_mem_nest a
    have right := arena.topLevelOf_mem_nest b
    simp only [nest, List.mem_cons] at left right
    grind
  · rintro ((rfl | inside | inside) | ⟨around, outside, inside⟩)
    · rfl
    · exact (nested.topLevelOf_of_mem inside).symm
    · exact nested.topLevelOf_of_mem inside
    · rw [← nested.topLevelOf_of_mem inside, nested.topLevelOf_of_mem outside]

theorem Nested.topLevelOf_eq_outermost_iff (nested : arena.Nested) (inner : ClassId) (outermost : arena.outer? id = none) :
    arena.topLevelOf inner = id ↔ id = inner ∨ arena.isEnclosed inner id = true := by
  have mates := nested.topLevelOf_eq_iff (a := inner) (b := id)
  rw [topLevelOf_of_none outermost] at mates
  simp [mates, isEnclosed, outers_of_none outermost, @eq_comm _ inner]

end Arena

/-! ## Rules of access -/

namespace Flags

theorem isPublic_access (flags : Flags) : flags.access.isPublic = flags.isPublic := by
  simp [isPublic, access, inter, accessFlags, ofList]

theorem isProtected_access (flags : Flags) : flags.access.isProtected = flags.isProtected := by
  simp [isProtected, access, inter, accessFlags, ofList]

/-- Where the flags alone decide, the access flags do. -/
theorem accessibleFromPackage_access (flags : Flags) : accessibleFromPackage flags.access = accessibleFromPackage flags := by
  have package : flags.access.isPackage = flags.isPackage := by
    simp [isPackage, intersects, access, inter, accessFlags, ofList, Flag.all]
  funext declared accessor
  simp only [accessibleFromPackage, package, isPublic_access, isProtected_access]

end Flags

namespace World

variable (w : World) (Descends : ClassId → ClassId → Prop)

/-- What `target` declares under these flags is open to the accessor: inside one outermost class whatever the flags are, else
to what descends from `target` or has something around it that does, and by the package. -/
def Opens (flags : Flags) (target accessor : ClassId) : Prop :=
  w.arena.topLevelOf target = w.arena.topLevelOf accessor ∨
    (flags.isProtected = true ∧ ∃ id ∈ w.arena.nest accessor, Descends id target) ∨
    accessibleFromPackage flags (w.arena.get target).package (w.arena.get accessor).package = true

/-- The classes that can be named in a class. -/
inductive Names (accessor : ClassId) : ClassId → Prop where
  | member {target outer : ClassId} (kind : (w.arena.get target).kind = .memberOf outer) (around : Names accessor outer)
      (opens : w.Opens Descends (w.arena.get target).flags outer accessor) : Names accessor target
  | top {target : ClassId} (kind : (w.arena.get target).kind = .topLevel)
      (shown : w.arena.topLevelOf accessor = target ∨
        w.arena.classVisible target (w.arena.get accessor).package = true) : Names accessor target
  | inCode {target : ClassId} (nested : (w.arena.get target).kind.isNested = true)
      (other : (w.arena.get target).kind.isMember = false) : Names accessor target

end World

namespace Loader

variable {l : Loader}

/-- Supertypes are asked only across the borders of a nest. -/
theorem declarationAccessible_decides (nested : w.arena.Nested)
    (visibility : visible.Decides w p) (flags : Flags)
    (descends : w.arena.topLevelOf target ≠ w.arena.topLevelOf accessor →
      ∀ id ∈ w.arena.nest accessor, (l.descendsFrom (.cls id) (.cls target)).Decides w (Descends id target)) :
    (l.declarationAccessible visible flags target accessor).Decides w (p ∧ w.Opens Descends flags target accessor) := by
  obtain ⟨seen, ran, right⟩ := visibility
  apply decides_step ran
  cases seen with
  | false => exact decides_pure (by simp [← right])
  | true =>
    have shown : p := right.mp rfl
    have mates : w.arena.topLevelOf target = w.arena.topLevelOf accessor ↔
        (target = accessor || w.arena.isEnclosed target accessor || w.arena.isEnclosed accessor target) = true ∨
          (w.arena.outers accessor).any (w.arena.isEnclosed target) = true := by
      simp [nested.topLevelOf_eq_iff, or_assoc]
    apply decides_step (a := w.arena) rfl
    split
    · rename_i near
      exact decides_pure (by simp [shown, World.Opens, mates.mpr (.inl near)])
    split
    · rename_i near
      exact decides_pure (by simp [shown, World.Opens, mates.mpr (.inr near)])
    rename_i apart apart'
    have stranger : w.arena.topLevelOf target ≠ w.arena.topLevelOf accessor := fun same =>
      (mates.mp same).elim apart apart'
    have byPackage (away : ¬ (flags.isProtected = true ∧ ∃ id ∈ w.arena.nest accessor, Descends id target)) :
        (do let arena ← Run.arena
            return accessibleFromPackage flags (arena.get target).package (arena.get accessor).package : Run Bool).Decides w
          (p ∧ w.Opens Descends flags target accessor) :=
      decides_step (a := w.arena) rfl (decides_pure (by simp [shown, World.Opens, stranger, away]))
    split
    · rename_i shielded
      apply (decides_anyOf (w.arena.nest accessor) (descends stranger)).branch
      · intro heir
        exact decides_pure (by simp [shown, World.Opens, shielded, heir])
      · intro none
        exact byPackage fun both => none both.2
    · rename_i unshielded
      exact byPackage fun both => unshielded both.1

/-- A class outside the nest is reached through the classes around it. -/
theorem classAccessible_decides (nested : w.arena.Nested) (target : ClassId)
    (descends : w.arena.topLevelOf target ≠ w.arena.topLevelOf accessor → ∀ outer ∈ w.arena.outers target,
      ∀ id ∈ w.arena.nest accessor, (l.descendsFrom (.cls id) (.cls outer)).Decides w (Descends id outer)) :
    (l.classAccessible target accessor).Decides w (w.Names Descends accessor target) := by
  apply decides_step (a := w.arena) rfl
  induction target using nested.induction with
  | step target ih =>
    apply decides_step (a := w.arena) rfl
    dsimp only
    split
    · rename_i outer kind
      have encloses := Arena.outer?_of_kind kind rfl
      have top := nested.topLevelOf_of_some encloses
      have outers := nested.outers_of_some encloses
      rw [top, outers] at descends
      rw [outers]
      have around := ih outer encloses fun stranger next listed => descends stranger next (List.mem_cons_of_mem _ listed)
      apply (declarationAccessible_decides nested around _ fun stranger => descends stranger outer List.mem_cons_self).congr
      constructor
      · rintro ⟨around, opens⟩
        exact .member kind around opens
      · intro named
        cases named with
        | member kind' around opens =>
          cases kind.symm.trans kind'
          exact ⟨around, opens⟩
        | top kind' => cases kind.symm.trans kind'
        | inCode _ other => simp [kind, ClassKind.isMember] at other
    · rename_i kind
      have outermost : w.arena.outer? target = none := by simp [Arena.outer?, kind, ClassKind.outer?]
      have mates := nested.topLevelOf_eq_outermost_iff accessor outermost
      apply decides_pure
      constructor
      · intro shown
        apply World.Names.top kind
        simpa [mates] using shown
      · intro named
        cases named with
        | member kind' => cases kind.symm.trans kind'
        | top _ shown => simpa [mates] using shown
        | inCode inner => simp [kind, ClassKind.isNested, ClassKind.isTopLevel] at inner
    · rename_i noMember notTop
      apply decides_pure
      apply iff_of_true rfl
      apply World.Names.inCode
      · cases kind : (w.arena.get target).kind <;> simp_all [ClassKind.isNested, ClassKind.isTopLevel]
      · cases kind : (w.arena.get target).kind <;> simp_all [ClassKind.isMember]

/-- Access is judged in the container if the member counts as inherited, else where the member is declared. -/
theorem on_isAccessibleIn
    (asked : (if member.container.isClass && member.flags.isPublic then l.descendsFrom container member.container
      else pure false).on w = some (.ok inherited, w)) :
    (l.isAccessibleIn member container accessor).on w =
      (match if inherited then container else member.container with
        | .cls target => l.declarationAccessible (l.classAccessible target accessor) member.flags target accessor
        | _ => return member.flags.isPublic : Run Bool).on w := by
  unfold isAccessibleIn
  split at asked
  · rw [if_pos ‹_›]
    exact on_bind_ok asked
  · rw [if_neg ‹_›]
    exact on_bind_ok asked

theorem on_descendsFrom_self (id : ClassId) : (l.descendsFrom (.cls id) (.cls id)).on w = some (.ok false, w) := by
  unfold descendsFrom
  rw [on_bind_ok (on_requireCanonical rfl), on_bind_ok (on_requireCanonical rfl), Ty.descendsBy, if_pos rfl]
  rfl

theorem isAccessible_decides (nested : w.arena.Nested) (declared : member.container = .cls target)
    (descends : w.arena.topLevelOf target ≠ w.arena.topLevelOf accessor → ∀ outer ∈ w.arena.nest target,
      ∀ id ∈ w.arena.nest accessor, (l.descendsFrom (.cls id) (.cls outer)).Decides w (Descends id outer)) :
    (l.isAccessible member accessor).Decides w
      (w.Names Descends accessor target ∧ w.Opens Descends member.flags target accessor) := by
  have asked : (if member.container.isClass && member.flags.isPublic
      then l.descendsFrom member.container member.container else pure false).on w = some (.ok false, w) := by
    rw [declared]
    split
    · exact on_descendsFrom_self target
    · rfl
  have named := classAccessible_decides nested target fun stranger outer listed =>
    descends stranger outer (List.mem_cons_of_mem _ listed)
  have judged := declarationAccessible_decides nested named member.flags fun stranger =>
    descends stranger target List.mem_cons_self
  unfold Decides isAccessible
  rw [on_isAccessibleIn asked, if_neg Bool.false_ne_true, declared]
  exact judged

theorem descendsFrom_tells {depth : Nat} (linked : w.Linked) (ample : w.arena.size ≤ depth)
    (known : child.KnownIn w.arena) (ancestor : ClassId) :
    ((ofDepth (depth + 1)).descendsFrom child (.cls ancestor)).Tells w := by
  apply tells_step (on_requireCanonical known.canonical)
  apply tells_step (on_requireCanonical rfl)
  cases child with
  | cls id =>
    exact tells_ite (tells_pure false) (inheritsWithin_tells linked (.start known) ample)
  | unknown name => exact known.elim
  | _ => exact ⟨_, rfl⟩

end Loader

/-- One class is found to be below another. -/
def Loader.Descends (l : Loader) (w : World) (id target : ClassId) : Prop :=
  (l.descendsFrom (.cls id) (.cls target)).on w = some (.ok true, w)

/-- A class that asks for access, in an arena where nested classes come after the classes around them and all questions
about supertypes have an answer. -/
structure World.Vantage (w : World) (depth : Nat) (accessor : ClassId) : Prop where
  linked : w.Linked
  nested : w.arena.Nested
  inside : accessor.index < w.arena.size
  ample : w.arena.size < depth

namespace World.Vantage

open Loader

variable {w : World} {depth : Nat} (vantage : w.Vantage depth accessor)
include vantage

theorem descends_decides (known : child.KnownIn w.arena) (target : ClassId) :
    ((ofDepth depth).descendsFrom child (.cls target)).Decides w
      (((ofDepth depth).descendsFrom child (.cls target)).on w = some (.ok true, w)) := by
  have ample := vantage.ample
  obtain ⟨steps, rfl⟩ : ∃ steps, depth = steps + 1 := ⟨depth - 1, by omega⟩
  exact (descendsFrom_tells vantage.linked (Nat.le_of_lt_succ ample) known target).decides

theorem nest_descends {id : ClassId} (listed : id ∈ w.arena.nest accessor) (target : ClassId) :
    ((ofDepth depth).descendsFrom (.cls id) (.cls target)).Decides w ((ofDepth depth).Descends w id target) := by
  have around := (w.arena.outersWithin_around accessor.index accessor).inside vantage.nested vantage.inside
  have known : ∀ id ∈ w.arena.nest accessor, (Ty.cls id).KnownIn w.arena :=
    List.forall_mem_cons.mpr ⟨vantage.inside, around⟩
  exact vantage.descends_decides (known id listed) target

theorem names_decides (target : ClassId) : ((ofDepth depth).classAccessible target accessor).Decides w
    (w.Names ((ofDepth depth).Descends w) accessor target) :=
  classAccessible_decides vantage.nested target fun _ outer _ _ listed => vantage.nest_descends listed outer

theorem declared_decides (flags : Flags) (target : ClassId) :
    ((ofDepth depth).declarationAccessible ((ofDepth depth).classAccessible target accessor) flags target accessor).Decides w
      (w.Names ((ofDepth depth).Descends w) accessor target ∧
        w.Opens ((ofDepth depth).Descends w) flags target accessor) :=
  declarationAccessible_decides vantage.nested (vantage.names_decides target) flags fun _ _ listed =>
    vantage.nest_descends listed target

end World.Vantage

/-! ## Private members -/

namespace World

variable {w : World}

/-- Nothing in a nest is hidden from the nest, however its classes are nested. -/
theorem names_of_mates (nested : w.arena.Nested) (mates : w.arena.topLevelOf target = w.arena.topLevelOf accessor) :
    w.Names Descends accessor target := by
  induction target using nested.induction with
  | step target ih =>
    cases kind : (w.arena.get target).kind with
    | topLevel =>
      rw [Arena.topLevelOf_of_none (by simp [Arena.outer?, kind, ClassKind.outer?])] at mates
      exact .top kind (.inl mates.symm)
    | memberOf outer =>
      have encloses := Arena.outer?_of_kind kind rfl
      rw [nested.topLevelOf_of_some encloses] at mates
      exact .member kind (ih outer encloses mates) (.inl mates)
    | _ => exact .inCode (by rw [kind]; rfl) (by rw [kind]; rfl)

/-- Private access ends at the outermost class. -/
theorem opens_private_iff (only : flags.access = .ofList [.privateAccess]) :
    w.Opens Descends flags target accessor ↔ w.arena.topLevelOf target = w.arena.topLevelOf accessor := by
  have unshielded : flags.isProtected = false := by
    rw [← flags.isProtected_access, only]
    rfl
  have closed (declared from_ : Option Package) : accessibleFromPackage flags declared from_ = false := by
    rw [← flags.accessibleFromPackage_access, only]
    rfl
  simp [Opens, unshielded, closed]

end World

/-- Inside one outermost class every member is accessible, whatever the loader can find or complete, so no supertype is
asked for. A member that has no access flag but `private` is accessible there only. -/
theorem private_access_is_nest_access {w : World} {depth : Nat} {declaring accessor : ClassId}
    (vantage : w.Vantage depth accessor) {member : Protection} (declared : member.container = .cls declaring) :
    let Mates : Prop := w.arena.topLevelOf declaring = w.arena.topLevelOf accessor
    (Mates → ∀ l : Loader, (l.isAccessible member accessor).on w = some (.ok true, w)) ∧
      (member.flags.access = .ofList [.privateAccess] →
        ((Loader.ofDepth depth).isAccessible member accessor).Decides w Mates) := by
  intro Mates
  constructor
  · intro mates l
    have decides : (l.isAccessible member accessor).Decides w
        (w.Names (fun _ _ => False) accessor declaring ∧ w.Opens (fun _ _ => False) member.flags declaring accessor) :=
      Loader.isAccessible_decides vantage.nested declared fun strangers => absurd mates strangers
    exact decides.true_iff.mpr ⟨World.names_of_mates vantage.nested mates, .inl mates⟩
  · intro only
    apply (Loader.isAccessible_decides vantage.nested declared fun _ outer _ _ listed =>
      vantage.nest_descends listed outer).congr
    rw [World.opens_private_iff only]
    exact ⟨And.right, fun mates => ⟨World.names_of_mates vantage.nested mates, mates⟩⟩

/-- A private field of a private member class is accessible in a class inside a method of another member class, and not in
a class that extends its outermost class in the same package. -/
theorem private_access_is_nest_access_local :
    let stages := Stages.none.add .supertypesResolved
    let package : Option Package := some ⟨"p"⟩
    let hidden : Flags := .ofList [.privateAccess, .static]
    let w : World := { World.ofUniverse {} {} with
      arena := ⟨#[
        { name := "A", package, stages }, { name := "B", package, kind := .memberOf ⟨0⟩, flags := hidden, stages },
        { name := "C", package, kind := .memberOf ⟨0⟩, flags := hidden, stages },
        { name := "D", package, kind := .localTo ⟨2⟩, stages },
        { name := "", package, kind := .anonymousIn ⟨3⟩, superType := some (.cls ⟨0⟩), stages },
        { name := "E", package, superType := some (.cls ⟨0⟩), stages }]⟩ }
    let member : Protection := ⟨.cls ⟨1⟩, hidden⟩
    (w.Vantage 7 ⟨4⟩ ∧ w.Vantage 7 ⟨5⟩) ∧
      (∀ l : Loader, (l.isAccessible member ⟨4⟩).on w = some (.ok true, w)) ∧
      ((Loader.ofDepth 7).isAccessible member ⟨5⟩).on w = some (.ok false, w) := by
  intro stages package hidden w member
  have linked : w.Linked := (World.Grounded.of_earlier (by decide) (by decide)).linked
  have inNest : w.Vantage 7 ⟨4⟩ := ⟨linked, by decide, by decide, by decide⟩
  have outside : w.Vantage 7 ⟨5⟩ := ⟨linked, by decide, by decide, by decide⟩
  obtain ⟨shared, -⟩ := private_access_is_nest_access inNest (show member.container = .cls ⟨1⟩ from rfl)
  obtain ⟨-, private_⟩ := private_access_is_nest_access outside (show member.container = .cls ⟨1⟩ from rfl)
  refine ⟨⟨inNest, outside⟩, shared (by decide), ?_⟩
  obtain ⟨answer, ran, right⟩ := private_ (by decide)
  cases answer with
  | false => exact ran
  | true => exact absurd (right.mp rfl) (by decide)

end ClassUniverse
