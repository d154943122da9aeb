import ClassUniverse.Proofs.NestAccess

/-! Access that is wider. A member with a wider access flag is open to whoever the member was open to, as long as the class
that it is reached through can be named. What can be seen from a package can be named in every class of the package. -/
namespace ClassUniverse

open Run

/-- How far a declaration can be seen, from the narrowest to the widest. -/
inductive Access where
  | privateAccess | packageAccess | protectedAccess | publicAccess

namespace Access

def flags : Access → Flags
  | .privateAccess => .ofList [.privateAccess]
  | .packageAccess => .none
  | .protectedAccess => .ofList [.protectedAccess]
  | .publicAccess => .ofList [.publicAccess]

def rank : Access → Nat
  | .privateAccess => 0
  | .packageAccess => 1
  | .protectedAccess => 2
  | .publicAccess => 3

end Access

namespace Flags

/-- The same flags with another access flag. -/
def withAccess (flags : Flags) (access : Access) : Flags := (flags.diff accessFlags).union access.flags

theorem access_withAccess (flags : Flags) (access : Access) : (flags.withAccess access).access = access.flags := by
  cases access <;> apply Flags.ext <;> funext flag <;> cases flag <;>
    simp [withAccess, Flags.access, inter, union, diff, accessFlags, Access.flags, ofList, Flags.none]

theorem isPublic_of_access {flags : Flags} {access : Access} (has : flags.access = access.flags) :
    flags.isPublic = true ↔ access = .publicAccess := by
  rw [← flags.isPublic_access, has]
  cases access <;> simp [isPublic, Access.flags, ofList, Flags.none]

end Flags

namespace World

variable {w : World} {Descends : ClassId → ClassId → Prop} {target accessor : ClassId} {flags : Flags}

/-- Whom an access flag lets in from outside the nest. -/
def Grants (w : World) (Descends : ClassId → ClassId → Prop) (target accessor : ClassId) : Access → Prop
  | .privateAccess => False
  | .packageAccess => (w.arena.get target).package = (w.arena.get accessor).package
  | .protectedAccess => (∃ id ∈ w.arena.nest accessor, Descends id target) ∨
      (w.arena.get target).package = (w.arena.get accessor).package
  | .publicAccess => True

theorem opens_iff {access : Access} (has : flags.access = access.flags) : w.Opens Descends flags target accessor ↔
    w.arena.topLevelOf target = w.arena.topLevelOf accessor ∨ w.Grants Descends target accessor access := by
  unfold Opens
  rw [← flags.isProtected_access, ← flags.accessibleFromPackage_access, has]
  cases access <;> simp [Grants, Access.flags, accessibleFromPackage, Flags.isPublic, Flags.isProtected, Flags.isPackage,
    Flags.intersects, Flags.accessFlags, Flags.ofList, Flags.none, Flag.all]

theorem Grants.wider {narrow wide : Access} (granted : w.Grants Descends target accessor narrow)
    (wider : narrow.rank ≤ wide.rank) : w.Grants Descends target accessor wide := by
  cases narrow <;> cases wide <;> simp_all [Grants, Access.rank]

end World

namespace Loader

variable {l : Loader} {w : World}

theorem on_isSubtype_of_ne (apart : a ≠ b) : (l.isSubtype a b).on w = (l.descendsFrom a b).on w := by
  simp only [isSubtype, Ty.subtypeBy, descendsFrom, if_neg apart]

end Loader

namespace World.Vantage

open Loader

variable {w : World} {depth : Nat} {accessor : ClassId} (vantage : w.Vantage depth accessor)
include vantage

/-- A public member is accessible wherever the class that it is reached through can be named; any other member is accessible
as it is where it is declared. -/
theorem isAccessibleIn_decides {container : Ty} (known : container.KnownIn w.arena) {member : Protection}
    (declared : member.container = .cls declaring)
    (below : ((ofDepth depth).isSubtype container (.cls declaring)).on w = some (.ok true, w)) :
    ((ofDepth depth).isAccessibleIn member container accessor).Decides w
      (if member.flags.isPublic = true then ∀ id, container = .cls id → w.Names ((ofDepth depth).Descends w) accessor id
        else w.Names ((ofDepth depth).Descends w) accessor declaring ∧
          w.Opens ((ofDepth depth).Descends w) member.flags declaring accessor) := by
  cases shown : member.flags.isPublic with
  | false =>
    have asked : (if member.container.isClass && member.flags.isPublic
        then (ofDepth depth).descendsFrom container member.container else pure false).on w = some (.ok false, w) := by
      rw [shown, Bool.and_false]
      rfl
    unfold Decides
    rw [on_isAccessibleIn asked, if_neg Bool.false_ne_true, if_neg Bool.false_ne_true, declared]
    exact vantage.declared_decides member.flags declaring
  | true =>
    have opens (target : ClassId) : w.Opens ((ofDepth depth).Descends w) member.flags target accessor := by
      simp [World.Opens, accessibleFromPackage, shown]
    have place (inherited : Bool) (ran : ((ofDepth depth).descendsFrom container (.cls declaring)).on w = some (.ok inherited, w)) :
        (if member.container.isClass && member.flags.isPublic
          then (ofDepth depth).descendsFrom container member.container else pure false).on w = some (.ok inherited, w) := by
      simpa [shown, declared, Ty.isClass, Ty.class?] using ran
    unfold Decides
    by_cases same : container = .cls declaring
    · subst same
      rw [on_isAccessibleIn (place false (on_descendsFrom_self declaring)), if_neg Bool.false_ne_true, declared]
      apply (vantage.declared_decides member.flags declaring).congr
      simp [opens]
    · rw [on_isAccessibleIn (place true ((on_isSubtype_of_ne same).symm.trans below)), if_pos rfl]
      cases container with
      | cls id =>
        apply (vantage.declared_decides member.flags id).congr
        simp [opens]
      | _ => exact decides_pure (by simp [shown])

end World.Vantage

/-- A wider access flag takes nothing away, unless it is `public` and the member is reached through a class that cannot be
named. -/
theorem wider_access_kept {w : World} {depth : Nat} {declaring accessor : ClassId} {container : Ty} {member : Protection}
    (vantage : w.Vantage depth accessor) (declared : member.container = .cls declaring) (known : container.KnownIn w.arena)
    (below : ((Loader.ofDepth depth).isSubtype container (.cls declaring)).on w = some (.ok true, w))
    {narrow wide : Access} (has : member.flags.access = narrow.flags) (wider : narrow.rank ≤ wide.rank)
    (allowed : ((Loader.ofDepth depth).isAccessibleIn member container accessor).on w = some (.ok true, w)) :
    ((Loader.ofDepth depth).isAccessibleIn { member with flags := member.flags.withAccess wide } container accessor).Decides w
      (wide = .publicAccess → ∀ id, container = .cls id →
        ((Loader.ofDepth depth).classAccessible id accessor).on w = some (.ok true, w)) := by
  have before := (vantage.isAccessibleIn_decides known declared below).true_iff.mp allowed
  have declared' : ({ member with flags := member.flags.withAccess wide } : Protection).container = .cls declaring := declared
  apply (vantage.isAccessibleIn_decides known declared' below).congr
  have named (id : ClassId) := (vantage.names_decides id).true_iff
  have shown := Flags.isPublic_of_access has
  have shown' := Flags.isPublic_of_access (member.flags.access_withAccess wide)
  simp only [named]
  by_cases open_ : wide = .publicAccess
  · rw [if_pos (shown'.mpr open_)]
    simp [open_]
  · have narrower : narrow ≠ .publicAccess := by
      rintro rfl
      cases wide <;> simp_all [Access.rank]
    rw [if_neg fun public_ => narrower (shown.mp public_)] at before
    rw [if_neg fun public_ => open_ (shown'.mp public_)]
    refine iff_of_true ⟨before.1, ?_⟩ fun public_ => absurd public_ open_
    rw [World.opens_iff (member.flags.access_withAccess wide)]
    exact ((World.opens_iff has).mp before.2).imp_right fun granted => granted.wider wider

/-- A field that subclasses and the package see becomes public, and is still accessible through a public class of another
package. -/
theorem wider_access_kept_protected :
    let stages := Stage.all.foldl Stages.add .none
    let public_ : Flags := .ofList [.publicAccess]
    let w : World := { World.ofUniverse {} {} with
      root := some ⟨0⟩
      arena := ⟨#[
        { name := "Object", package := some ⟨"java.lang"⟩, flags := public_, stages },
        { name := "D", package := some ⟨"p"⟩, flags := public_, superType := some (.cls ⟨0⟩), stages },
        { name := "E", package := some ⟨"q"⟩, flags := public_, superType := some (.cls ⟨1⟩), stages },
        { name := "A", package := some ⟨"p"⟩, superType := some (.cls ⟨0⟩), stages }]⟩ }
    let member : Protection := ⟨.cls ⟨1⟩, .ofList [.protectedAccess, .static]⟩
    let l := Loader.ofDepth 5
    (w.Vantage 5 ⟨3⟩ ∧ (l.isSubtype (.cls ⟨2⟩) (.cls ⟨1⟩)).on w = some (.ok true, w) ∧
      member.flags.access = Access.protectedAccess.flags ∧
      (l.isAccessibleIn member (.cls ⟨2⟩) ⟨3⟩).on w = some (.ok true, w)) ∧
    (l.isAccessibleIn { member with flags := member.flags.withAccess .publicAccess } (.cls ⟨2⟩) ⟨3⟩).on w =
      some (.ok true, w) := by
  intro stages public_ w member l
  have vantage : w.Vantage 5 ⟨3⟩ :=
    ⟨(World.Grounded.of_earlier (by decide) (by decide)).linked, by decide, by decide, by decide⟩
  have below : (l.isSubtype (.cls ⟨2⟩) (.cls ⟨1⟩)).on w = some (.ok true, w) := rfl
  have has : member.flags.access = Access.protectedAccess.flags := by decide
  have allowed : (l.isAccessibleIn member (.cls ⟨2⟩) ⟨3⟩).on w = some (.ok true, w) := rfl
  have wider : Access.protectedAccess.rank ≤ Access.publicAccess.rank := by decide
  have decides := wider_access_kept vantage rfl (show (Ty.cls ⟨2⟩).KnownIn w.arena by decide) below has wider allowed
  refine ⟨⟨vantage, below, has, allowed⟩, decides.true_iff.mpr ?_⟩
  rintro - id ⟨⟩
  rfl

/-- A field of the own package is accessible through a class of another package that cannot be named. Once it is public, it
is not. -/
theorem wider_access_lost :
    let stages := Stage.all.foldl Stages.add .none
    let w : World := { World.ofUniverse {} {} with
      root := some ⟨0⟩
      arena := ⟨#[
        { name := "Object", package := some ⟨"java.lang"⟩, flags := .ofList [.publicAccess], stages },
        { name := "D", package := some ⟨"p"⟩, flags := .ofList [.publicAccess], superType := some (.cls ⟨0⟩), stages },
        { name := "C", package := some ⟨"q"⟩, superType := some (.cls ⟨1⟩), stages },
        { name := "A", package := some ⟨"p"⟩, superType := some (.cls ⟨0⟩), stages }]⟩ }
    let member : Protection := ⟨.cls ⟨1⟩, .none⟩
    let l := Loader.ofDepth 5
    (w.Initialised ∧ w.Vantage 5 ⟨3⟩ ∧ (l.isSubtype (.cls ⟨2⟩) (.cls ⟨1⟩)).on w = some (.ok true, w) ∧
      member.flags.access = Access.packageAccess.flags ∧ Access.packageAccess.rank ≤ Access.publicAccess.rank ∧
      (l.isAccessibleIn member (.cls ⟨2⟩) ⟨3⟩).on w = some (.ok true, w)) ∧
    (l.isAccessibleIn { member with flags := member.flags.withAccess .publicAccess } (.cls ⟨2⟩) ⟨3⟩).on w =
      some (.ok false, w) := by
  intro stages w member l
  have initialised : w.Initialised := World.Arranged.initialised (by decide)
  have vantage : w.Vantage 5 ⟨3⟩ := ⟨initialised.grounded.linked, by decide, by decide, by decide⟩
  refine ⟨⟨initialised, vantage, rfl, by decide, by decide, ?_⟩, ?_⟩
  · rfl
  · rfl

/-! ## Access by package -/

namespace World

/-- What a package can see can be named by its classes, if nested classes are in the package of the classes around them. -/
theorem names_of_classVisible {w : World} (nested : w.arena.Nested)
    (packaged : ∀ id outer, w.arena.outer? id = some outer → (w.arena.get id).package = (w.arena.get outer).package)
    (shown : w.arena.classVisible target (w.arena.get accessor).package = true) : w.Names Descends accessor target := by
  induction target using nested.induction with
  | step target ih =>
    cases kind : (w.arena.get target).kind with
    | topLevel => exact .top kind (.inr shown)
    | memberOf outer =>
      have encloses := Arena.outer?_of_kind kind rfl
      rw [Arena.classVisible, Arena.nest, nested.outers_of_some encloses, Arena.nestVisible] at shown
      simp only [kind, Bool.and_eq_true] at shown
      obtain ⟨around, here⟩ := shown
      rw [packaged target outer encloses] at here
      exact .member kind (ih outer encloses around) (.inr (.inr here))
    | _ => simp [Arena.classVisible, Arena.nest, Arena.nestVisible, kind] at shown

end World

namespace Loader

variable {l : Loader} {before w : World} {target accessor id : ClassId} {name : String}

variable (named : (l.classAccessible target accessor).on w = some (.ok true, w))
include named

theorem on_findInPackage {package : Package} (short : isShortName name = true)
    (found : (l.find (qualify package.fullName name)).on before = some (.ok (.cls target), w)) :
    (l.findInPackage package name (some accessor)).on before = some (.ok (.cls target), w) := by
  unfold findInPackage
  rw [if_pos short, on_bind_ok (on_outcome_of found)]
  exact on_bind_ok named

theorem on_searchMember
     (fresh : id ∉ visited) (steps : Nat) (found : (declared id).on before = some (.ok (some target), w)) :
    (l.searchMember name (l.visibleMember declared (some accessor)) (steps + 1) visited id).on before =
      some (.ok (.ok target, id :: visited), w) := by
  have visible : (l.visibleMember declared (some accessor) id).on before = some (.ok (some target), w) := by
    unfold visibleMember
    rw [on_bind_ok found]
    exact on_bind_ok named
  unfold searchMember
  rw [if_neg (by simpa using fresh), on_bind_ok (on_outcome_of visible)]
  rfl

theorem on_memberClass (deep : 0 < l.depth) (short : isShortName name = true)
    (found : (l.declaredMember name id).on before = some (.ok (some target), w)) :
    (l.memberClass id name (some accessor)).on before = some (.ok target, w) := by
  obtain ⟨steps, depth⟩ : ∃ steps, l.depth = steps + 1 := ⟨l.depth - 1, by omega⟩
  unfold memberClass
  rw [if_pos short, depth, on_bind_ok (on_searchMember named List.not_mem_nil steps found)]
  rfl

end Loader

/-- What a class's package can see can be named in the class, so what the imports of the package let through is not refused:
not as a class of a package, and not as a member class, neither of the class asked nor anywhere in a search above it. -/
theorem visible_classes_accessible {w : World} {depth : Nat} {target accessor : ClassId} (vantage : w.Vantage depth accessor)
    (packaged : ∀ id outer, w.arena.outer? id = some outer → (w.arena.get id).package = (w.arena.get outer).package) :
    let l := Loader.ofDepth depth
    (w.arena.classVisible target (w.arena.get accessor).package = true →
      (l.classAccessible target accessor).on w = some (.ok true, w)) ∧
    ∀ imports : ImportTable, imports.package = (w.arena.get accessor).package →
      imports.isVisible w.arena (.cls target) = true → ∀ (before : World) (name : String),
      (∀ package : Package, isShortName name = true →
        (l.find (qualify package.fullName name)).on before = some (.ok (.cls target), w) →
        (l.findInPackage package name (some accessor)).on before = some (.ok (.cls target), w)) ∧
      ∀ id, (l.declaredMember name id).on before = some (.ok (some target), w) →
        (isShortName name = true → (l.memberClass id name (some accessor)).on before = some (.ok target, w)) ∧
        ∀ steps visited, id ∉ visited →
          (l.searchMember name (l.visibleMember (l.declaredMember name) (some accessor)) (steps + 1) visited id).on before =
            some (.ok (.ok target, id :: visited), w) := by
  intro l
  have accessible (shown : w.arena.classVisible target (w.arena.get accessor).package = true) :
      (l.classAccessible target accessor).on w = some (.ok true, w) :=
    (vantage.names_decides target).true_iff.mpr (World.names_of_classVisible vantage.nested packaged shown)
  refine ⟨accessible, fun imports same shown before name => ?_⟩
  have named := accessible (same ▸ shown)
  refine ⟨fun package short found => Loader.on_findInPackage named short found, fun id found => ⟨fun short => ?_, ?_⟩⟩
  · have inside := vantage.inside
    have ample := vantage.ample
    obtain ⟨steps, rfl⟩ : ∃ steps, depth = steps + 2 := ⟨depth - 2, by omega⟩
    exact Loader.on_memberClass named (Nat.succ_pos steps) short found
  · exact fun steps visited fresh => Loader.on_searchMember named fresh steps found

/-- A protected member class, looked up in the package of its outermost class by a class that extends neither. -/
theorem visible_classes_accessible_member :
    let stages := Stages.none.add .supertypesResolved
    let package : Option Package := some ⟨"p"⟩
    let w : World := { World.ofUniverse {} {} with
      root := some ⟨0⟩
      arena := ⟨#[
        { name := "Object", package := some ⟨"java.lang"⟩, stages },
        { name := "A", package, superType := some (.cls ⟨0⟩), stages },
        { name := "B", package, kind := .memberOf ⟨1⟩, flags := .ofList [.protectedAccess], superType := some (.cls ⟨0⟩), stages },
        { name := "C", package, superType := some (.cls ⟨0⟩), stages }]⟩
      caches := Assoc.empty.insert .session (({} : Layers).insert "p.A.B" (.cls ⟨2⟩)) }
    let imports : ImportTable := { package }
    let l := Loader.ofDepth 6
    (w.Vantage 6 ⟨3⟩ ∧
      (∀ id outer, w.arena.outer? id = some outer → (w.arena.get id).package = (w.arena.get outer).package) ∧
      imports.isVisible w.arena (.cls ⟨2⟩) = true) ∧
    (l.classAccessible ⟨2⟩ ⟨3⟩).on w = some (.ok true, w) ∧
    (l.findInPackage ⟨"p.A"⟩ "B" (some ⟨3⟩)).on w = some (.ok (.cls ⟨2⟩), w) ∧
    (l.memberClass ⟨1⟩ "B" (some ⟨3⟩)).on w = some (.ok ⟨2⟩, w) := by
  intro stages package w imports l
  have vantage : w.Vantage 6 ⟨3⟩ :=
    ⟨(World.Grounded.of_earlier (by decide) (by decide)).linked, by decide, by decide, by decide⟩
  have packaged : ∀ id outer, w.arena.outer? id = some outer → (w.arena.get id).package = (w.arena.get outer).package := by
    intro id outer encloses
    have listed : ∀ id ∈ w.arena.ids, ∀ outer ∈ w.arena.outer? id, (w.arena.get id).package = (w.arena.get outer).package := by
      decide
    by_cases inside : id.index < w.arena.size
    · exact listed id (w.arena.mem_ids inside) outer encloses
    · simp [Arena.outer?, w.arena.get_absent (Nat.le_of_not_lt inside), ClassKind.outer?] at encloses
  have shown : imports.isVisible w.arena (.cls ⟨2⟩) = true := by decide
  have declared : (l.declaredMember "B" ⟨1⟩).on w = some (.ok (some ⟨2⟩), w) := by
    have held : w.system.check (qualify (w.arena.fullName ⟨1⟩) "B") = some (.cls ⟨2⟩) := by decide +kernel
    unfold Loader.declaredMember
    rw [on_get_bind, held]
    rfl
  obtain ⟨named, resolved⟩ := @visible_classes_accessible w 6 ⟨2⟩ ⟨3⟩ vantage packaged
  obtain ⟨inPackage, asMember⟩ := resolved imports rfl shown w "B"
  exact ⟨⟨vantage, packaged, shown⟩, named shown, inPackage ⟨"p.A"⟩ (by decide) rfl, (asMember ⟨1⟩ declared).1 (by decide)⟩

end ClassUniverse
