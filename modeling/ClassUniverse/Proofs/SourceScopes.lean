import ClassUniverse.Proofs.ScopeAnswers
import ClassUniverse.Proofs.SourceAnswers

/-! Names in the scopes of declarations. The supertypes that a class is declared with are classes that it may
have, so they fit the hierarchy. -/
namespace ClassUniverse

variable {config : Config} {u : Universe} {s : Scope} {w : World} {l : Loader}

namespace Loader

section Supertypes

open Scoped

variable {P : World → Prop} {id : ClassId} {fits : Option Ty → World → Prop}

/-- What a class may have as its superclass: a class that others may extend, the root, or none at the top. -/
structure Supers (l : Loader) (P : World → Prop) (id : ClassId) (fits : Option Ty → World → Prop) : Prop where
  extendable : ∀ {w type}, P w → w.arena.Extendable type → fits (some type) w
  object : ∀ {w}, P w → l.objectType.Gives P World.Keeps w fun type after => fits (some type) after
  topmost : ∀ {w}, P w → (w.arena.get id).flags.isInterface = true ∨ w.isRoot id → fits none w
  lasting : ∀ {w after superType}, P w → w.Has id → w.Keeps after → fits superType w → fits superType after

variable (sound : l.Explores P)
include sound

theorem declaredSuper_finds (supers : l.Supers P id fits) (written : Option String) (holds : P w) (inside : s.Inside w) :
    (l.declaredSuper id written).Finds P s w fits := by
  refine finds_record.mpr ?_
  split
  · rename_i name
    refine (Scope.resolveType_finds sound name holds inside).bind fun type s middle holds inside kept found => ?_
    refine finds_arena.mpr ?_
    split
    · exact finds_lift (Run.gives_fault holds) inside
    · rename_i superclass chosen
      obtain ⟨isClass, open_⟩ := Option.filter_eq_some_iff.mp chosen
      refine finds_ite (fun _ => finds_lift (Run.gives_fault holds) inside) fun _ => ?_
      refine finds_ite (fun _ => finds_lift (Run.gives_fault holds) inside) fun extendable => ?_
      have same : type = .cls superclass := by
        cases type <;> simp_all [Ty.class?]
      refine finds_pure holds inside (supers.extendable holds ⟨superclass, same, found superclass same, ?_, ?_⟩)
      · simpa [Arena.isInterface] using open_
      · simpa using extendable
  · refine finds_ite (fun interface => finds_pure holds inside (supers.topmost holds (.inl interface))) fun _ => ?_
    have asked : (Run.isRoot id).Gives P World.Keeps w fun isRoot after => isRoot = w.isRoot id ∧ after = w :=
      Run.ends_isRoot.mpr ⟨⟨holds, WorldOrder.refl w⟩, rfl, rfl⟩
    refine (finds_lift asked inside).bind fun isRoot s middle holds known _ same => ?_
    obtain ⟨rfl, rfl⟩ := same
    refine finds_ite (fun isRoot => finds_pure holds known (supers.topmost holds (.inr isRoot))) fun _ => ?_
    exact (finds_lift (supers.object holds) known).bind fun type s last holds inside _ fits => finds_pure holds inside fits

theorem declaredInterface_finds (position : Option Position) (name : String) (holds : P w) (inside : s.Inside w) :
    (l.declaredInterface position name).Finds P s w fun type after => after.arena.Implementable type := by
  refine (Scope.resolveType_finds sound name holds inside).bind fun type s middle holds inside _ found => ?_
  refine finds_arena.mpr (finds_ite (fun interface => ?_) fun _ => finds_lift (Run.gives_fault holds) inside)
  refine finds_pure holds inside ?_
  obtain ⟨above, isClass, interface⟩ := (Option.any_eq_true _ _).mp interface
  have same : type = .cls above := by
    cases type <;> simp_all [Ty.class?]
  exact ⟨above, same, found above same, interface⟩

theorem declaredSupertypes_finds (supers : l.Supers P id fits) (decl : ClassDecl) (holds : P w) (inside : s.Inside w)
    (has : w.Has id) : (l.declaredSupertypes id decl).Finds P s w fun answer after =>
      fits answer.1 after ∧ ∀ type ∈ answer.2, after.arena.Implementable type := by
  refine (declaredSuper_finds sound supers _ holds inside).bind fun superType s middle between inside before first => ?_
  refine finds_record.mpr ?_
  refine (finds_mapM (fun name _ _ => declaredInterface_finds sound _ name) Arena.Keeps.implementable between
    inside).bind fun interfaces s last holds inside kept others => finds_pure holds inside ?_
  exact ⟨supers.lasting between (before.has has) kept first, others⟩

end Supertypes

end Loader

theorem packageExists_sources (name : String) : (System.packageExists name).Within (SourcesKept config u) := by
  have kept (w : World) (holds : w.FromSources config u) : (System.packageExists name).Finds config u w fun _ _ => True :=
    ((System.reads w).packageExists name).gives (fun _ same left =>
      ⟨holds.recached same left (holds.system.ask holds.knows name), SameArena.keeps same.arena⟩) fun _ _ _ _ _ => trivial
  exact Run.within_of_gives kept

theorem Loader.FromSources.explores (rooted : u.Rooted config) (sound : l.FromSources config u) :
    l.Explores (World.FromSources config u) where
  toDiscovers := sound.discovers
  root holds := (object_finds rooted sound holds).mono fun _ _ _ _ found => found.1
  packages := packageExists_sources

theorem Loader.FromSources.respects (rooted : u.Rooted config) (sound : l.FromSources config u) :
    l.Respects (SourcesKept config u) := (sound.explores rooted).respects

namespace Loader

theorem extendable_root (rooted : u.Rooted config) (holds : w.FromSources config u) {id : ClassId} (has : w.Has id)
    (named : w.arena.fullName id = config.rootClass) : w.arena.Extendable (.cls id) := by
  obtain ⟨flags, listed, sameInterface, sameFinal⟩ := holds.arena.declared id has
  obtain ⟨noInterface, notFinal⟩ := rooted.flags_of_named (named ▸ listed)
  exact ⟨id, rfl, has, sameInterface.trans noInterface, sameFinal.trans notFinal⟩

theorem topmost_of_isRoot (holds : w.FromSources config u) {id : ClassId} (isRoot : w.isRoot id) :
    w.arena.Topmost config.rootClass id := by
  unfold World.isRoot at isRoot
  split at isRoot
  · rename_i root known
    have same : root = id := by simpa using isRoot
    exact .inr (same ▸ (holds.root root known).2)
  · simp only [Bool.and_eq_true, beq_iff_eq, holds.configured] at isRoot
    exact .inr isRoot.2

theorem fromSources_supers (rooted : u.Rooted config) (sound : l.FromSources config u) (id : ClassId) :
    l.Supers (World.FromSources config u) id fun superType w =>
      (∀ type, superType = some type → w.arena.Extendable type) ∧
      (superType = none → w.arena.Topmost config.rootClass id) where
  extendable _ fits := ⟨by rintro _ ⟨⟩; exact fits, nofun⟩
  object holds := by
    refine (object_finds rooted sound holds).bind fun root last holds _ found => Run.gives_pure holds ⟨?_, nofun⟩
    rintro _ ⟨⟩
    exact extendable_root rooted holds found.1 found.2
  topmost holds top := ⟨nofun, fun _ => top.elim .inl (topmost_of_isRoot holds)⟩
  lasting holds has kept fits :=
    ⟨fun type given => Arena.Keeps.extendable kept (fits.1 type given),
      fun none => (Arena.Keeps.topmost kept holds.arena.nested has).mpr (fits.2 none)⟩

end Loader

end ClassUniverse
