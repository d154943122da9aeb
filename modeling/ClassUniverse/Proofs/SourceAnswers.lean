import ClassUniverse.Proofs.SourceLookups

/-! Every class that a look-up in a session over sources answers with exists, however it is asked for. -/
namespace ClassUniverse

open Run

/-- In a session over sources a computation keeps the world so, and answers with what satisfies `good`. -/
abbrev Run.Finds (x : Run α) (config : Config) (u : Universe) (w : World) (good : α → World → Prop) : Prop :=
  x.Gives (World.FromSources config u) World.Keeps w good

/-- Loaders answer with what a name may stand for. -/
structure Loader.FromSources (l : Loader) (config : Config) (u : Universe) : Prop where
  ensure : ∀ id stage, (l.ensure id stage).Within (SourcesKept config u)
  names : ∀ {name w}, w.FromSources config u →
    (l.find name).Finds config u w fun named after => ∀ id, named = .cls id → after.arena.Names u name id

theorem Loader.FromSources.found {l : Loader} (sound : l.FromSources config u)
    {w : World} (holds : w.FromSources config u) :
    (l.find name).Finds config u w fun named after => after.HasNamed named :=
  (sound.names holds).mono fun _ _ _ _ names id same => (names id same).inside

theorem Loader.FromSources.discovers {l : Loader} (sound : l.FromSources config u) :
    l.Discovers (World.FromSources config u) where
  ensure := sound.ensure
  found := sound.found
  memos holds := holds.memos
  withMemo key _ holds := holds.withMemo key
  imports holds := holds.imports
  withImports key _ holds := holds.withImports key

namespace Loader

variable {config : Config} {u : Universe} {w : World} {l : Loader}

theorem memberByName_finds (sound : l.FromSources config u) (container name : String)
    (holds : w.FromSources config u) :
    (l.memberByName container name).Finds config u w fun m after => after.Has m ∧ ¬ u.HasPackage container := by
  refine (sound.names holds).bind fun named middle holds _ names => ?_
  split
  · rename_i outer
    refine (findMemberClass_finds sound.discovers outer name none holds).mono fun _ _ _ _ has => ⟨has, ?_⟩
    exact (names outer rfl).free
  · exact gives_throw _ holds

/-- A class is found under its name, or as a member of what its container stands for. -/
theorem classForName_finds (sound : l.FromSources config u) (name : String) (holds : w.FromSources config u) :
    (l.classForName name).Finds config u w fun id after => after.arena.Names u name id ∨
      after.Has id ∧ ∃ container short, splitName '.' name = some (container, short) ∧ ¬ u.HasPackage container := by
  refine (sound.names holds).outcome.bind fun result middle holds _ names => ?_
  split
  · rename_i id
    exact gives_pure holds (.inl (names (.cls id) rfl id rfl))
  · exact gives_fault holds
  · split
    · rename_i container short _ cut
      refine (memberByName_finds sound container short holds).outcome.bind fun inner last holds _ has => ?_
      split
      · rename_i id
        obtain ⟨has, free⟩ := has id rfl
        exact gives_pure holds (.inr ⟨has, container, short, cut, free⟩)
      · exact gives_throw _ holds
    · exact gives_throw _ holds

/-- Only the root class answers to its name: everything that its name lies below is a package. -/
theorem object_finds (rooted : u.Rooted config) (sound : l.FromSources config u) (holds : w.FromSources config u) :
    l.object.Finds config u w fun id after => after.Has id ∧ after.arena.fullName id = config.rootClass := by
  refine gives_get.mpr ?_
  split
  · rename_i id known
    exact gives_pure holds (holds.root id known)
  · rw [holds.configured]
    refine (classForName_finds sound config.rootClass holds).bind fun id middle holds _ answer => ?_
    have named : middle.Has id ∧ middle.arena.fullName id = config.rootClass := by
      rcases answer with names | ⟨_, container, short, cut, free⟩
      · refine ⟨names.inside, names.fits.resolve_right fun ⟨below, free⟩ => ?_⟩
        exact free (rooted.package_of_below below)
      · refine absurd (rooted.package_of_below (isBelow_of_containerName ?_)) free
        simp [containerName?, cut]
    have stored : (modify fun w => { w with root := some id } : Run Unit).Finds config u middle
        fun _ after => after.arena = middle.arena :=
      ends_modify.mpr ⟨⟨holds.withRoot named.1 named.2, Arena.Keeps.refl middle.arena⟩, rfl⟩
    refine stored.bind fun _ last holds _ same => gives_pure holds ?_
    rwa [World.Has, same]

end Loader

end ClassUniverse
