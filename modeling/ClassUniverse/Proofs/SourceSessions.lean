import ClassUniverse.Proofs.CompiledHierarchy
import ClassUniverse.Proofs.HaltingPasses

/-! Wherever a session over sources alone gets to, everything in it is from these sources, whether or not they
make sense. -/
namespace ClassUniverse

open Run Loader

variable {u : Universe}

theorem Loader.ofDepth_staysSourced (depth : Nat) : (Loader.ofDepth depth).Preserves (World.SourceOnly u) Anything where
  lookups := (ofDepth_looks depth).staysSourced
  jobs job := (initializeTypes_adds job).staysSourced
  supertypes := resolveSupertypes_staysSourced (ofDepth_looks depth)
  members id := (addMembers_adds id).staysSourced
  signatures id := resolveSignatures_within (ofDepth_looks depth).staysSourced fun _ _ _ =>
    (SourceKept.members_steady id _ _ _ _).staysSourced
  last id := (SourceKept.mark_steady id _).staysSourced

theorem World.sourceOnly_ofUniverse {config : Config} (sourcesOnly : u.classFiles = []) :
    (ofUniverse config u).SourceOnly u := by
  have start : (ofUniverse config u).FromSources config u := fromSources_ofUniverse sourcesOnly
  refine {
    sources := rfl, files := start.files, jobs := start.jobs, paths := List.nodup_nil,
    declared := fun id decl found => ?_, scheduled := fun id => .inl ?_, width := fun id => ?_,
    acyclic := start.arena.acyclic }
  · simp [ofUniverse] at found
  · rw [Arena.get_absent _ (Nat.zero_le _)]
  · rw [Arena.get_absent _ (Nat.zero_le _)]
    exact Nat.zero_le _

/-- Between requests nothing is being produced. -/
theorem Reachable.sourceOnly {w : World} (sourcesOnly : u.classFiles = [])
    (reached : Reachable config u w) : w.SourceOnly u ∧ w.schedule.running = [] := by
  have start : ((World.ofUniverse config u).StagesSound ∧ (World.ofUniverse config u).SourceOnly u) ∧
      (World.ofUniverse config u).AtClass :=
    ⟨⟨World.stagesSound_ofUniverse config u, World.sourceOnly_ofUniverse sourcesOnly⟩, nofun⟩
  obtain ⟨⟨⟨_, sourced⟩, _⟩, grown⟩ := Leads.preserves reached
    (stages_discipline.both (fun _ _ same holds => ⟨holds.withSchedule same, trivial⟩) id) ofDepth_staysSourced
    (fun source listed w holds => ⟨(SourceKept.load listed w holds).1, trivial⟩) start
  exact ⟨sourced, grown.1.running⟩

end ClassUniverse
