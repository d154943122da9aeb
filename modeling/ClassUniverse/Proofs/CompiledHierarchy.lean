import ClassUniverse.Proofs.Compilation

/-! The postcondition of compiling everything, in any world that a session over sources can come to. -/
namespace ClassUniverse

open Run Loader

/-- Superclasses can be extended, interface lists hold interfaces, nothing is its own ancestor, and all classes
but interfaces and the root have a superclass. -/
structure Arena.WellFormed (root : String) (arena : Arena) : Prop where
  acyclic : arena.Acyclic
  superclass : ∀ id type, (arena.get id).superType = some type → ∃ above : ClassId, type = .cls above ∧
    above.index < arena.size ∧ (arena.get above).flags.isInterface = false ∧ (arena.get above).flags.isFinal = false
  interfaces : ∀ id, ∀ type ∈ (arena.get id).interfaces, ∃ above : ClassId, type = .cls above ∧
    above.index < arena.size ∧ (arena.get above).flags.isInterface = true
  rooted : ∀ id : ClassId, id.index < arena.size → (arena.get id).flags.isInterface = false →
    arena.fullName id ≠ root → (arena.get id).superType.isSome

variable {config : Config}

theorem Arena.FromSources.wellFormed {arena : Arena} (sound : arena.FromSources config u)
    (resolved : ∀ id : ClassId, id.index < arena.size → (arena.get id).stages.has .supertypesResolved) :
    arena.WellFormed config.rootClass where
  __ := sound
  rooted id inside noInterface other := by
    cases superType : (arena.get id).superType with
    | some type => rfl
    | none =>
      rcases sound.rooted id (resolved id inside) superType with interface | root
      · rw [noInterface] at interface
        cases interface
      · exact absurd root other

theorem Arena.fromSources_empty : ({} : Arena).FromSources config u := by
  have absent (id : ClassId) : ({} : Arena).get id = { name := "" } := get_absent _ (Nat.zero_le _)
  have none (id : ClassId) : ¬ id.index < ({} : Arena).size := Nat.not_lt_zero _
  refine {
    superclass := fun id type given => ?_, interfaces := fun id type member => ?_, rooted := fun id has => ?_,
    acyclic := fun id cycle => ?_, nested := fun id inside => absurd inside (none id),
    outers := fun id inside => absurd inside (none id), declared := fun id inside => absurd inside (none id),
    jobbed := fun id inside => absurd inside (none id), scheduled := fun id inside => absurd inside (none id) }
  · simp [absent] at given
  · simp [absent] at member
  · exact absurd (inside_of_stage has) (none id)
  · obtain ⟨parent, above, _⟩ := Relation.TransGen.head'_iff.mp cycle
    simp [parents, absent, ClassRecord.supertypes] at above

theorem World.fromSources_ofUniverse (sourcesOnly : u.classFiles = []) :
    (ofUniverse config u).FromSources config u where
  configured := rfl
  sources := rfl
  files name := by
    have empty : (ofUniverse config u).classPath = {} := by
      simp [ofUniverse, ClassPath.ofList, sourcesOnly]
    rw [empty, ClassPath.find?, List.findSome?_eq_none_iff]
    exact fun _ _ => rfl
  jobs := by simp [ofUniverse]
  arena := Arena.fromSources_empty
  root := nofun
  system := ⟨nofun, nofun⟩
  tabled := nofun
  memos := nofun
  imports key := ⟨nofun, nofun⟩

theorem Leads.compilable (rooted : u.Rooted config) (led : Leads u w after) :
    Kept (fun w => w.Compilable config u ∧ w.AtClass) World.Advances w after :=
  led.preserves (sources_discipline config u) (fun depth => (ofDepth_fromSources depth).preserves rooted)
    fun _ listed w holds => ⟨holds.load listed, Arena.Keeps.refl w.arena⟩

/-- Whatever was loaded and asked before: if everything is compiled without an error, then every job is
initialized, every class of a job has all its stages, and the hierarchy is well formed. -/
theorem compileAll_leaves_wellFormed {depth : Nat} (sourcesOnly : u.classFiles = []) (rooted : u.Rooted config)
    (reached : Reachable config u w) (compiled : (Engine.ofDepth depth).compileAll.on w = some (.ok (), after)) :
    (∀ job ∈ after.schedule.jobIds, after.reached (.typesInitialized job)) ∧
      (∀ id : ClassId, id.index < after.arena.size → (after.arena.get id).job.isSome →
        ∀ stage, after.hasStage id stage) ∧
      after.arena.WellFormed config.rootClass := by
  have start : (World.ofUniverse config u).Compilable config u ∧ (World.ofUniverse config u).AtClass :=
    ⟨⟨World.stagesSound_ofUniverse config u, World.fromSources_ofUniverse sourcesOnly⟩, nofun⟩
  obtain ⟨⟨holds, _⟩, grown⟩ := reached.compilable rooted start
  have idle : w.schedule.running = [] := (sources_discipline config u).stacked grown
  have passes := ((Loader.ofDepth_fromSources depth).preserves rooted).declarationPass
    (Loader.ofDepth_stagesSound depth).toRespects (sources_discipline config u)
  have ended := compileWithin_gives (sources_discipline config u)
    ((sources_discipline config u).attemptWithin_sound passes depth) (attempt_initializes _ depth) id
    (Loader.ofDepth depth).depth holds idle ⟨Nat.zero_le _, fun id before => absurd before (Nat.not_lt_zero _)⟩
  obtain ⟨⟨⟨_, sourced⟩, _⟩, initialized, complete⟩ := Ends.answer ended compiled
  refine ⟨initialized, complete.complete, sourced.arena.wellFormed fun id inside => ?_⟩
  exact complete.complete id inside (sourced.arena.jobbed id inside) .supertypesResolved

/-- Classes of three sources that wait for one another, after look-ups that succeed, fail, or load a job. -/
theorem compileAll_leaves_wellFormed_nested :
    let u : Universe := { sources := [
      { path := "Object.java", package := some "java.lang", classes := [{ name := "Object" }] },
      { path := "A.java", package := some "p", classes := [
        { name := "A", interfaces := ["q.I"], members := [{ name := "B", superclass := some "A" }] }] },
      { path := "I.java", package := some "q", classes := [
        { name := "I", flags := .ofList [.interface], fields := [{ name := "a", type := "p.A.B" }] }] }] }
    let asked := Request.next (.require (.classNamed "p.A")) 100
      (Request.next (.ask (.classNamed "p.Missing")) 100 (.ofUniverse {} u))
    (u.classFiles = [] ∧ u.Rooted {} ∧ Reachable {} u asked) ∧
      ∃ after, (Engine.ofDepth 100).compileAll.on asked = some (.ok (), after) ∧ after.arena.size = 4 ∧
        (∀ job ∈ after.schedule.jobIds, after.reached (.typesInitialized job)) ∧
        (∀ id : ClassId, id.index < after.arena.size → (after.arena.get id).job.isSome →
          ∀ stage, after.hasStage id stage) ∧
        after.arena.WellFormed "java.lang.Object" := by
  intro u asked
  have rooted : u.Rooted {} :=
    ⟨by decide +kernel, _, List.mem_cons_self, _, List.mem_cons_self, by decide +kernel⟩
  have first : Reachable {} u _ := (Leads.refl _).next (.ask (.classNamed "p.Missing")) 100 trivial
  have reached : Reachable {} u asked := first.next (.require (.classNamed "p.A")) 100 trivial
  obtain ⟨after, compiled, size⟩ : ∃ after, (Engine.ofDepth 100).compileAll.on asked = some (.ok (), after) ∧
      after.arena.size = 4 := by decide +kernel
  refine ⟨⟨rfl, rooted, reached⟩, after, compiled, size, ?_⟩
  exact compileAll_leaves_wellFormed rfl rooted reached compiled

/-- The name of the root class must not contain a dot. Otherwise what is declared as a member of a class that
has the name of the root's package may be taken to stand for the root. -/
theorem compileAll_dotted_root :
    let u : Universe := { sources := [
      { path := "O.java", package := some "java", classes := [{ name := "lang.Object" }] },
      { path := "L.java", package := some "java", classes := [
        { name := "lang", flags := .ofList [.final], members := [{ name := "Object.Foo" }] }] }] }
    let asked := Request.next (.require (.superType ⟨1⟩)) 100
      (Request.next (.require (.classNamed "java.lang")) 100 (.ofUniverse {} u))
    (u.classFiles = [] ∧ (u.declared.map (·.1)).Nodup ∧
      (∃ source ∈ u.sources, ∃ decl ∈ source.classes, source.nameOf decl = "java.lang.Object" ∧
        decl.flags.isInterface = false ∧ decl.flags.isFinal = false) ∧ Reachable {} u asked) ∧
      ∃ after, (Engine.ofDepth 100).compileAll.on asked = some (.ok (), after) ∧
        (after.arena.get ⟨1⟩).superType = some (.cls ⟨0⟩) ∧ (after.arena.get ⟨0⟩).flags.isFinal = true := by
  intro u asked
  have first : Reachable {} u _ := (Leads.refl _).next (.require (.classNamed "java.lang")) 100 trivial
  have reached : Reachable {} u asked := first.next (.require (.superType ⟨1⟩)) 100 trivial
  refine ⟨⟨rfl, by decide +kernel, ?_, reached⟩, by decide +kernel⟩
  exact ⟨_, List.mem_cons_self, _, List.mem_cons_self, by decide +kernel⟩

end ClassUniverse
