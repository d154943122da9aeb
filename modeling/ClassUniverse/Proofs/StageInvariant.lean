import ClassUniverse.Proofs.StagesPasses

/-! In every world that requests can lead to, the stages of all classes are in order. -/
namespace ClassUniverse

open Run Loader StagesKept ClassRecord

/-- Errors of the computation do not ask for a goal. -/
abbrev Run.Settles (x : Run α) : Prop := x.Meets (fun _ => True) (fun e => e.missingGoal? = none)

theorem Loader.initializeTypes_settles (job : JobId) : (initializeTypes job).Settles := by
  have asksNothing : (initializeTypes job).Within Anything fun _ => False :=
    initializeTypes_elsewhere (R := Anything) (fun _ => trivial) job
  refine asksNothing.meets.mono (fun _ _ => trivial) fun e asks => ?_
  exact Option.eq_none_iff_forall_ne_some.mpr fun goal missing => asks goal missing

/-- The bookkeeping of goals does not touch classes, and never makes a job wait. -/
theorem stages_discipline : Discipline World.StagesSound World.Grows where
  reached {w after goal} grown reached := by
    cases goal with
    | typesInitialized job =>
      have member : job ∈ w.schedule.initialized := by simpa [World.reached] using reached
      simpa [World.reached] using grown.initialized job member
    | reach id stage => exact grown.stages id stage reached
  stacked grown := grown.running
  running goals sound := ⟨sound.records, sound.declared, sound.free⟩
  unwound grown := ⟨grown.size, grown.stages, grown.initialized, by rw [grown.running]; rfl⟩
  counted goal w := of_schedule (fun _ => rfl) (fun _ member => member) rfl
  concurrent goal other w := of_schedule (fun _ => rfl) (fun _ member => member) rfl
  required {id stage goal schedule} w recorded := by
    unfold Schedule.addPrerequisite? at recorded
    split at recorded
    · cases recorded
    · obtain rfl := Option.some.inj recorded
      refine of_schedule (fun job => ?_) (fun _ member => member) rfl
      simp [Assoc.getD, Assoc.find?_insert]
  free sound := sound.free _
  initialized job w := by
    refine of_schedule (fun _ => rfl) (fun other member => ?_) rfl
    simp only [Schedule.setInitialized]
    split
    · exact member
    · exact List.mem_cons_of_mem _ member

section Passes

variable {l : Loader} {w : World} {id : ClassId} {attempt : Attempt}

theorem markLast_completes {middle : World}
    (ready : ∀ earlier ∈ Stage.allMembersAdded.prerequisites, w.hasStage id earlier) (holds : middle.StagesSound)
    (grown : w.Grows middle) : (mark id .allMembersAdded).Completes middle id .allMembersAdded := by
  have ready (earlier) (member : earlier ∈ Stage.allMembersAdded.prerequisites) : middle.hasStage id earlier :=
    grown.stages id earlier (ready earlier member)
  exact mark_completes holds (Arena.inside_of_stage (ready .supertypesResolved (by decide))) ready nofun

/-- The passes for the stages before the last attempt nothing themselves. -/
theorem Loader.earlyStage_completes (sound : l.Respects StagesKept) (attempt : Attempt) (holds : w.StagesSound)
    {stage : Stage} (early : stage ≠ .allMembersAdded) (fresh : ¬ w.hasStage id stage)
    (ready : ∀ earlier ∈ stage.prerequisites, w.hasStage id earlier) :
    (l.reachStage attempt id stage).Completes w id stage := by
  cases stage with
  | supertypesResolved => exact resolveSupertypes_completes sound holds
  | membersAdded => exact addMembers_completes holds fresh
  | signaturesResolved => exact resolveSignatures_completes sound holds (ready _ (by decide))
  | allMembersAdded => exact absurd rfl early

theorem Loader.reachStage_completes (sound : l.Respects StagesKept)
    (attempts : attempt.Sound World.StagesSound World.Grows) (holds : w.StagesSound) (at_ : w.AtClass)
    {stage : Stage} (fresh : ¬ w.hasStage id stage) (ready : ∀ earlier ∈ stage.prerequisites, w.hasStage id earlier) :
    (l.reachStage attempt id stage).Completes w id stage := by
  by_cases last : stage = .allMembersAdded
  · subst last
    exact stages_discipline.checkAllMembers_gives sound attempts holds at_ fun _ => markLast_completes ready
  · exact earlyStage_completes sound attempt holds last fresh ready

/-- The pass over a class, if reaching its next stage is sound. -/
theorem Loader.declarationPass_gives [WorldOrder G] (holds : P w) (reaches : ¬ w.hasStage id stage →
      (l.reachStage attempt id stage).Gives P G w fun _ after => after.hasStage id stage) :
    (l.declarationPass attempt (.reach id stage)).Gives P G w
      fun reached after => reached = true → after.hasStage id stage := by
  refine gives_get.mpr (gives_ite (fun has => gives_pure holds fun _ => has) fun fresh => ?_)
  exact (reaches fresh).bind fun _ after holds _ has => gives_pure holds fun _ => has

theorem Loader.declarationPass_jobs
    (kept : ∀ job, (initializeTypes job).Within (Kept P G)) : (l.declarationPass).JobsSound P G where
  jobs attempt job w holds := by
    unfold declarationPass
    rw [ends_bind]
    refine (((kept job).ends holds).and (initializeTypes_settles job w)).mono ?_ ?_
    · rintro _ after ⟨grown, _⟩
      exact ends_pure.mpr ⟨grown, rfl⟩
    · exact fun _ after failed => failed

theorem Loader.declarationPass_stages (sound : l.Respects StagesKept) :
    (l.declarationPass).Sound World.StagesSound World.Grows where
  toJobsSound := declarationPass_jobs initializeTypes_within
  classes {_} attempts _ _ _ holds at_ ready :=
    declarationPass_gives holds fun fresh => reachStage_completes sound attempts holds at_ fresh ready

end Passes

theorem World.stagesSound_ofUniverse (config : Config) (u : Universe) : (ofUniverse config u).StagesSound where
  records id inside := absurd inside (Nat.not_lt_zero _)
  declared id found := by simp [ofUniverse, Assoc.contains] at found
  free job := rfl

theorem Leads.stages {w after : World} (led : Leads u w after) :
    Kept (fun w => w.StagesSound ∧ w.AtClass) World.Grows w after := by
  refine led.within fun request depth belongs => ?_
  have sound := (ofDepth_stagesSound depth).toRespects
  exact stages_discipline.request_within (declarationPass_stages sound) (sound.also stages_discipline.atClass)
    (fun source _ w => load w source) request belongs

/-- However a session came to a world and whatever is asked next, failing requests included: no class of
it loses a stage, each stage has the stages before it, the completion is given up with the last stage, and
resolved signatures hold no unresolved name. -/
theorem stages_stay_in_order {config : Config} {u : Universe} {w after : World} (reached : Reachable config u w)
    (led : Leads u w after) {id : ClassId} (inside : id.index < w.arena.size) :
    (∀ stage, w.hasStage id stage → after.hasStage id stage) ∧ (after.arena.get id).Staged := by
  have start : (World.ofUniverse config u).StagesSound ∧ (World.ofUniverse config u).AtClass :=
    ⟨World.stagesSound_ofUniverse config u, nofun⟩
  obtain ⟨holds, _⟩ := reached.stages start
  obtain ⟨⟨sound, _⟩, grown⟩ := led.stages holds
  exact ⟨grown.stages id, (sound.records id (grown.inside inside)).toStaged⟩

/-- A class that is still a shell when it is first asked for, and everything once all is compiled. -/
theorem stages_stay_in_order_compiled :
    let u : Universe := { sources := [
      { path := "Object.java", package := some "java.lang", classes := [{ name := "Object" }] },
      { path := "A.java", package := some "p", classes := [
        { name := "A", fields := [{ name := "next", type := "A[]" }], members := [{ name := "B" }] }] }] }
    let asked := Request.next (.ask (.classNamed "p.A")) 100 (.ofUniverse {} u)
    let found := Request.next (.require (.memberClasses ⟨0⟩)) 100
      (Request.next (.require (.classNamed "p.A")) 100 asked)
    let compiled := Request.next .compileAll 100 found
    (found.arena.size = 2 ∧ found.hasStage ⟨0⟩ .membersAdded = true ∧ found.hasStage ⟨0⟩ .signaturesResolved = false ∧
      compiled.hasStage ⟨0⟩ .allMembersAdded = true) ∧
      (∀ stage, found.hasStage ⟨0⟩ stage → compiled.hasStage ⟨0⟩ stage) ∧ (compiled.arena.get ⟨0⟩).Staged := by
  intro u asked found compiled
  refine ⟨by decide +kernel, ?_⟩
  have first : Reachable {} u asked := (Leads.refl _).next (.ask (.classNamed "p.A")) 100 trivial
  have second := first.next (.require (.classNamed "p.A")) 100 trivial
  have reached : Reachable {} u found := second.next (.require (.memberClasses ⟨0⟩)) 100 trivial
  exact stages_stay_in_order reached ((Leads.refl found).next .compileAll 100 trivial) (by decide +kernel)

end ClassUniverse
