import ClassUniverse.Proofs.FailedLoads

/-! Classes whose completion fails. A stage that could not be had has left nothing of itself behind, but a failing
completion may come upon its own class again, and there a visit that is nested in it may do the work. -/
namespace ClassUniverse

open Run Loader

/-- Whether or not a stage of a class can be had, what is there belongs to stages that the class has. Supertypes and
members are as they were if the class had them already, if it still lacks their stage, and if no class file is behind
it. No stage is lost, and one that the class has by then is had without any further work. -/
theorem failed_completion_keeps_data {depth : Nat} {id : ClassId} {stage : Stage} {w after : World}
    {result : Except Error Unit} (inside : id.index < w.arena.size)
    (ran : ((ofDepth depth).ensure id stage).on w = some (result, after)) :
    let r := w.arena.get id
    let next := after.arena.get id
    (r.Underived ∨ r.stages.has .supertypesResolved ∨ ¬ next.stages.has .supertypesResolved →
      next.superType = r.superType ∧ next.interfaces = r.interfaces) ∧
    (r.Underived ∨ r.stages.has .membersAdded ∧ r.stages.has .signaturesResolved ∨ ¬ next.stages.has .membersAdded →
      next.members = r.members ∧ next.fields = r.fields ∧ next.methods = r.methods ∧
        next.constructors = r.constructors) ∧
    ∀ other, (r.stages.has other → next.stages.has other) ∧
      (next.stages.has other → ∀ further, ((ofDepth (further + 1)).ensure id other).on after = some (.ok (), after)) := by
  have settled := (((World.Settles.loadRelation.ofDepth depth).ensure id stage).left ran).records id inside
  refine ⟨fun known => Prod.mk.inj (settled.lineage known), fun known => ?_, fun other => ⟨settled.stages other, ?_⟩⟩
  · simpa only [ClassRecord.body, Prod.mk.injEq] using settled.body known
  · exact fun has further => ensure_reached further has

/-- The superclass of a class is nowhere to be found. -/
theorem failed_completion_keeps_data_absent :
    let u : Universe := { classFiles := [
      { name := "java.lang.Object", raw := some { name := "java.lang.Object" } },
      { name := "p.A", raw := some { name := "p.A", superclass := some "p.N" } }] }
    let w := Request.next (.ask (.classNamed "p.A")) 20 (.ofUniverse {} u)
    ∃ e after, ((ofDepth 20).ensure ⟨0⟩ .allMembersAdded).on w = some (.error e, after) ∧
      ¬ after.hasStage ⟨0⟩ .supertypesResolved ∧
      (after.arena.get ⟨0⟩).superType = (w.arena.get ⟨0⟩).superType := by
  intro u w
  obtain ⟨e, after, ran, missing⟩ : ∃ e after, ((ofDepth 20).ensure ⟨0⟩ .allMembersAdded).on w =
      some (.error e, after) ∧ ¬ after.hasStage ⟨0⟩ .supertypesResolved := by decide +kernel
  have kept := failed_completion_keeps_data (show 0 < w.arena.size by decide +kernel) ran
  exact ⟨e, after, ran, missing, (kept.1 (.inr (.inr missing))).1⟩

/-- A class file says that the class extends another one. That one has metadata, and for the field in it a member of
the first class is looked for, so its supertypes are derived by a visit that is nested in the first one. The
look-up fails in the end, and with it the first visit, which is over when the supertypes are there. -/
theorem failed_completion_completes :
    let document : Metadata := { version := "0.1.0", name := "p.N", fields := [{ name := "x", type := "p.A.X" }] }
    let u : Universe := { classFiles := [
      { name := "java.lang.Object", raw := some { name := "java.lang.Object" } },
      { name := "p.A", raw := some { name := "p.A", superclass := some "p.N" } },
      { name := "p.N", compilerVersion := some "0.1.0", encoded := .ofList [("jltc", document.render)] }] }
    let w := Request.next (.ask (.classNamed "p.A")) 30 (.ofUniverse {} u)
    Reachable {} u w ∧ ¬ w.hasStage ⟨0⟩ .supertypesResolved ∧ (w.arena.get ⟨0⟩).superType = none ∧
      ∃ e after, ((ofDepth 30).ensure ⟨0⟩ .supertypesResolved).on w = some (.error e, after) ∧
        after.hasStage ⟨0⟩ .supertypesResolved ∧ (after.arena.get ⟨0⟩).superType = some (.cls ⟨1⟩) ∧
        ((ofDepth 1).ensure ⟨0⟩ .supertypesResolved).on after = some (.ok (), after) := by
  intro document u w
  have reached : Reachable {} u w := (Leads.refl _).next (.ask (.classNamed "p.A")) 30 trivial
  obtain ⟨e, after, ran, has, extended⟩ : ∃ e after, ((ofDepth 30).ensure ⟨0⟩ .supertypesResolved).on w =
      some (.error e, after) ∧ after.hasStage ⟨0⟩ .supertypesResolved ∧
        (after.arena.get ⟨0⟩).superType = some (.cls ⟨1⟩) := by decide +kernel
  exact ⟨reached, by decide +kernel, by decide +kernel, e, after, ran, has, extended, ensure_reached 0 has⟩

end ClassUniverse
