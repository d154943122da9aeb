import ClassUniverse.Proofs.Declaring
import ClassUniverse.Proofs.Stages

/-! The last stage is reached only where it is asked for. Look-ups, the stages before the last and the passes for them
bring no class to it, and no goal that they miss is the last stage of a class. -/
namespace ClassUniverse

open Run Loader

/-- Anything but the last stage of a class. -/
def Goal.Early : Goal → Prop
  | .reach _ .allMembersAdded => False
  | _ => True

theorem Goal.early_of_ne {id : ClassId} (early : stage ≠ .allMembersAdded) : (reach id stage).Early := by
  cases stage with
  | allMembersAdded => exact absurd rfl early
  | _ => trivial

/-- No class is built in place. -/
def World.Unbuilt (w : World) : Prop := ∀ id, (w.arena.get id).completion ≠ some .assembled

/-- No class is brought to the last stage. -/
def World.FinishesNone (w after : World) : Prop :=
  ∀ id, after.hasStage id .allMembersAdded → w.hasStage id .allMembersAdded

instance : WorldOrder World.FinishesNone where
  refl _ _ has := has
  trans first second id has := first id (second id has)

abbrev EarlyKept : World → World → Prop := Kept World.Unbuilt World.FinishesNone

/-- The record is not brought to the last stage, nor built in place from now on. -/
structure ClassRecord.StaysEarly (r after : ClassRecord) : Prop where
  stages : after.stages.has .allMembersAdded → r.stages.has .allMembersAdded
  unbuilt : r.completion ≠ some .assembled → after.completion ≠ some .assembled

namespace ClassRecord.StaysEarly

variable {r : ClassRecord}

theorem of_same (stages : next.stages = r.stages) (completion : next.completion = r.completion) : r.StaysEarly next :=
  ⟨fun has => stages ▸ has, fun unbuilt => completion ▸ unbuilt⟩

theorem mark (held : r.StaysEarly next) (early : stage ≠ .allMembersAdded) : r.StaysEarly (next.markStage stage) := by
  refine ⟨fun has => held.stages ?_, fun unbuilt => ?_⟩
  · rw [has_markStage] at has
    simpa [early.symm] using has
  · unfold markStage
    dsimp only
    split
    · nofun
    · exact held.unbuilt unbuilt

theorem markAll {stages : List Stage} (held : r.StaysEarly next) (early : ∀ stage ∈ stages, stage ≠ .allMembersAdded) :
    r.StaysEarly (next.markStages stages) := by
  induction stages generalizing next with
  | nil => exact held
  | cons stage rest ih =>
    exact ih (held.mark (early stage List.mem_cons_self)) fun later member => early later (List.mem_cons_of_mem _ member)

end ClassRecord.StaysEarly

namespace EarlyKept

theorem of_arena (same : after.arena = w.arena) : EarlyKept w after := by
  intro unbuilt
  refine ⟨fun id => ?_, fun id has => ?_⟩
  · rw [same]
    exact unbuilt id
  · rwa [World.hasStage, same] at has

variable {id : ClassId}

theorem update_within (early : ∀ r : ClassRecord, r.StaysEarly (change r)) :
    (update id change).Within EarlyKept goals := by
  refine within_modify fun w unbuilt => ?_
  have each (other : ClassId) : (w.arena.get other).StaysEarly ((w.arena.modify id change).get other) := by
    rw [Arena.get_modify]
    split
    · rename_i both
      exact both.1 ▸ early _
    · exact .of_same rfl rfl
  exact ⟨fun other => (each other).unbuilt (unbuilt other), fun other => (each other).stages⟩

theorem mark_within (early : stage ≠ .allMembersAdded) : (mark id stage).Within EarlyKept goals :=
  update_within fun _ => .mark (.of_same rfl rfl) early

theorem addClass_within {record : ClassRecord} (bare : record.Bare) : (addClass record).Within EarlyKept goals := by
  refine fun w => ends_addClass.mpr fun unbuilt => ⟨fun id => ?_, fun id has => ?_⟩
  · rw [Arena.get_add]
    split
    · exact bare.unbuilt
    · exact unbuilt id
  · rw [World.hasStage, Arena.get_add] at has
    split at has
    · rw [bare.stages] at has
      cases has
    · exact has

theorem addNamed_within (name : String) (named : Named) : (System.addNamed name named).Within EarlyKept goals :=
  System.addNamed_within (fun _ _ => of_arena rfl) name named

section Completing

variable {l : Loader} (sound : l.Rooted EarlyKept Goal.Early) {stage : Stage} (early : stage ≠ .allMembersAdded)
include sound early

theorem derive_within (file : ClassFile) : (file.derive l id stage).Within EarlyKept Goal.Early := by
  refine ClassFile.derive_respects sound (fun _ _ _ => ?_) (fun _ _ _ _ _ => ?_) (absurd · early) file
  · exact update_within fun _ => .mark (.of_same rfl rfl) nofun
  · exact update_within fun _ => .markAll (.of_same rfl rfl) (by decide)

theorem ensureStage_within (id : ClassId) : (l.ensureStage id stage).Within EarlyKept Goal.Early := by
  refine ensureStage_steps sound (Goal.early_of_ne early) (fun w _ => mark_within early w) (fun w built => ?_)
    (fun w file _ => derive_within sound early file w)
  -- Nothing is claimed of worlds where a class is built in place, except that no goal is missed then.
  have asks : (completeNest l.depth id).Within Anything Goal.Early :=
    completeNest_respects (fun _ => within_modify fun _ => trivial) l.depth id
  exact (asks w).mono (fun _ _ _ unbuilt => absurd built (unbuilt id))
    (fun _ _ failed => ⟨fun unbuilt => absurd built (unbuilt id), failed.2⟩)

end Completing

theorem loadRelation : LoadRelation EarlyKept Goal.Early := by
  refine .of_elsewhere (fun _ _ _ _ => of_arena rfl) (fun _ => trivial) (fun _ _ => ends_modifyGet.mpr (of_arena rfl))
    (fun _ shell => addClass_within shell.toBare) ?_ (fun sound => object_within sound fun _ _ => of_arena rfl) ?_
  · intro l sound m kind package name
    refine within_bind (m.declare_respects (fun _ shell => addClass_within shell.toBare)
      (fun name id => addNamed_within name _) kind package name) fun id => ?_
    refine within_bind (m.populate_respects sound fun _ _ _ _ _ _ => ?_) fun _ => within_pure _
    exact update_within fun _ => .markAll (.of_same rfl rfl) (by decide)
  · intro l sound id stage open_
    exact ensureStage_within sound (fun last => open_ last (.reach id .allMembersAdded)) id

end EarlyKept

theorem Loader.ofDepth_early (depth : Nat) : (Loader.ofDepth depth).Respects EarlyKept Goal.Early :=
  EarlyKept.loadRelation.ofDepth depth

section Passes

open EarlyKept

theorem Loader.initializeTypes_early (job : JobId) : (initializeTypes job).Within EarlyKept Goal.Early :=
  initializeTypes_respects (fun _ bare => addClass_within bare) (fun name id => addNamed_within name (.cls id))
    (fun _ _ => of_arena rfl) (fun _ _ => of_arena rfl) (fun _ _ => update_within fun _ => .of_same rfl rfl)
    (fun _ _ => of_arena rfl) job

theorem Loader.reachStage_early {l : Loader} (sound : l.Respects EarlyKept Goal.Early) (attempt : Attempt)
    (early : stage ≠ .allMembersAdded) (id : ClassId) :
    (l.reachStage attempt id stage).Within EarlyKept Goal.Early := by
  refine reachStage_within sound attempt early (fun _ => ⟨fun _ _ => ?_, ?_⟩) fun _ _ _ => ?_
  · exact update_within fun _ => .of_same rfl rfl
  · exact mark_within nofun
  · exact update_within fun _ => .mark (.of_same rfl rfl) early

end Passes

end ClassUniverse
