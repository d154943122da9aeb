import ClassUniverse.Proofs.FailedLoads
import ClassUniverse.Proofs.MissingGoals

/-! Stages that are asked for. A stage is answered for only where the class has it with all that it needs. A class from
a source has its stages from their goals, and the first one that is lacking is reported. -/
namespace ClassUniverse

open Run Loader ClassRecord

variable {w : World} {id : ClassId} {stage : Stage} {r now : ClassRecord} {depth : Nat}

theorem World.inside_of_completion {completion : Completion} (pending : (w.arena.get id).completion = some completion) :
    id.index < w.arena.size := by
  refine Nat.lt_of_not_le fun outside => ?_
  rw [Arena.get_absent _ outside] at pending
  cases pending

theorem Loader.completeNest_finishes (steps : Nat) (inside : id.index < w.arena.size) :
    (completeNest steps id).Ends w (fun _ after => (after.arena.get id).Finished) fun _ _ => True := by
  cases steps with
  | zero => exact ends_exhausted.mpr trivial
  | succ steps =>
    refine ends_bind.mpr (ends_update.mpr (ends_bind.mpr (ends_record.mpr ?_)))
    refine (within_forM (fun member _ => completeNest_respects World.Settles.markAll_within steps member) _).mono
      (fun _ _ kept => (kept.records id (by simpa using inside)).finished ?_) fun _ _ _ => trivial
    rw [Arena.get_modify_self _ inside]
    exact (ClassRecord.Settles.markAll _).1

/-- A class that lacks a stage is finished as a whole. -/
theorem Loader.ensure_assembled (built : (w.arena.get id).completion = some .assembled) :
    ((ofDepth depth).ensure id stage).Ends w
      (fun _ after => after = w ∧ w.hasStage id stage ∨ (after.arena.get id).Finished) fun _ _ => True := by
  cases depth with
  | zero => exact ends_exhausted.mpr trivial
  | succ depth =>
    refine ends_bind.mpr (ends_get.mpr (ends_ite.mpr ⟨fun has => ends_pure.mpr (.inl ⟨rfl, has⟩), fun _ => ?_⟩))
    have before : (stage.prerequisites.forM ((ofDepth depth).ensure id)).Within World.Settles :=
      within_forM fun earlier _ => (World.Settles.loadRelation.ofDepth depth).ensure id earlier
    have inside := World.inside_of_completion built
    refine ends_bind.mpr ((before w).mono (fun _ middle kept => ends_bind.mpr (ends_record.mpr ?_)) fun _ _ _ => trivial)
    rcases (kept.records id inside).completion with same | finished
    · rw [same, built]
      exact (completeNest_finishes _ (Nat.lt_of_lt_of_le inside kept.size)).mono (fun _ _ => .inr) fun _ _ _ => trivial
    · rw [finished.1]
      refine ends_mark.mpr (.inr ?_)
      simp only [Arena.get_modify]
      split
      · exact (ClassRecord.Settles.markStage (.inl (by simp [finished.1]))).finished finished
      · exact finished

/-- The stage needs the other, directly or not. -/
def Stage.Needs : Stage → Stage → Prop := Relation.ReflTransGen fun stage earlier => earlier ∈ stage.prerequisites

/-- A stage with all that come before it, in the order in which they are ensured. -/
def Stage.order : Stage → List Stage
  | .supertypesResolved => [.supertypesResolved]
  | .membersAdded => [.membersAdded]
  | .signaturesResolved => [.membersAdded, .signaturesResolved]
  | .allMembersAdded => [.supertypesResolved, .membersAdded, .signaturesResolved, .allMembersAdded]

theorem Stage.order_eq (stage : Stage) : stage.order = stage.prerequisites.flatMap order ++ [stage] := by
  cases stage <;> rfl

namespace ClassRecord

/-- The class has to wait for a goal: it has not the stage, nor is the stage there for the marking. -/
def lacks (r : ClassRecord) (stage : Stage) : Bool :=
  !r.stages.has stage && !(stage = .signaturesResolved && r.stages.has .membersAdded && r.signaturesCanonical)

/-- What a class asks for that is to have all of the stages. -/
def asks (r : ClassRecord) (id : ClassId) (stages : List Stage) : Except Error Unit :=
  match stages.find? r.lacks with
  | some lacking => .error (.missingDependency (.reach id lacking))
  | none => .ok ()

theorem asks_append (r : ClassRecord) (before rest : List Stage) :
    r.asks id (before ++ rest) = (r.asks id before >>= fun _ => r.asks id rest) := by
  unfold asks
  rw [List.find?_append]
  cases before.find? r.lacks <;> rfl

theorem Staged.needs (sound : r.Staged) (needs : stage.Needs needed) (has : r.stages.has stage) :
    r.stages.has needed := by
  induction needs with
  | refl => exact has
  | tail _ next ih => exact sound.ordered _ ih _ next

/-- The class waits, and for the same goals as before. -/
structure Awaits (r now : ClassRecord) : Prop where
  scheduled : now.completion = some .scheduled
  ordered : ∀ stage, now.stages.has stage → ∀ earlier ∈ stage.prerequisites, now.stages.has earlier
  lacks : now.lacks = r.lacks

theorem Awaits.asks_order (awaits : r.Awaits now) (has : now.stages.has stage) : r.asks id stage.order = .ok () := by
  have held : ∀ earlier ∈ stage.order, now.stages.has earlier := by
    have signatures := awaits.ordered .signaturesResolved
    have last := awaits.ordered .allMembersAdded
    cases stage <;> simp_all [Stage.order, Stage.prerequisites]
  have none : stage.order.find? now.lacks = none :=
    List.find?_eq_none.mpr fun earlier member => by simp [ClassRecord.lacks, held earlier member]
  rw [asks, ← awaits.lacks, none]

theorem Awaits.sign (awaits : r.Awaits now) (missing : ¬ now.stages.has .signaturesResolved)
    (added : now.stages.has .membersAdded) (canonical : now.signaturesCanonical) :
    r.Awaits (now.markStage .signaturesResolved) where
  scheduled := by
    refine (if_neg fun complete => missing ?_).trans awaits.scheduled
    have last : (now.markStage .signaturesResolved).stages.has .allMembersAdded := (isComplete_iff _).mp complete _
    rw [has_markStage, Bool.or_eq_true] at last
    exact awaits.ordered _ (last.resolve_right nofun) _ (by decide)
  ordered stage has earlier member := by
    rw [has_markStage, Bool.or_eq_true, beq_iff_eq] at has ⊢
    rcases has with has | rfl
    · exact .inl (awaits.ordered stage has earlier member)
    · exact .inl (List.mem_singleton.mp member ▸ added)
  lacks := by
    rw [← awaits.lacks]
    funext stage
    have same : (now.markStage .signaturesResolved).signaturesCanonical = now.signaturesCanonical := rfl
    cases stage <;> simp [ClassRecord.lacks, has_markStage, same, added, canonical]

end ClassRecord

section Scheduled

variable (awaits : r.Awaits (w.arena.get id))
include awaits

theorem Loader.on_checkScheduled (stage : Stage) : ∃ after,
    (checkScheduled id stage).on w = some (r.asks id [stage], after) ∧ r.Awaits (after.arena.get id) := by
  have inside := World.inside_of_completion awaits.scheduled
  unfold checkScheduled
  rw [on_bind_ok (show (Run.record id).on w = some (.ok (w.arena.get id), w) from rfl), asks, ← awaits.lacks]
  simp only [List.find?_cons]
  split
  · rename_i has
    simp only [ClassRecord.lacks, has]
    exact ⟨w, rfl, awaits⟩
  · rename_i missing
    split
    · rename_i short
      have held : (w.arena.get id).lacks stage = false := by simp [ClassRecord.lacks, short]
      simp only [Bool.and_eq_true, decide_eq_true_eq] at short
      obtain ⟨⟨rfl, added⟩, canonical⟩ := short
      simp only [held]
      refine ⟨_, rfl, ?_⟩
      rw [Arena.get_modify_self _ inside]
      exact awaits.sign missing added canonical
    · rename_i waits
      simp only [ClassRecord.lacks, Bool.eq_false_iff.mpr missing, Bool.eq_false_iff.mpr waits]
      exact ⟨w, rfl, awaits⟩

/-- The first of the stages that the class lacks is reported. -/
theorem Loader.on_ensure_order (deep : stage.order.length ≤ depth) : ∃ after,
    ((ofDepth depth).ensure id stage).on w = some (r.asks id stage.order, after) ∧ r.Awaits (after.arena.get id) := by
  induction depth generalizing stage w with
  | zero => cases stage <;> cases deep
  | succ depth ih =>
    by_cases has : w.hasStage id stage
    · exact ⟨w, by rw [ensure_reached depth has, awaits.asks_order has], awaits⟩
    have before (stages : List Stage) (lower : ∀ earlier ∈ stages, earlier.order.length ≤ depth) {w : World}
        (awaits : r.Awaits (w.arena.get id)) : ∃ after, (stages.forM ((ofDepth depth).ensure id)).on w =
          some (r.asks id (stages.flatMap Stage.order), after) ∧ r.Awaits (after.arena.get id) := by
      induction stages generalizing w with
      | nil => exact ⟨w, rfl, awaits⟩
      | cons earlier rest more =>
        obtain ⟨middle, ran, awaits⟩ := ih awaits (lower earlier List.mem_cons_self)
        rw [List.flatMap_cons, asks_append]
        cases outcome : r.asks id earlier.order with
        | error e => exact ⟨middle, on_bind_error (outcome ▸ ran), awaits⟩
        | ok _ =>
          obtain ⟨after, rest, awaits⟩ := more (fun other member => lower other (List.mem_cons_of_mem _ member)) awaits
          exact ⟨after, (on_bind_ok (outcome ▸ ran)).trans rest, awaits⟩
    have lower : ∀ earlier ∈ stage.prerequisites, earlier.order.length ≤ depth := by
      cases stage <;> simp_all [Stage.prerequisites, Stage.order]
      omega
    obtain ⟨middle, ran, awaits⟩ := before _ lower awaits
    change ∃ after, ((ofDepth depth).ensureStage id stage).on w = _ ∧ _
    unfold ensureStage
    rw [on_get_bind, if_neg has, Stage.order_eq, asks_append]
    cases outcome : r.asks id (stage.prerequisites.flatMap Stage.order) with
    | error e => exact ⟨middle, on_bind_error (outcome ▸ ran), awaits⟩
    | ok _ =>
      rw [on_bind_ok (outcome ▸ ran)]
      change ∃ after, ((ofDepth depth).complete id stage (middle.arena.get id).completion).on middle = _ ∧ _
      rw [awaits.scheduled]
      exact on_checkScheduled awaits stage

end Scheduled

/-- Stages are gated alike in every session and for every way to complete a class. If a stage is ensured, the class has
it with all that it needs, and ensuring it again changes nothing. A class from a source asks for the goal of the first stage that it lacks, in the
order in which stages need each other, unless that is there for the marking. It never asks for a stage that it had. -/
theorem stage_gates_sound (depth : Nat) (id : ClassId) (stage : Stage) :
    (∀ w after, (∃ config u, Reachable config u w ∧ id.index < w.arena.size) ∨
        (w.arena.get id).completion = some .assembled ∧ (w.arena.get id).Staged →
      ((ofDepth depth).ensure id stage).on w = some (.ok (), after) →
      (∀ needed, stage.Needs needed → after.hasStage id needed) ∧
      ∀ further, ((ofDepth (further + 1)).ensure id stage).on after = some (.ok (), after)) ∧
    ∀ config u w, Reachable config u w → (w.arena.get id).completion = some .scheduled →
      (∃ after, ((ofDepth (depth + 4)).ensure id stage).on w = some ((w.arena.get id).asks id stage.order, after)) ∧
      ∀ earlier had after, Leads u earlier w → Reachable config u earlier → earlier.hasStage id had →
        ((ofDepth (depth + 4)).ensure id stage).on w ≠ some (.error (.missingDependency (.reach id had)), after) := by
  refine ⟨fun w after given ran => ?_, fun config u w reached scheduled => ?_⟩
  · have needed : after.hasStage id stage ∧ ∀ needed, stage.Needs needed → after.hasStage id needed := by
      rcases given with ⟨config, u, reached, inside⟩ | ⟨built, sound⟩
      · obtain ⟨⟨sound, grown⟩, has⟩ := Ends.answer ((ofDepth_stagesSound depth).reaches stage reached.staged.1 inside) ran
        exact ⟨has, fun needed needs => (sound.records id (grown.inside inside)).toStaged.needs needs has⟩
      · rcases (ensure_assembled built).answer ran with ⟨rfl, has⟩ | finished
        · exact ⟨has, fun needed needs => sound.needs needs has⟩
        · exact ⟨finished.2 stage, fun needed _ => finished.2 needed⟩
    exact ⟨needed.2, fun further => ensure_reached further needed.1⟩
  · have inside := World.inside_of_completion scheduled
    have ordered := (reached.staged.1.records id inside).toStaged.ordered
    have deep : stage.order.length ≤ depth + 4 := by
      cases stage <;> simp [Stage.order]
    obtain ⟨end_, told, _⟩ := on_ensure_order ⟨scheduled, ordered, rfl⟩ deep
    refine ⟨⟨end_, told⟩, fun earlier had after led first held ran => ?_⟩
    have still : (w.arena.get id).stages.has had :=
      (led.stages ⟨first.staged.1, first.staged.2.1⟩).2.stages id had held
    rw [told, asks] at ran
    split at ran
    · rename_i lacking found
      cases ran
      have lacks := List.find?_some found
      simp [ClassRecord.lacks, still] at lacks
    · cases ran

/-- A class whose members are known while the names in their signatures are not. -/
theorem stage_gates_sound_members :
    let u : Universe := { sources := [
      { path := "Object.java", package := some "java.lang", classes := [{ name := "Object" }] },
      { path := "A.java", package := some "p", classes := [
        { name := "A", fields := [{ name := "next", type := "A[]" }] }] }] }
    let known := Request.next (.require (.classNamed "p.A")) 100 (.ofUniverse {} u)
    let w := Request.next (.require (.fields ⟨0⟩)) 100 known
    (w.arena.get ⟨0⟩).stages.has .membersAdded ∧ ∃ after, ((ofDepth 4).ensure ⟨0⟩ .allMembersAdded).on w =
      some (.error (.missingDependency (.reach ⟨0⟩ .supertypesResolved)), after) := by
  intro u known w
  have first : Reachable {} u known := (Leads.refl _).next (.require (.classNamed "p.A")) 100 trivial
  have reached : Reachable {} u w := first.next (.require (.fields ⟨0⟩)) 100 trivial
  have given : (w.arena.get ⟨0⟩).completion.map Completion.isFromClassFile = some false := by decide +kernel
  have scheduled : (w.arena.get ⟨0⟩).completion = some .scheduled := by
    have unbuilt := (reached.staged.1.records ⟨0⟩ (by decide +kernel)).unbuilt
    obtain ⟨completion, pending, other⟩ := Option.map_eq_some_iff.mp given
    cases completion <;> simp_all [Completion.isFromClassFile]
  have lacking : Stage.allMembersAdded.order.find? (w.arena.get ⟨0⟩).lacks = some .supertypesResolved := by
    decide +kernel
  obtain ⟨⟨after, ran⟩, _⟩ := (stage_gates_sound 0 ⟨0⟩ .allMembersAdded).2 {} u w reached scheduled
  rw [asks, lacking] at ran
  exact ⟨by decide +kernel, after, ran⟩

end ClassUniverse
