import ClassUniverse.Proofs.WholeLookups
import ClassUniverse.Proofs.EarlyStages
import ClassUniverse.Proofs.FailedLoads
import ClassUniverse.Proofs.MissingGoals

/-! What the last stage of a class says about its supertypes. A class comes to it after its supertypes, unless it is
above itself or its members are read from metadata, and only the last stage of a class below waits for it. Look-ups
and completions keep it so. -/
namespace ClassUniverse

open Run Loader Relation

variable {D : String → Prop} {w after : World} {id : ClassId} {bad : Error → World → Prop}

namespace World

/-- The supertypes of the class are known, and the other is one of them. -/
def Above (w : World) (id above : ClassId) : Prop := w.hasStage id .supertypesResolved ∧ above ∈ w.arena.parents id

/-- What goes with the last stage of a class. -/
def Finished (D : String → Prop) (w : World) (id : ClassId) : Prop :=
  (∃ name ∈ (w.arena.get id).fileName, D name) ∨ TransGen w.Above id id ∨
    ∀ above ∈ w.arena.parents id, w.hasStage above .allMembersAdded

structure Ranked (D : String → Prop) (w : World) : Prop where
  staged : w.StagesSound
  whole : w.Whole D
  finished : ∀ id, w.hasStage id .allMembersAdded → w.Finished D id
  awaited : ∀ goal id, w.schedule.Waits goal (.reach id .allMembersAdded) →
    ∃ child, goal = .reach child .allMembersAdded ∧ TransGen w.Above child id

/-- What lasts while classes are completed and goals come to wait for one another. -/
structure Progress (w after : World) : Prop where
  grows : w.Grows after
  headers : w.Keeps after
  supertypes : ∀ id, w.hasStage id .supertypesResolved →
    (after.arena.get id).supertypes = (w.arena.get id).supertypes
  waits : w.schedule.Extends after.schedule

instance : WorldOrder Progress where
  refl w := ⟨WorldOrder.refl w, WorldOrder.refl w, fun _ _ => rfl, .refl w.schedule⟩
  trans first second := {
    grows := WorldOrder.trans first.grows second.grows
    headers := WorldOrder.trans first.headers second.headers
    supertypes := fun id has =>
      (second.supertypes id (first.grows.stages id _ has)).trans (first.supertypes id has)
    waits := first.waits.trans second.waits }

namespace Progress

theorem parents (grown : w.Progress after) (has : w.hasStage id .supertypesResolved) :
    after.arena.parents id = w.arena.parents id := by
  rw [Arena.parents, grown.supertypes id has, Arena.parents]

theorem above (grown : w.Progress after) (id above : ClassId) (held : w.Above id above) : after.Above id above :=
  ⟨grown.grows.stages id _ held.1, by rw [grown.parents held.1]; exact held.2⟩

theorem finished (grown : w.Progress after) (has : w.hasStage id .supertypesResolved)
    (finished : w.Finished D id) : after.Finished D id := by
  rcases finished with documented | cyclic | every
  · left
    rwa [grown.headers.fileName (Arena.inside_of_stage has)]
  · exact .inr (.inl (TransGen.mono grown.above _ _ cyclic))
  · refine .inr (.inr fun above member => ?_)
    rw [grown.parents has] at member
    exact grown.grows.stages above _ (every above member)

end Progress

/-- Known supertypes stay what they are. -/
def Freezes (w after : World) : Prop := ∀ id, w.hasStage id .supertypesResolved →
  after.hasStage id .supertypesResolved ∧ (after.arena.get id).supertypes = (w.arena.get id).supertypes

instance : WorldOrder Freezes where
  refl _ _ has := ⟨has, rfl⟩
  trans first second id has := by
    obtain ⟨has, same⟩ := first id has
    obtain ⟨has, again⟩ := second id has
    exact ⟨has, again.trans same⟩

theorem Freezes.update_within
    (stages : ∀ r : ClassRecord, r.stages.has .supertypesResolved → (change r).stages.has .supertypesResolved)
    (supertypes : ∀ r, (change r).supertypes = r.supertypes) : (update id change).Within Freezes := by
  refine within_modify fun w other has => ?_
  rw [hasStage, Arena.get_modify]
  split
  · rename_i both
    rw [both.1] at has
    exact ⟨stages _ has, by rw [supertypes, both.1]⟩
  · exact ⟨has, rfl⟩

/-- The goals being run and what waits for what are the same. -/
structure Rests (w after : World) : Prop where
  running : after.schedule.running = w.schedule.running
  waits : ∀ goal other, after.schedule.Waits goal other ↔ w.schedule.Waits goal other

instance : WorldOrder Rests where
  refl _ := ⟨rfl, fun _ _ => Iff.rfl⟩
  trans first second :=
    ⟨second.running.trans first.running, fun goal other => (second.waits goal other).trans (first.waits goal other)⟩

theorem rests_of_schedule (same : after.schedule = w.schedule) : w.Rests after := by
  refine ⟨?_, fun goal other => ?_⟩
  · rw [same]
  · rw [same]

theorem Rests.load (w : World) (source : SourceFile) : w.Rests { w with schedule := (w.schedule.load source).2 } := by
  unfold Schedule.load
  split
  · exact WorldOrder.refl w
  · exact ⟨rfl, fun _ _ => Iff.rfl⟩

theorem StagesSound.unbuilt (staged : w.StagesSound) : w.Unbuilt := by
  intro id
  by_cases inside : id.index < w.arena.size
  · exact (staged.records id inside).unbuilt
  · rw [Arena.get_absent _ (Nat.le_of_not_lt inside)]
    nofun

theorem StagesSound.resolved (staged : w.StagesSound) (last : w.hasStage id .allMembersAdded) :
    w.hasStage id .supertypesResolved :=
  (staged.records id (Arena.inside_of_stage last)).ordered _ last _ (by decide)

namespace Ranked

theorem known (ranked : w.Ranked D) (last : w.hasStage id .allMembersAdded) :
    w.hasStage id .supertypesResolved ∧ w.Finished D id :=
  ⟨ranked.staged.resolved last, ranked.finished id last⟩

/-- Where no goal comes to wait, what goes with the last stage of a class must be known already. -/
theorem advance (ranked : w.Ranked D) (staged : after.StagesSound) (grows : w.Grows after)
    (whole : after.Whole D) (headers : w.Keeps after) (frozen : w.Freezes after) (rests : w.Rests after)
    (known : ∀ id, after.hasStage id .allMembersAdded →
      w.hasStage id .supertypesResolved ∧ w.Finished D id) : after.Ranked D ∧ w.Progress after := by
  have grown : w.Progress after :=
    ⟨grows, headers, fun id has => (frozen id has).2, rests.running, fun goal other => (rests.waits goal other).mpr⟩
  refine ⟨⟨staged, whole, fun id last => ?_, fun goal id waits => ?_⟩, grown⟩
  · exact grown.finished (known id last).1 (known id last).2
  · obtain ⟨child, same, path⟩ := ranked.awaited goal id ((rests.waits _ _).mp waits)
    exact ⟨child, same, TransGen.mono grown.above _ _ path⟩

theorem leaves {x : Run α} (ranked : w.Ranked D)
    (staged : x.Gives StagesSound Grows w good) (whole : x.Within (WholeKept D))
    (frozen : x.Ends w (fun _ after => w.Freezes after) (fun _ after => w.Freezes after)) (rests : x.Within Rests)
    (early : x.Within EarlyKept Goal.Early) :
    x.Leaves (Ranked D) Progress w good fun e _ => e.AsksFor Goal.Early := by
  have before {after : World} (early : EarlyKept w after) (id : ClassId) (last : after.hasStage id .allMembersAdded) :=
    ranked.known ((early ranked.staged.unbuilt).2 id last)
  have all := Ends.and staged ((whole.ends ranked.whole).and (frozen.and ((rests.worlds w).and (early w))))
  refine all.mono ?_ ?_
  · rintro a after ⟨⟨⟨staged, grows⟩, answer⟩, ⟨whole, headers⟩, frozen, rests, early⟩
    exact ⟨ranked.advance staged grows whole headers frozen rests (before early), answer⟩
  · rintro e after ⟨⟨staged, grows⟩, ⟨whole, headers⟩, frozen, rests, early, asks⟩
    exact ⟨ranked.advance staged grows whole headers frozen rests (before early), asks⟩

end Ranked

end World

/-- Classes stay ranked, and what was known of them lasts. -/
abbrev RankedKept (D : String → Prop) : World → World → Prop :=
  Kept (World.Ranked D) World.Progress

theorem Run.Within.ranked {x : Run α} (staged : x.Within StagesKept) (whole : x.Within (WholeKept D))
    (frozen : x.Within World.Freezes) (rests : x.Within World.Rests) (early : x.Within EarlyKept Goal.Early) :
    x.Within (RankedKept D) Goal.Early := by
  intro w
  by_cases ranked : w.Ranked D
  · refine Ends.mono (ranked.leaves (staged.gives ranked.staged) whole (frozen.worlds w) rests early) ?_ ?_
    · exact fun _ _ reached _ => reached.1
    · exact fun _ _ failed => ⟨fun _ => failed.1, failed.2⟩
  · exact (early w).mono (fun _ _ _ holds => absurd holds ranked)
      (fun _ _ failed => ⟨fun holds => absurd holds ranked, failed.2⟩)

theorem Loader.ofDepth_freezes (depth : Nat) : (Loader.ofDepth depth).Respects World.Freezes :=
  (World.Settles.loadRelation.ofDepth depth).weaken fun _ _ settled id has =>
    ⟨settled.stages id _ has, settled.supertypes id has⟩

theorem Loader.ofDepth_rests (depth : Nat) : (Loader.ofDepth depth).Respects World.Rests :=
  (LoadRelation.of_schedule World.rests_of_schedule fun source w =>
    ends_modifyGet.mpr (World.Rests.load w source)).ofDepth depth

theorem Loader.ofDepth_early_ranked (depth : Nat) : (Loader.ofDepth depth).Respects (RankedKept D) Goal.Early := by
  have staged := (ofDepth_stagesSound depth).toRespects
  have whole : (Loader.ofDepth depth).Respects (WholeKept D) := (ofDepth_whole depth).respects
  have frozen := ofDepth_freezes depth
  have rests := ofDepth_rests depth
  have early := ofDepth_early depth
  exact {
    find := fun name => .ranked (staged.find name) (whole.find name) (frozen.find name) (rests.find name)
      (early.find name)
    stage := fun id stage open_ => .ranked (staged.ensure id stage) (whole.ensure id stage) (frozen.ensure id stage)
      (rests.ensure id stage) (early.stage id stage open_)
    remembered := fun id name => .ranked (staged.remembered id name) (whole.remembered id name)
      (frozen.remembered id name) (rests.remembered id name) (early.remembered id name)
    root := .ranked staged.root whole.root frozen.root rests.root early.root
    imported := fun key name => .ranked (staged.imported key name) (whole.imported key name)
      (frozen.imported key name) (rests.imported key name) (early.imported key name)
    packages := fun name => .ranked (staged.packages name) (whole.packages name) (frozen.packages name)
      (rests.packages name) (early.packages name) }

/-! ## Completing classes -/

/-- Goals that are missed while the class is completed: the last stage only of a class above it. -/
def World.MayLack (w : World) (id : ClassId) (need : Goal) : Prop :=
  ∀ other, need = .reach other .allMembersAdded → ReflTransGen w.Above id other

namespace World.MayLack

variable {above : ClassId} {need : Goal}

theorem of_early (early : need.Early) : w.MayLack id need := by
  rintro other rfl
  exact early.elim

theorem below (held : w.Above id above) (lacks : w.MayLack above need) : w.MayLack id need :=
  fun other same => .head held (lacks other same)

theorem lasts (lacks : w.MayLack id need) (grown : w.Progress after) : after.MayLack id need :=
  fun other same => ReflTransGen.mono grown.above _ _ (lacks other same)

end World.MayLack

/-- Classes stay ranked, and unless something above is missing the class is brought to the last stage. -/
abbrev Run.ReachesLast (x : Run Unit) (D : String → Prop) (w : World) (id : ClassId) : Prop :=
  x.Leaves (World.Ranked D) World.Progress w (fun _ after => after.hasStage id .allMembersAdded)
    fun e after => ∀ need, e.missingGoal? = some need → after.MayLack id need

namespace World.Ranked

theorem mark_leaves (ranked : w.Ranked D)
    (ready : ∀ earlier ∈ Stage.allMembersAdded.prerequisites, w.hasStage id earlier) (finished : w.Finished D id) :
    (mark id .allMembersAdded).Leaves (Ranked D) Progress w
      (fun _ after => after.hasStage id .allMembersAdded) bad := by
  have resolved := ready .supertypesResolved (by decide)
  have staged := ends_mark.mp (StagesKept.mark_completes ranked.staged (Arena.inside_of_stage resolved) ready nofun)
  have kept : (mark id .allMembersAdded).Within (WholeKept D) := markStages_whole [.allMembersAdded]
  have whole := ends_mark.mp (kept.ends ranked.whole)
  have still : (mark id .allMembersAdded).Within Freezes :=
    Freezes.update_within (fun r has => by simp [ClassRecord.has_markStage, has]) fun _ => rfl
  have frozen := ends_mark.mp (still.worlds w)
  refine ends_mark.mpr ⟨ranked.advance staged.1.1 staged.1.2 whole.1 whole.2 frozen (rests_of_schedule rfl)
    fun other last => ?_, staged.2⟩
  by_cases same : other = id
  · exact same ▸ ⟨resolved, finished⟩
  · rw [hasStage, Arena.get_modify, if_neg fun both => same both.1] at last
    exact ranked.known last

theorem reads (ranked : w.Ranked D) (has : w.hasStage id .supertypesResolved) (depth : Nat)
    (view : ClassRecord → α) : (do
      (Loader.ofDepth depth).ensure id .supertypesResolved
      return view (← Run.record id) : Run α).Leaves (Ranked D) Progress w
        (fun a after => after = w ∧ a = view (w.arena.get id)) bad := by
  refine (view_reads (.inr has) depth view).mono ?_ (fun _ _ => False.elim)
  rintro a after ⟨rfl, same⟩
  exact ⟨⟨ranked, WorldOrder.refl _⟩, rfl, same⟩

theorem checkScheduled_reachesLast (ranked : w.Ranked D) :
    (checkScheduled id .allMembersAdded).ReachesLast D w id := by
  refine leaves_record.mpr (leaves_ite (fun has => leaves_pure ranked has) fun _ => ?_)
  refine leaves_ite (fun short => nomatch short) fun _ => leaves_throw ranked ?_
  rintro _ ⟨⟩ _ ⟨⟩
  exact .refl

end World.Ranked

section Completing

variable {depth : Nat} (completes : ∀ {id w}, w.Ranked D → w.Has id →
  ((Loader.ofDepth depth).ensure id .allMembersAdded).ReachesLast D w id)
include completes

section Ready

variable (ranked : w.Ranked D) (ready : ∀ earlier ∈ Stage.allMembersAdded.prerequisites, w.hasStage id earlier)
include ranked ready

/-- The supertypes come first, and what is missed above them is missed above the class. -/
theorem RawClass.deriveAllMembers_reachesLast :
    (RawClass.deriveAllMembers (Loader.ofDepth depth) id).ReachesLast D w id := by
  have resolved := ready .supertypesResolved (by decide)
  refine (ranked.reads resolved depth (·.interfaces)).bind ?_
  rintro _ _ _ _ ⟨rfl, rfl⟩
  refine (ranked.reads resolved depth (·.superType)).bind ?_
  rintro _ w _ _ ⟨rfl, rfl⟩
  let supers := ((w.arena.get id).interfaces ++ (w.arena.get id).superType.toList).filterMap Ty.class?
  have listed (above : ClassId) : above ∈ supers ↔ above ∈ w.arena.parents id := by
    simp only [supers, Arena.parents, ClassRecord.supertypes, List.filterMap_append, List.mem_append]
    exact or_comm
  have first : (supers.forM (Loader.ofDepth depth).ensureAllMembers).Leaves (World.Ranked D) World.Progress w
      (fun _ after => ∀ above ∈ supers, after.hasStage above .allMembersAdded)
      fun e after => e.AsksFor (after.MayLack id) := by
    refine leaves_forM (fun grown has => grown.grows.stages _ _ has) (fun above member middle holds grown => ?_) ranked
    have held := (listed above).mp member
    refine (completes holds (grown.headers.has (ranked.whole.supertypes id above held))).mono
      (fun _ _ _ _ has => has) (fun e after _ later lacks need missing => ?_)
    exact .below ((WorldOrder.trans grown later).above id above ⟨resolved, held⟩) (lacks need missing)
  refine first.bind fun _ last ranked grown done => ?_
  refine ranked.mark_leaves (fun earlier member => grown.grows.stages id _ (ready earlier member)) (.inr (.inr ?_))
  rw [grown.parents resolved]
  exact fun above held => done above ((listed above).mpr held)

theorem Loader.complete_reachesLast :
    ((Loader.ofDepth depth).complete id .allMembersAdded (w.arena.get id).completion).ReachesLast D w id := by
  have record := ranked.staged.records id (Arena.inside_of_stage (ready .supertypesResolved (by decide)))
  cases left : (w.arena.get id).completion with
  | none =>
    -- Nothing is left to complete, so the class has the stage already.
    have complete := (ClassRecord.isComplete_iff _).mp (record.pending.mp left)
    exact ranked.mark_leaves ready (ranked.finished id (complete _))
  | some completion =>
    cases completion with
    | decoded => exact ranked.mark_leaves ready (.inl (ranked.whole.decoded id left))
    | scheduled => exact ranked.checkScheduled_reachesLast
    | assembled => exact absurd left record.unbuilt
    | derived file => exact RawClass.deriveAllMembers_reachesLast completes ranked ready

end Ready

theorem Loader.ensureStage_reachesLast (ranked : w.Ranked D) (inside : w.Has id) :
    ((Loader.ofDepth depth).ensureStage id .allMembersAdded).ReachesLast D w id := by
  have first {w : World} (stage : Stage) (member : stage ∈ Stage.allMembersAdded.prerequisites)
      (ranked : w.Ranked D) (inside : w.Has id) : ((Loader.ofDepth depth).ensure id stage).Leaves
        (World.Ranked D) World.Progress w (fun _ after => after.hasStage id stage)
        fun e after => e.AsksFor (after.MayLack id) := by
    have early : stage ≠ .allMembersAdded := by
      rintro rfl
      revert member
      decide
    refine (ranked.leaves ((ofDepth_stagesSound depth).reaches stage ranked.staged inside)
      ((ofDepth_whole depth).ensure id stage) (((ofDepth_freezes depth).ensure id stage).worlds w)
      ((ofDepth_rests depth).ensure id stage) ((ofDepth_early depth).stage id stage (absurd · early))).mono
      (fun _ _ _ _ has => has) (fun _ _ _ _ asks need missing => .of_early (asks need missing))
  have before : (Stage.allMembersAdded.prerequisites.forM ((Loader.ofDepth depth).ensure id)).Leaves
      (World.Ranked D) World.Progress w
      (fun _ after => ∀ stage ∈ Stage.allMembersAdded.prerequisites, after.hasStage id stage)
      fun e after => e.AsksFor (after.MayLack id) :=
    leaves_forM (fun grown has => grown.grows.stages _ _ has)
      (fun stage member middle ranked grown => first stage member ranked (grown.headers.has inside)) ranked
  refine leaves_get.mpr (leaves_ite (fun has => leaves_pure ranked has) fun _ => ?_)
  refine before.bind fun _ middle ranked grown ready => leaves_record.mpr ?_
  exact complete_reachesLast completes ranked ready

end Completing

theorem Loader.ensureLast_reachesLast (depth : Nat) (ranked : w.Ranked D) (inside : w.Has id) :
    ((Loader.ofDepth depth).ensure id .allMembersAdded).ReachesLast D w id := by
  induction depth generalizing w id with
  | zero => exact leaves_exhausted
  | succ depth ih => exact ensureStage_reachesLast ih ranked inside

theorem Loader.ofDepth_ranked (depth : Nat) : (Loader.ofDepth depth).Respects (RankedKept D) := by
  have early : (Loader.ofDepth depth).Respects (RankedKept D) Goal.Early := ofDepth_early_ranked depth
  have last (id : ClassId) : ((Loader.ofDepth depth).ensure id .allMembersAdded).Within (RankedKept D) := by
    refine within_of_ends fun w ranked => ?_
    by_cases inside : w.Has id
    · exact Ends.mono (ensureLast_reachesLast depth ranked inside) (fun _ _ reached => reached.1) (fun _ _ failed => failed.1)
    · refine ((ofDepth_stagesSound depth).absent _ (Nat.le_of_not_lt inside)).mono ?_ (fun _ _ => False.elim)
      rintro _ _ rfl
      exact ⟨ranked, WorldOrder.refl _⟩
  exact {
    find := fun name => (early.find name).anyGoals
    stage := fun id stage _ => by
      by_cases same : stage = .allMembersAdded
      · exact same ▸ last id
      · exact (early.stage id stage (absurd · same)).anyGoals
    remembered := fun id name => (early.remembered id name).anyGoals
    root := early.root.anyGoals
    imported := fun key name => (early.imported key name).anyGoals
    packages := fun name => (early.packages name).anyGoals }

end ClassUniverse
