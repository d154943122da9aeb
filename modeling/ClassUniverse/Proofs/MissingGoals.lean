import ClassUniverse.Proofs.Documents
import ClassUniverse.Proofs.StageInvariant
import ClassUniverse.Proofs.Waiting
import ClassUniverse.Query

/-! Which missing goals are reported. Attempts turn a goal that is missed into work. A question that is asked again
once the goals it misses are reached fails for want of a goal only if that goal is caught in a cycle. -/
namespace ClassUniverse

open Run Loader

variable {x : Run α} {stage : Stage} {R : World → World → Prop}

/-! ## Attempts -/

theorem Error.AsksFor.nothing {e : Error} (asks : e.AsksFor fun _ => False) : e.missingGoal? = none :=
  Option.eq_none_iff_forall_ne_some.mpr asks

theorem Engine.attempt_settles (depth : Nat) (goal : Goal) :
    ((Engine.ofDepth depth).attempt goal).Within Anything fun _ => False :=
  attemptWithin_within (R := Anything) (fun _ => trivial) (fun _ => trivial)
    (fun _ _ _ => within_of_worlds fun _ => ends_of_outcomes (fun _ _ _ => trivial) (fun _ _ _ => trivial)) depth goal

theorem Engine.compileAll_settles (depth : Nat) : (Engine.ofDepth depth).compileAll.Within Anything fun _ => False :=
  compileWithin_within (attempt_settles depth) _ _

/-! ## Questions that are asked again -/

/-- Everything that waited still waits, and the same goals are being run. -/
def World.Awaits (w after : World) : Prop := w.schedule.Extends after.schedule

instance : WorldOrder World.Awaits where
  refl w := .refl w.schedule
  trans first second := Schedule.Extends.trans first second

theorem World.awaits_of_schedule {w after : World} (same : after.schedule = w.schedule) : w.Awaits after := by
  rw [World.Awaits, same]
  exact .refl _

theorem Schedule.Extends.load (s : Schedule) (source : SourceFile) : s.Extends (s.load source).2 := by
  unfold Schedule.load
  split
  · exact .refl s
  · exact ⟨rfl, fun _ _ waits => waits⟩

theorem Loader.ofDepth_awaits (depth : Nat) : (Loader.ofDepth depth).Respects World.Awaits :=
  (LoadRelation.of_schedule World.awaits_of_schedule fun source w =>
    ends_modifyGet.mpr (Schedule.Extends.load w.schedule source)).ofDepth depth

theorem waits_regime : Regime (fun _ => True) World.Awaits (fun _ _ _ => True) fun _ _ => True where
  extended grown := grown
  known _ _ := trivial
  lasting _ _ := trivial
  running _ _ := trivial
  unwound grown := Schedule.Extends.unwound grown
  readied _ _ := trivial
  counted _ _ _ := ⟨trivial, rfl, fun _ _ waits => waits⟩
  concurrent _ _ := ⟨trivial, .addConcurrent _ _ _⟩
  required _ added _ := ⟨trivial, .addPrerequisite added⟩
  initialized _ _ _ := ⟨trivial, rfl, fun _ _ waits => waits⟩
  settled _ _ := trivial

theorem Run.Within.leaves (kept : x.Within R) (w : World) :
    x.Leaves (fun _ => True) R w (fun _ _ => True) fun _ _ => True :=
  (kept.worlds w).mono (fun _ _ kept => ⟨⟨trivial, kept⟩, trivial⟩) (fun _ _ kept => ⟨⟨trivial, kept⟩, trivial⟩)

section Passes

variable {l : Loader} {attempt : Attempt} {w : World}

/-- Attempts keep track of what waits for what. -/
abbrev Attempt.Waits (attempt : Attempt) : Prop := 
  attempt.Patient (fun _ => True) World.Awaits (.waiting (fun _ _ _ => True) fun _ _ => True)

theorem driveWithin_waits (patient : attempt.Waits) (kept : x.Within World.Awaits) (stale : Option α) (steps : Nat)
    (chained : w.schedule.Chained) :
    (driveWithin attempt stale x steps []).Leaves (fun _ => True) World.Awaits w (fun _ _ => True)
      fun e after => e.AsksFor after.schedule.Circular := by
  have asks (middle : World) : x.Leaves (fun _ => True) World.Awaits middle (fun _ _ => True)
      fun e _ => ∀ need, e.missingGoal? = some need → True :=
    (kept.leaves middle).mono (fun _ _ _ _ known => known) (fun _ _ _ _ _ _ _ => trivial)
  refine (waits_regime.driveWithin_leaves patient (fun _ _ => trivial) (fun _ _ _ _ => trivial)
    (fun middle _ _ => asks middle) stale steps [] trivial chained (WorldOrder.refl w)).mono
    (fun _ _ _ _ _ => trivial) (fun _ _ _ _ found need missing => (found need missing).2)

variable (sound : l.Respects World.Awaits) (patient : attempt.Waits)
include sound patient

theorem Loader.checkAllMembers_waits (chained : w.schedule.Chained) (id : ClassId) :
    (l.checkAllMembers attempt id).Leaves (fun _ => True) World.Awaits w (fun _ _ => True) fun _ _ => True := by
  refine ((sound.toLoads.steps.supertypes id).leaves w).bind fun supers first _ grown _ => ?_
  refine (leaves_forM (fun _ _ => trivial) (fun above _ middle _ later => ?_) trivial).bind fun _ second _ _ _ => ?_
  · have chained := Schedule.Extends.chained later (Schedule.Extends.chained grown chained)
    exact (driveWithin_waits patient (sound.ensure above .allMembersAdded) (some ()) _ chained).mono
      (fun _ _ _ _ _ => trivial) (fun _ _ _ _ _ => trivial)
  · refine ((checkConformance_within sound id).leaves second).bind fun _ third _ _ _ => ?_
    exact leaves_modify (fun _ => ⟨trivial, World.awaits_of_schedule rfl⟩) trivial trivial

theorem Loader.reachStage_waits (chained : w.schedule.Chained) (id : ClassId) (stage : Stage) :
    (l.reachStage attempt id stage).Leaves (fun _ => True) World.Awaits w (fun _ _ => True) fun _ _ => True := by
  have stored (change : ClassRecord → ClassRecord) : (Run.update id change).Within World.Awaits :=
    within_modify fun _ => World.awaits_of_schedule rfl
  by_cases last : stage = .allMembersAdded
  · subst last
    exact checkAllMembers_waits sound patient chained id
  · exact (reachStage_within sound attempt last (fun _ => ⟨fun _ _ => stored _, stored _⟩) fun _ _ _ => stored _).leaves w

theorem Loader.declarationPass_waits :
    (l.declarationPass).Patient attempt (fun _ => True) World.Awaits (.waiting (fun _ _ _ => True) fun _ _ => True) := by
  intro goal w _ ⟨chained, _⟩ _
  cases goal with
  | typesInitialized job =>
    have kept : (initializeTypes job).Within World.Awaits := initializeTypes_elsewhere World.awaits_of_schedule job
    refine ((kept.leaves w).bind fun _ middle _ _ _ => leaves_pure trivial fun _ => trivial).mono
      (fun _ _ _ _ known => known) (fun _ _ _ _ _ _ _ => trivial)
  | reach id stage =>
    refine leaves_get.mpr (leaves_ite (fun _ => leaves_pure trivial fun _ => trivial) fun _ => ?_)
    refine ((reachStage_waits sound patient chained id stage).bind fun _ middle _ _ _ =>
      leaves_pure trivial fun _ => trivial).mono (fun _ _ _ _ known => known) (fun _ _ _ _ _ _ _ => trivial)

end Passes

/-- While no goal is being run, a question fails for want of a goal only if that goal is caught in a cycle. -/
theorem Engine.require_circular (depth : Nat) (kept : x.Within World.Awaits) (idle : w.schedule.running = []) :
    ((Engine.ofDepth depth).require x).Ends w (fun _ _ => True)
      fun e after => e.AsksFor after.schedule.Circular := by
  have chained : w.schedule.Chained := by
    rw [Schedule.Chained, idle]
    exact .nil
  have attempts : (Engine.ofDepth depth).attempt.Waits :=
    waits_regime.lawful.attemptWithin_patient (fun _ patient => declarationPass_waits (ofDepth_awaits depth) patient) depth
  exact Ends.mono (driveWithin_waits attempts kept none _ chained) (fun _ _ _ => trivial)
    (fun _ _ failed => failed.2)

/-! ## Queries -/

theorem Run.on_discard (x : Run α) (w : World) : (discard x).on w = (x.on w).map fun p => (p.1.map fun _ => (), p.2) := by
  have parts : discard x = x >>= fun _ => pure () := (bind_pure_comp _ x).symm
  rw [parts, on_bind]
  cases x.on w with
  | none => rfl
  | some p => obtain ⟨_ | _, after⟩ := p <;> rfl

/-- Whether an answer is kept does not matter for the goals that are attempted. -/
theorem Run.on_driveWithin_discard (attempt : Attempt) (x : Run α) (steps : Nat) (attempted : List Goal) (w : World) :
    (driveWithin attempt none (discard x) steps attempted).on w =
      ((driveWithin attempt none x steps attempted).on w).map fun p => (p.1.map fun _ => (), p.2) := by
  induction steps generalizing attempted w with
  | zero => rfl
  | succ steps ih =>
    unfold driveWithin
    rw [on_bind, on_bind, on_outcome, on_outcome, on_discard]
    cases ran : x.on w with
    | none => rfl
    | some p =>
      obtain ⟨result, after⟩ := p
      cases result with
      | ok a => rfl
      | error e =>
        cases e with
        | missingDependency goal =>
          simp only [Option.map_some, Except.map]
          rw [on_bind, on_bind]
          cases (pursue attempt attempted goal).on after with
          | none => rfl
          | some p =>
            obtain ⟨going, last⟩ := p
            cases going with
            | error e => rfl
            | ok going =>
              cases going with
              | true => exact ih _ last
              | false => rfl
        | _ => rfl

theorem Run.driveWithin_answers [WorldOrder R]
    (pursued : ∀ attempted goal, (pursue attempt attempted goal).Within R) (kept : x.Within R) (steps : Nat)
    (attempted : List Goal) : (driveWithin attempt none x steps attempted).Ends w
      (fun a after => ∃ middle, R w middle ∧ x.on middle = some (.ok a, after)) fun _ _ => True := by
  induction steps generalizing w attempted with
  | zero => exact ends_exhausted.mpr trivial
  | succ steps ih =>
    refine ends_bind.mpr (ends_outcome.mpr (ends_of_outcomes (fun a after ran => ?_) (fun e after failed => ?_)))
    · exact ends_pure.mpr ⟨w, WorldOrder.refl w, ran⟩
    · have earlier : R w after := kept.left failed
      split
      · contradiction
      · refine ends_bind.mpr ((pursued attempted _ after).mono (fun going middle later => ?_) (fun _ _ _ => trivial))
        cases going with
        | true =>
          refine (ih _).mono ?_ (fun _ _ _ => trivial)
          rintro a last ⟨found, further, ran⟩
          exact ⟨found, WorldOrder.trans (WorldOrder.trans earlier later) further, ran⟩
        | false => exact ends_throw.mpr trivial
      · exact ends_throw.mpr trivial

section Sessions

variable {config : Config} {u : Universe} {depth : Nat} {w : World} {id : ClassId}

theorem Reachable.staged (reached : Reachable config u w) : w.StagesSound ∧ w.AtClass ∧ w.schedule.running = [] := by
  have start : (World.ofUniverse config u).StagesSound ∧ (World.ofUniverse config u).AtClass :=
    ⟨World.stagesSound_ofUniverse config u, nofun⟩
  obtain ⟨⟨sound, at_⟩, grown⟩ := reached.stages start
  exact ⟨sound, at_, grown.running⟩

/-- Sessions stay sessions, and a goal that an error names satisfies the condition. -/
abbrev Run.Reports (x : Run α) (config : Config) (u : Universe) (w : World) (good : α → World → Prop)
    (lacking : Goal → World → Prop) : Prop :=
  x.Leaves (Reachable config u) Anything w good fun e after => ∀ goal, e.missingGoal? = some goal → lacking goal after

theorem Engine.require_reports (reached : Reachable config u w) {question : Question}
    (asked : question.ask (Loader.ofDepth depth) = discard x) : ((Engine.ofDepth depth).require x).Reports config u w
      (fun _ _ => True) fun goal after => after.schedule.Circular goal := by
  have request {result : Except Error α} {after : World} (ran : ((Engine.ofDepth depth).require x).on w = some (result, after)) :
      ((Request.require question).run (.ofDepth depth)).on w = some (result.map fun _ => (), after) := by
    have same : (Request.require question).run (.ofDepth depth) =
        driveWithin (Engine.ofDepth depth).attempt none (discard x) (Loader.ofDepth depth).depth [] := by
      rw [← asked]
      rfl
    rw [same, on_driveWithin_discard]
    exact congrArg _ ran
  have next {result : Except Error α} {after : World} (ran : ((Engine.ofDepth depth).require x).on w = some (result, after)) :
      Reachable config u after := .step (.require question) depth reached trivial (request ran)
  refine ends_of_outcomes (fun a after ran => ⟨⟨next ran, trivial⟩, trivial⟩) (fun e after ran => ⟨⟨next ran, trivial⟩, ?_⟩)
  exact (Engine.require_circular depth (question.ask_within (ofDepth_awaits depth)) reached.staged.2.2).error (request ran)

theorem Engine.compileAll_reports (reached : Reachable config u w) :
    (Engine.ofDepth depth).compileAll.Reports config u w (fun _ _ => True) lacking := by
  have next {result : Except Error Unit} {after : World} (ran : (Engine.ofDepth depth).compileAll.on w = some (result, after)) :
      Reachable config u after := .step .compileAll depth reached trivial ran
  refine ends_of_outcomes (fun a after ran => ⟨⟨next ran, trivial⟩, trivial⟩) (fun e after ran => ⟨⟨next ran, trivial⟩, ?_⟩)
  intro goal missing
  exact (((compileAll_settles depth w).error ran).2 goal missing).elim

section Quiet

variable (quiet : w.arena.size ≤ id.index ∨ w.hasStage id stage)
include quiet

/-- Nothing is left to complete of a class with the stage, nor of one that does not exist. -/
theorem Loader.ensure_quiet (depth : Nat) : ((Loader.ofDepth depth).ensure id stage).Idle w := by
  rcases quiet with outside | has
  · exact (ofDepth_stagesSound depth).absent stage outside
  · cases depth with
    | zero => exact ends_exhausted.mpr trivial
    | succ depth =>
      refine ends_of_outcomes (fun _ after ran => ?_) (fun _ after ran => ?_)
      · rw [ensure_reached depth has] at ran
        cases ran
        rfl
      · rw [ensure_reached depth has] at ran
        cases ran

theorem Loader.view_reads (depth : Nat)
    (view : ClassRecord → α) : (do
      (Loader.ofDepth depth).ensure id stage
      return view (← Run.record id) : Run α).Ends w (fun a after => after = w ∧ a = view (w.arena.get id))
        fun _ _ => False := by
  refine ends_bind.mpr ((ensure_quiet quiet depth).mono ?_ (fun _ _ failed => failed))
  rintro _ after rfl
  exact ends_bind.mpr (ends_record.mpr (ends_pure.mpr ⟨rfl, rfl⟩))

theorem Loader.view_quiet (depth : Nat)
    (view : ClassRecord → α) : (do
      (Loader.ofDepth depth).ensure id stage
      return view (← Run.record id) : Run α).Idle w :=
  (view_reads quiet depth view).mono (fun _ _ known => known.1) (fun _ _ failed => failed)

end Quiet

/-- A class that has the last stage has all others too. -/
theorem World.StagesSound.complete (sound : w.StagesSound) (last : w.arena.size ≤ id.index ∨ w.hasStage id .allMembersAdded)
    (stage : Stage) : w.arena.size ≤ id.index ∨ w.hasStage id stage := by
  refine last.imp_right fun last => ?_
  have ordered := (sound.records id (Arena.inside_of_stage last)).ordered
  have signatures := ordered _ last .signaturesResolved (by decide)
  cases stage with
  | supertypesResolved => exact ordered _ last _ (by decide)
  | membersAdded => exact ordered _ signatures _ (by decide)
  | signaturesResolved => exact signatures
  | allMembersAdded => exact last

theorem Query.dumpClass_quiet (sound : w.StagesSound) (last : w.arena.size ≤ id.index ∨ w.hasStage id .allMembersAdded)
    (depth : Nat) : (dumpClass (Loader.ofDepth depth) id).Idle w := by
  have complete := sound.complete last
  refine idle_bind (view_quiet (complete _) depth (·.superType)) fun superType => ?_
  refine idle_bind (view_quiet (complete _) depth (·.interfaces)) fun interfaces => ?_
  refine idle_bind (view_quiet (complete _) depth (·.members)) fun members => ?_
  refine idle_bind (view_quiet (complete _) depth (·.fields)) fun fields => ?_
  refine idle_bind (view_quiet (complete _) depth (·.constructors)) fun constructors => ?_
  refine idle_bind (view_quiet (complete _) depth (·.methods)) fun methods => ?_
  exact ends_bind.mpr (ends_arena.mpr (ends_pure.mpr rfl))

theorem Engine.ensureAllMembers_answers (reached : Reachable config u w) :
    ((Engine.ofDepth depth).require ((Loader.ofDepth depth).ensureAllMembers id)).Ends w
      (fun _ after => after.arena.size ≤ id.index ∨ after.hasStage id .allMembersAdded) fun _ _ => True := by
  obtain ⟨holds, at_, -⟩ := reached.staged
  have sound := ofDepth_stagesSound depth
  have attempts := stages_discipline.attemptWithin_sound (declarationPass_stages sound.toRespects) depth
  refine (driveWithin_answers (stages_discipline.pursue_within attempts)
    ((sound.ensure id .allMembersAdded).also stages_discipline.atClass) _ []).mono ?_ (fun _ _ failed => failed)
  rintro _ after ⟨middle, kept, ran⟩
  obtain ⟨⟨holds, -⟩, -⟩ := kept ⟨holds, at_⟩
  by_cases inside : id.index < middle.arena.size
  · exact .inr (Ends.answer (sound.reaches _ holds inside) ran).2
  · have outside := Nat.le_of_not_lt inside
    obtain rfl := (sound.absent _ outside).answer ran
    exact .inl outside

end Sessions

/-- The questions that a query asks only once, whatever is missing. -/
def Query.AsksOnce : Query → Question → Prop
  | .subtype .., .isSubtype .. => True
  | .cast .., .isImplicitCastValid .. => True
  | .cast .., .isCastValid .. => True
  | .leastCommonAncestor .., .leastCommonAncestor .. => True
  | .encode _, .encode _ => True
  | _, _ => False

section Queries

variable {config : Config} {u : Universe} {depth : Nat} {w : World}

/-- The goal is caught in a cycle, or missed by a question that is asked only once. -/
def Query.Lacks (query : Query) (config : Config) (u : Universe) (depth : Nat) (goal : Goal) (after : World) : Prop :=
  after.schedule.Circular goal ∨ ∃ question middle, query.AsksOnce question ∧ Reachable config u middle ∧
    (question.ask (Loader.ofDepth depth)).on middle = some (.error (.missingDependency goal), after)

/-- Only a call tells of an error by its message. -/
def Query.Tells (query : Query) (answer : Except String (List String)) (after : World) : Prop :=
  ∀ message, answer = .error message → ∃ cls method args accessor e, query = .call cls method args accessor ∧
    message = "resolving " ++ qualify cls method ++ ": " ++ Error.message e ∧
    ∀ goal, e = .missingDependency goal → after.schedule.Circular goal

theorem Query.require_lacks {query : Query} (reached : Reachable config u w) (question : Question)
    (asked : question.ask (Loader.ofDepth depth) = discard x) :
    ((Engine.ofDepth depth).require x).Reports config u w (fun _ _ => True) (query.Lacks config u depth) :=
  (Engine.require_reports reached asked).mono (fun _ _ _ _ known => known)
    (fun _ _ _ _ lacking goal missing => .inl (lacking goal missing))

theorem Query.once_lacks (query : Query) (reached : Reachable config u w) (question : Question)
    (once : query.AsksOnce question) (asked : question.ask (Loader.ofDepth depth) = discard x) :
    x.Reports config u w (fun _ _ => True) (query.Lacks config u depth) := by
  have ran {result : Except Error α} {after : World} (ran : x.on w = some (result, after)) :
      (question.ask (Loader.ofDepth depth)).on w = some (result.map fun _ => (), after) := by
    rw [asked, on_discard, ran]
    rfl
  have next {result : Except Error α} {after : World} (known : x.on w = some (result, after)) :
      Reachable config u after := .step (.ask question) depth reached trivial (ran known)
  refine ends_of_outcomes (fun a after known => ⟨⟨next known, trivial⟩, trivial⟩)
    (fun e after known => ⟨⟨next known, trivial⟩, fun goal missing => .inr ⟨question, w, once, reached, ?_⟩⟩)
  obtain rfl := Error.missingGoal?_eq_some.mp missing
  exact ran known

theorem Query.answer_reports (query : Query) (depth : Nat) (reached : Reachable config u w) :
    (query.answer (Engine.ofDepth depth)).Reports config u w query.Tells (query.Lacks config u depth) := by
  have done {lines : List String} {w : World} (reached : Reachable config u w) :
      (pure (.ok lines) : Run (Except String (List String))).Reports config u w query.Tells (query.Lacks config u depth) :=
    leaves_pure reached fun _ same => nomatch same
  have typed (written : String) {w : World} (reached : Reachable config u w) :
      ((Engine.ofDepth depth).typeNamed written).Reports config u w (fun _ _ => True) (query.Lacks config u depth) :=
    require_lacks reached (.typeNamed written) rfl
  have named (name : String) {w : World} (reached : Reachable config u w) :
      ((Engine.ofDepth depth).classNamed name).Reports config u w (fun _ _ => True) (query.Lacks config u depth) :=
    require_lacks reached (.classNamed name) rfl
  cases query with
  | dump cls =>
    refine (named cls reached).bind fun id first reached _ _ => ?_
    refine (Engine.compileAll_reports reached).bind fun _ second reached _ _ => ?_
    have ensured : ((Engine.ofDepth depth).require ((Loader.ofDepth depth).ensureAllMembers id)).Reports config u second
        (fun _ after => after.arena.size ≤ id.index ∨ after.hasStage id .allMembersAdded)
        (Query.Lacks (.dump cls) config u depth) :=
      (Ends.and (require_lacks reached (.ensure id .allMembersAdded) (id_map _).symm)
        (Engine.ensureAllMembers_answers reached)).mono (fun _ _ both => ⟨both.1.1, both.2⟩) (fun _ _ both => both.1)
    refine ensured.bind fun _ third reached _ last => ?_
    have shown := dumpClass_quiet reached.staged.1 last depth
    refine ends_bind.mpr (shown.mono ?_ (fun _ _ => False.elim))
    rintro lines _ rfl
    exact done reached
  | subtype a b =>
    refine (typed a reached).bind fun lower _ reached _ _ => (typed b reached).bind fun upper middle reached _ _ => ?_
    exact (once_lacks (.subtype a b) reached (.isSubtype lower upper) trivial rfl).bind fun _ _ reached _ _ => done reached
  | cast a b =>
    refine (typed a reached).bind fun given _ reached _ _ => (typed b reached).bind fun wanted middle reached _ _ => ?_
    refine (once_lacks (.cast a b) reached (.isImplicitCastValid given wanted) trivial rfl).bind fun _ last reached _ _ => ?_
    exact (once_lacks (.cast a b) reached (.isCastValid given wanted) trivial rfl).bind fun _ _ reached _ _ => done reached
  | leastCommonAncestor a b =>
    refine (typed a reached).bind fun left _ reached _ _ => (typed b reached).bind fun right middle reached _ _ => ?_
    refine (once_lacks (.leastCommonAncestor a b) reached (.leastCommonAncestor left right) trivial rfl).bind fun _ _ reached _ _ => ?_
    exact leaves_get.mpr (done reached)
  | call cls method args accessor =>
    refine (named cls reached).bind fun id _ reached _ _ => ?_
    refine (leaves_mapM reached fun written _ _ reached => typed written reached).bind fun types _ reached _ _ => ?_
    have accessed {w : World} (reached : Reachable config u w) :
        (accessor.mapM (Engine.ofDepth depth).classNamed).Reports config u w (fun _ _ => True)
          (Query.Lacks (.call cls method args accessor) config u depth) := by
      cases accessor with
      | none => exact leaves_pure reached trivial
      | some name => exact ends_map.mpr (named name reached)
    refine (accessed reached).bind fun from_ _ reached _ _ => ?_
    refine (Engine.compileAll_reports reached).bind fun _ middle reached _ _ => ?_
    have sought : ((Engine.ofDepth depth).require ((Loader.ofDepth depth).findMethod (.cls id) method types from_)).Reports
        config u middle (fun _ _ => True) fun goal after => after.schedule.Circular goal :=
      Engine.require_reports reached (by rfl : Question.ask _ (.findMethod (.cls id) method types from_) = _)
    refine (sought.outcome.mono (fun _ _ _ _ known => known) (fun _ _ _ _ => False.elim)).bind
      fun result last reached _ known => ?_
    cases result with
    | ok m => exact leaves_get.mpr (done reached)
    | error e =>
      refine leaves_pure reached ?_
      rintro _ ⟨⟩
      refine ⟨cls, method, args, accessor, e, rfl, rfl, fun goal same => ?_⟩
      exact known.2 e rfl goal (same ▸ rfl)
  | encode cls =>
    refine (named cls reached).bind fun id _ reached _ _ => ?_
    refine (Engine.compileAll_reports reached).bind fun _ middle reached _ _ => ?_
    exact (once_lacks (.encode cls) reached (.encode id) trivial rfl).bind fun _ _ reached _ _ => done reached

/-- However a session came to a world: attempts at goals and compiling everything never fail for want of a goal. A
question that is asked again once the goals it misses are reached does so only if the goal is caught in a cycle of
goals that wait for one another. A query does so only for such a goal too, or because of a question that it asks but
once. The message of a call that fails tells of no other missing goal either. -/
theorem missing_goals_are_circular (reached : Reachable config u w) (depth : Nat) :
    (∀ goal e after, ((Engine.ofDepth depth).attempt goal).on w = some (.error e, after) → e.missingGoal? = none) ∧
      (∀ e after, (Engine.ofDepth depth).compileAll.on w = some (.error e, after) → e.missingGoal? = none) ∧
      (∀ (question : Question) goal after,
        ((Engine.ofDepth depth).require (question.ask (Loader.ofDepth depth))).on w =
          some (.error (.missingDependency goal), after) → after.schedule.Circular goal) ∧
      ∀ (query : Query) result after, (query.answer (Engine.ofDepth depth)).on w = some (result, after) →
        (∀ goal, result = .error (.missingDependency goal) → query.Lacks config u depth goal after) ∧
        ∀ answer, result = .ok answer → query.Tells answer after := by
  refine ⟨fun goal e after failed => ((Engine.attempt_settles depth goal w).error failed).2.nothing,
    fun e after failed => ((Engine.compileAll_settles depth w).error failed).2.nothing, fun question goal after failed => ?_,
    fun query result after ran => ?_⟩
  · have circular := Engine.require_circular depth (question.ask_within (ofDepth_awaits depth)) reached.staged.2.2
    exact circular.error failed goal rfl
  · have reports := query.answer_reports depth reached
    refine ⟨?_, ?_⟩
    · rintro goal rfl
      exact (Ends.error reports ran).2 goal rfl
    · rintro answer rfl
      exact (Ends.answer reports ran).2

end Queries

/-- Two classes that each extend a member class of the other: what the name of a further member class stands for can
not be told, and the goal that is reported waits for itself. -/
theorem missing_goals_are_circular_members :
    let u : Universe := { sources := [
      { path := "Object.java", package := some "java.lang", classes := [{ name := "Object" }] },
      { path := "P.java", package := some "p", classes := [{ name := "P", superclass := some "Q.X" }] },
      { path := "Q.java", package := some "p", classes := [{ name := "Q", superclass := some "P.Y" }] }] }
    let goal : Goal := .reach ⟨0⟩ .supertypesResolved
    ∃ after, ((Query.dump "p.P.Z").answer (.ofDepth 20)).on (.ofUniverse {} u) =
      some (.error (.missingDependency goal), after) ∧ after.schedule.Circular goal := by
  intro u goal
  obtain ⟨_, after, ran, rfl⟩ : ∃ e after, ((Query.dump "p.P.Z").answer (.ofDepth 20)).on (.ofUniverse {} u) =
      some (.error e, after) ∧ e = .missingDependency goal := by decide +kernel
  have start : Reachable {} u (.ofUniverse {} u) := .refl _
  obtain ⟨-, -, -, queries⟩ := missing_goals_are_circular start 20
  refine ⟨after, ran, ((queries _ _ _ ran).1 goal rfl).resolve_right ?_⟩
  rintro ⟨question, -, once, -⟩
  exact once

/-- A class that extends another of the same file. The query misses the supertypes of the first class, which wait for
nothing; asked again, the question is answered. -/
theorem subtype_query_lacks_supertypes :
    let u : Universe := { sources := [
      { path := "Object.java", package := some "java.lang", classes := [{ name := "Object" }] },
      { path := "A.java", package := some "p", classes := [{ name := "A", superclass := some "B" }, { name := "B" }] }] }
    let goal : Goal := .reach ⟨0⟩ .supertypesResolved
    let again := (Engine.ofDepth 20).require ((Loader.ofDepth 20).isSubtype (.cls ⟨0⟩) (.cls ⟨1⟩))
    ∃ after last, ((Query.subtype "p.A" "p.B").answer (.ofDepth 20)).on (.ofUniverse {} u) =
        some (.error (.missingDependency goal), after) ∧ ¬ after.schedule.Circular goal ∧
      again.on after = some (.ok true, last) := by
  intro u goal again
  obtain ⟨_, after, ran, rfl, free, last, succeeded⟩ : ∃ e after,
      ((Query.subtype "p.A" "p.B").answer (.ofDepth 20)).on (.ofUniverse {} u) = some (.error e, after) ∧
        e = .missingDependency goal ∧
        (after.schedule.prerequisitesOf goal = [] ∧ after.schedule.concurrentWith goal = []) ∧
        ∃ last, again.on after = some (.ok true, last) := by decide +kernel
  have alone : ¬ after.schedule.Circular goal := by
    have waitless (other : Goal) : ¬ after.schedule.Waits goal other := by simp [Schedule.Waits, free]
    rintro ⟨other, path, cycle⟩
    rcases path.cases_head with rfl | ⟨next, waits, -⟩
    · obtain ⟨next, waits, -⟩ := Relation.TransGen.head'_iff.mp cycle
      exact waitless next waits
    · exact waitless next waits
  exact ⟨after, last, ran, alone, succeeded⟩

end ClassUniverse
