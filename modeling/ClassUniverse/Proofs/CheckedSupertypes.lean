import ClassUniverse.Proofs.FailedLoads
import ClassUniverse.Proofs.ResolutionOrder
import ClassUniverse.Proofs.RespectsDeclaration

/-! Supertypes that are looked up, stored and checked. The check ends on every arena and refuses a class exactly if
something above or around it has the class for a parent, so it lets no cycle of superclasses and interfaces come about.
Where it refuses a class, or a look-up fails before that, the class has the supertypes that it had. -/
namespace ClassUniverse

open Run Loader

namespace Arena

variable {arena : Arena}

theorem Searches.unique
    (search : arena.Searches goal seen pending found) (again : arena.Searches goal seen pending other) :
    found = other := by
  induction search with
  | done =>
    cases again
    rfl
  | skip old _ ih =>
    cases again with
    | skip _ rest => exact ih rest
    | stop fresh => exact absurd old fresh
    | visit fresh => exact absurd old fresh
  | stop fresh parent =>
    cases again with
    | skip old => exact absurd old fresh
    | stop => rfl
    | visit _ apart => exact absurd parent apart
  | visit fresh apart _ ih =>
    cases again with
    | skip old => exact absurd old fresh
    | stop _ parent => exact absurd parent apart
    | visit _ _ rest => exact ih rest

theorem searches_iff : arena.Searches goal [] [goal] found ↔ found = arena.findCycle goal := by
  refine ⟨fun search => search.unique (arena.searches_findCycle goal), ?_⟩
  rintro rfl
  exact arena.searches_findCycle goal

/-- The error names the class that is refused, and the place of the class at which the search stops. -/
theorem checkCycles_error_iff : arena.checkCycles goal = .error e ↔ ∃ id, arena.Searches goal [] [goal] (some id) ∧
      e = .cyclicInheritance (arena.fullName goal) (arena.get id).position := by
  simp only [searches_iff]
  unfold checkCycles
  split
  · rename_i id found
    rw [found]
    constructor
    · rintro ⟨⟩
      exact ⟨id, rfl, rfl⟩
    · rintro ⟨_, ⟨⟩, rfl⟩
      rfl
  · rename_i missed
    rw [missed]
    exact iff_of_false nofun (by rintro ⟨_, ⟨⟩, _⟩)

end Arena

/-! ## Storing and taking back -/

namespace Loader

variable {l : Loader} {id : ClassId}

/-- Whether a look-up fails or the check, what is left is what the look-ups leave. -/
theorem read_of_resolveSupertypes (failed : (l.resolveSupertypes id).on w = some (.error e, after)) :
    ∃ result, (l.readSupertypes id).on w = some (result, after) := by
  rw [resolveSupertypes_eq, on_bind] at failed
  split at failed
  · cases failed
  · rename_i declared middle ran
    rw [on_storeSupertypes] at failed
    dsimp only at failed
    split at failed
    · cases failed
    · cases failed
      exact ⟨.ok declared, ran⟩
  · rename_i e middle ran
    cases failed
    exact ⟨.error e, ran⟩

/-- Without a job there is no source whose imports the header of a class could be read with. -/
theorem readSupertypes_jobless (l : Loader) (jobless : (w.arena.get id).job = none) :
    (l.readSupertypes id).Ends w (fun _ _ => False) fun _ after => after = w := by
  refine ends_bind.mpr (ends_bind.mpr (ends_get.mpr ?_))
  split
  · refine ends_pure.mpr (ends_bind.mpr (ends_bind.mpr (ends_get.mpr ?_)))
    rw [jobless]
    exact ends_fault.mpr rfl
  · exact ends_fault.mpr rfl

/-- A class that comes from a source keeps its supertypes when new ones are not to be had. -/
theorem supertypes_of_failed {depth : Nat} (declared : (w.arena.get id).job.isSome → (w.arena.get id).Underived)
    (failed : ((ofDepth depth).resolveSupertypes id).on w = some (.error e, after)) :
    (after.arena.get id).superType = (w.arena.get id).superType ∧
      (after.arena.get id).interfaces = (w.arena.get id).interfaces := by
  obtain ⟨result, ran⟩ := read_of_resolveSupertypes failed
  cases source : (w.arena.get id).job with
  | none =>
    have fails := readSupertypes_jobless (ofDepth depth) source
    cases result with
    | ok supertypes => exact (fails.answer ran).elim
    | error e => simp [fails.error ran]
  | some job =>
    have jobbed : (w.arena.get id).job.isSome := source ▸ rfl
    have settles := (readSupertypes_within (World.Settles.loadRelation.ofDepth depth) id).left ran
    exact Prod.mk.inj ((settles.records id (Arena.inside_of_job jobbed)).lineage (.inl (declared jobbed)))

end Loader

/-- The check for circular inheritance is exact, whatever cycles there are. A class is refused, for circular inheritance
and nothing else, if and only if the class itself or something above or around it has the class for a parent. So new
supertypes that pass the check close no cycle of superclasses and interfaces. Those that do not pass are taken back: the
class has the supertypes from before they were looked up, unless some class file is behind it too. -/
theorem cycle_check_exact (arena : Arena) (goal : ClassId) :
    (∃ found, ∀ other, arena.Searches goal [] [goal] other ↔ other = found) ∧
    (∀ e, arena.checkCycles goal = .error e ↔ ∃ id, arena.Searches goal [] [goal] (some id) ∧
      e = .cyclicInheritance (arena.fullName goal) (arena.get id).position) ∧
    ((∃ e, arena.checkCycles goal = .error e) ↔ ∃ id, arena.Depends goal id ∧ goal ∈ arena.parents id) ∧
    (∀ superType interfaces, arena.Acyclic →
      (arena.withSupertypes goal superType interfaces).checkCycles goal = .ok () →
      (arena.withSupertypes goal superType interfaces).Acyclic) ∧
    (∀ (l : Loader) w middle superType interfaces e,
      (l.readSupertypes goal).on w = some (.ok (superType, interfaces), middle) →
      (middle.arena.withSupertypes goal superType interfaces).checkCycles goal = .error e →
      (l.resolveSupertypes goal).on w = some (.error e, middle)) ∧
    ∀ depth w e after, ((w.arena.get goal).job.isSome → (w.arena.get goal).Underived) →
      ((Loader.ofDepth depth).resolveSupertypes goal).on w = some (.error e, after) →
      (after.arena.get goal).superType = (w.arena.get goal).superType ∧
        (after.arena.get goal).interfaces = (w.arena.get goal).interfaces := by
  refine ⟨⟨arena.findCycle goal, fun _ => Arena.searches_iff⟩, fun _ => Arena.checkCycles_error_iff, ?_,
    fun _ _ => .withSupertypes, fun l w middle superType interfaces e ran refused => ?_,
    fun _ _ _ _ => Loader.supertypes_of_failed⟩
  · rw [arena.checkCycles_fails_iff]
    exact exists_congr fun id => and_comm
  · rw [Loader.resolveSupertypes_eq, on_bind_ok ran, on_storeSupertypes]
    simp only [refused]

/-- Of two classes that are declared to extend each other, the second one has its superclass. The first one is refused,
at the place of the second one, and left without a superclass. -/
theorem cycle_check_exact_pair :
    let record (name : String) (line : UInt32) : ClassRecord := {
      name, package := some ⟨"p"⟩, position := some { file := "A.java", line }, job := some ⟨0⟩
      completion := some .scheduled }
    let bare : Arena := ⟨#[record "A" 1, record "B" 2]⟩
    let w : World := {
      arena := bare.withSupertypes ⟨1⟩ (some (.cls ⟨0⟩)) []
      declarations := Assoc.empty.insert ⟨0⟩ { name := "A", superclass := some "B" }
      imports := Assoc.empty.insert (.unit ⟨0⟩) { package := some ⟨"p"⟩ }
      caches := Assoc.empty.insert .session ((({} : Layers).insert "p.A" (.cls ⟨0⟩)).insert "p.B" (.cls ⟨1⟩)) }
    bare.Acyclic ∧ w.arena.Acyclic ∧ ∃ after, ((Loader.ofDepth 3).resolveSupertypes ⟨0⟩).on w =
        some (.error (.cyclicInheritance "p.A" (some { file := "A.java", line := 2 })), after) ∧
      (after.arena.get ⟨0⟩).superType = none := by
  intro record bare w
  have childless : ∀ child ∈ bare.ids, bare.parents child = [] := by decide
  have start : bare.Acyclic := fun id =>
    Arena.not_inherits_of_childless fun child listed => by simp [childless child listed]
  obtain ⟨after, ran⟩ : ∃ after, ((Loader.ofDepth 3).resolveSupertypes ⟨0⟩).on w =
      some (.error (.cyclicInheritance "p.A" (some { file := "A.java", line := 2 })), after) := by decide +kernel
  refine ⟨start, (cycle_check_exact bare ⟨1⟩).2.2.2.1 _ _ start rfl, after, ran, ?_⟩
  exact ((cycle_check_exact bare ⟨0⟩).2.2.2.2.2 3 w _ after (fun _ => nofun) ran).1

end ClassUniverse
