import ClassUniverse.Proofs.Layers
import ClassUniverse.Proofs.Loading
import ClassUniverse.Proofs.Yields

/-! A source beside a class file. Metadata that is older than the source or of another version is passed over, and then
the file might as well not be there. Metadata that is chosen and turns out to be unreadable hides the source. -/
namespace ClassUniverse

open Run

/-- Why the metadata in a class file is of no use beside a source. -/
inductive ClassFile.Unusable (file : ClassFile) (config : Config) (source : SourceFile) : Prop
  | malformed (text : String) (stored : file.metadata? config.version = some text)
      (unreadable : Metadata.parse? text = none)
  | misplaced (text : String) (m : Metadata) (stored : file.metadata? config.version = some text)
      (read : Metadata.parse? text = some m) (apart : m.name ≠ file.name)
  | foreign (differs : file.compatibility config.version ≠ .compatible)
  | older (timed : config.ignoreModTimes = false) (late : file.sourceLastModified < source.lastModified)

/-- The source has a job, its own or a new one. -/
def World.withJob (w : World) (source : SourceFile) : World := { w with schedule := (w.schedule.load source).2 }

/-- What becomes of a name whose class comes from a source. -/
def World.sourced (w : World) (source : SourceFile) (name : String) : Except Error Named :=
  let goal := Goal.typesInitialized (w.schedule.load source).1
  match w.system.check name with
  | some named => .ok named
  | none => .error (if (w.withJob source).reached goal then .notFound name else .missingDependency goal)

section Sources

variable {w : World} {l : Loader} {name : String} {source : SourceFile} {file : ClassFile}

theorem Run.on_fromSource (w : World) (source : SourceFile) (name : String) :
    (fromSource source name).on w = some (w.sourced source name, w.withJob source) := by
  have loaded : (loadSource source).on w = some (.ok (w.schedule.load source).1, w.withJob source) := rfl
  unfold fromSource World.sourced
  have checked : (Run.check name).on (w.withJob source) = some (.ok (w.system.check name), w.withJob source) := rfl
  rw [on_bind_ok loaded, on_bind_ok checked]
  cases w.system.check name with
  | some named => rfl
  | none =>
    dsimp only
    rw [on_get_bind]
    split <;> rfl

/-- A class file that is not chosen might as well not be there. -/
theorem Loader.on_findSourced_passed (listed : w.sources.find? name = some source)
    (passed : ∀ file, w.classPath.find? name = some file → Loader.metadataServes w.config file source = false) :
    (l.findSourced name).on w = some (w.sourced source name, w.withJob source) := by
  have unchosen : (w.classPath.find? name).filter (fun file => metadataServes w.config file source) = none := by
    cases found : w.classPath.find? name with
    | none => rfl
    | some file => simp [Option.filter, passed file found]
  unfold findSourced
  rw [on_get_bind, listed]
  dsimp only
  rw [unchosen]
  cases w.schedule.jobOf? source.path <;> exact on_fromSource w source name

/-- Metadata that is refused as soon as it is looked at. -/
theorem Loader.on_encodedClass_refused {fault : EncodingFault}
    (compatible : file.compatibility w.config.version = .compatible)
    (stored : file.metadata? w.config.version = some text)
    (refused : ∀ w, (l.decode text file.name).on w = some (.error (.badEncoding file.name fault), w)) (name : String) :
    ∃ caches, (l.encodedClass file name).on w = some (.error (.badEncoding file.name fault), { w with caches }) := by
  let forked : World := { w with caches := w.caches.insert .session (w.cache .session).fork }
  have open_ : (Cache.fork .session).on w = some (.ok (), forked) := rfl
  have dropped : (forked.cache .session).discard? = some (w.cache .session) := by
    rfl
  rw [encodedClass_eq, on_get_bind]
  simp only [compatible, stored, reduceCtorEq, if_false]
  unfold Cache.forked
  rw [on_bind_ok open_, on_bind_ok (on_outcome_of (refused forked))]
  exact ⟨_, rfl⟩

/-- Beside a source without a job, metadata of another version is never reported. -/
theorem Loader.findSourced_keeps_versions (listed : w.sources.find? name = some source)
    (fresh : w.schedule.jobOf? source.path = none) : (l.findSourced name).Ends w (fun _ _ => True) fun e _ =>
      ∀ cls compiler found expected, e ≠ .incompatibleVersion cls compiler found expected := by
  have served (w : World) : (fromSource source name).Ends w (fun _ _ => True) fun e _ =>
      ∀ cls compiler found expected, e ≠ .incompatibleVersion cls compiler found expected := by
    refine ends_of_outcomes (fun _ _ _ => trivial) fun e after ran => ?_
    rw [on_fromSource] at ran
    rcases hit : w.system.check name with _ | named
    · simp only [World.sourced, hit, Option.some.injEq, Prod.mk.injEq, Except.error.injEq] at ran
      rw [← ran.1]
      split <;> nofun
    · simp [World.sourced, hit] at ran
  refine ends_bind.mpr (ends_get.mpr ?_)
  rw [listed]
  dsimp only
  split
  · refine ends_bind.mpr (ends_outcome.mpr (ends_of_outcomes (fun _ _ _ => ends_pure.mpr trivial) fun e after _ => ?_))
    cases e with
    | incompatibleVersion => exact served after
    | _ => exact ends_throw.mpr nofun
  · exact served w

end Sources

/-- A source without a job beside a class file whose metadata is of no use. Unless that metadata is chosen, the outcome
is the one without the class file: the source has a job, and the class is its own or waits for the types of the job. It
is chosen if it is of this very version and not older than the source (or times do not count), and then a document that
cannot be read, or that describes another class, is an error and the source has no job. -/
theorem unusable_metadata_beside_source (l : Loader) {w : World} {name : String} {source : SourceFile}
    (listed : w.sources.find? name = some source) (fresh : w.schedule.jobOf? source.path = none) :
    (∀ file, w.classPath.find? name = some file → file.Unusable w.config source →
      (Loader.metadataServes w.config file source = false →
        (l.findSourced name).on w = some (w.sourced source name, w.withJob source) ∧
        ∀ path : ClassPath, path.find? name = none → (l.findSourced name).on { w with classPath := path } =
          some (w.sourced source name, { w.withJob source with classPath := path })) ∧
      (Loader.metadataServes w.config file source = true → ∃ fault caches,
        (l.findSourced name).on w = some (.error (.badEncoding file.name fault), { w with caches }))) ∧
    (w.withJob source).schedule.jobOf? source.path = some (w.schedule.load source).1 ∧
    ∀ e after, (l.findSourced name).on w = some (.error e, after) →
      ∀ cls compiler found expected, e ≠ .incompatibleVersion cls compiler found expected := by
  refine ⟨fun file present unusable => ⟨fun passed => ⟨?_, fun path absent => ?_⟩, fun chosen => ?_⟩, ?_, ?_⟩
  · refine Loader.on_findSourced_passed listed fun other found => ?_
    cases found.symm.trans present
    exact passed
  · have alone : ∀ file, path.find? name = some file → Loader.metadataServes w.config file source = false := by
      rw [absent]
      nofun
    exact Loader.on_findSourced_passed (w := { w with classPath := path }) listed alone
  · have compatible : file.compatibility w.config.version = .compatible := by
      have parts := chosen
      simp only [Loader.metadataServes, Bool.and_eq_true, beq_iff_eq] at parts
      exact parts.2
    have refused : ∃ text fault, file.metadata? w.config.version = some text ∧
        ∀ w, (l.decode text file.name).on w = some (.error (.badEncoding file.name fault), w) := by
      cases unusable with
      | malformed text stored unreadable =>
        refine ⟨text, .malformedDocument, stored, fun w => ?_⟩
        unfold Loader.decode
        rw [unreadable]
        rfl
      | misplaced text m stored read apart =>
        refine ⟨text, .describes m.name, stored, fun w => ?_⟩
        unfold Loader.decode
        rw [read]
        simp only [apart, if_false]
        rfl
      | foreign differs => exact absurd compatible differs
      | older timed late => simp [Loader.metadataServes, timed, late] at chosen
    obtain ⟨text, fault, stored, refused⟩ := refused
    obtain ⟨caches, ran⟩ := Loader.on_encodedClass_refused compatible stored refused name
    refine ⟨fault, caches, ?_⟩
    unfold Loader.findSourced
    rw [on_get_bind, listed]
    dsimp only
    rw [fresh, present]
    simp only [Option.filter, chosen, if_true]
    rw [on_bind_ok (on_outcome_of ran)]
    rfl
  · have others : w.schedule.jobs.findIdx? (fun other => other.path == source.path) = none := by
      simpa [Schedule.jobOf?] using fresh
    simp only [World.withJob, Schedule.load, fresh]
    simp [Schedule.jobOf?, List.findIdx?_append, others]
  · exact fun e after failed => (Loader.findSourced_keeps_versions listed fresh).error failed

/-- A class file of a later version beside a source: the name waits for the types of the source. -/
theorem unusable_metadata_beside_source_foreign :
    let source : SourceFile := { path := "A.java", package := some "p", classes := [{ name := "A" }] }
    let file : ClassFile := { name := "p.A", encoded := .ofList [("jltc", "\x7b")], compilerVersion := some "9.0.0" }
    let w : World := .ofUniverse {} { sources := [source], classFiles := [file] }
    file.Unusable w.config source ∧ ((Loader.ofDepth 9).findSourced "p.A").on w =
      some (.error (.missingDependency (.typesInitialized ⟨0⟩)), w.withJob source) := by
  intro source file w
  have unusable : file.Unusable w.config source := .foreign (by decide +kernel)
  have listed : w.sources.find? "p.A" = some source := by with_unfolding_all rfl
  have beside := (unusable_metadata_beside_source (Loader.ofDepth 9) listed rfl).1 file rfl unusable
  exact ⟨unusable, (beside.1 (by decide +kernel)).1⟩

/-- A class file of this very version whose document is none: the source beside it is not looked at. -/
theorem malformed_metadata_hides_source :
    let source : SourceFile := { path := "A.java", package := some "p", classes := [{ name := "A" }] }
    let file : ClassFile := { name := "p.A", encoded := .ofList [("jltc", "\x7b")], compilerVersion := some "0.1.0" }
    let w : World := .ofUniverse {} { sources := [source], classFiles := [file] }
    let alone : World := .ofUniverse {} { sources := [source] }
    file.Unusable w.config source ∧
      (∃ after, ((Loader.ofDepth 9).findSourced "p.A").on w =
        some (.error (.badEncoding "p.A" .malformedDocument), after) ∧ after.schedule.jobs = []) ∧
      ((Loader.ofDepth 9).findSourced "p.A").on alone =
        some (.error (.missingDependency (.typesInitialized ⟨0⟩)), alone.withJob source) := by
  intro source file w alone
  have listed : alone.sources.find? "p.A" = some source := by with_unfolding_all rfl
  obtain ⟨after, ran, idle⟩ : ∃ after, ((Loader.ofDepth 9).findSourced "p.A").on w =
      some (.error (.badEncoding "p.A" .malformedDocument), after) ∧ after.schedule.jobs.isEmpty := by decide +kernel
  refine ⟨.malformed "\x7b" rfl (by decide +kernel), ⟨after, ran, List.isEmpty_iff.mp idle⟩, ?_⟩
  exact Loader.on_findSourced_passed listed nofun

end ClassUniverse
