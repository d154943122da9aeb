import ClassUniverse.Proofs.SourceOnly
import ClassUniverse.Proofs.SourceWorlds

/-! Look-ups in sessions over sources. Every class that a look-up answers with exists, and the session's cache
answers a name only with a class that the name may stand for. -/
namespace ClassUniverse

open Run

variable {name : String} {id : ClassId}

/-- Only what lies outside the arena is changed. -/
def SameArena (w after : World) : Prop := after.arena = w.arena

instance : WorldOrder SameArena where
  refl _ := rfl
  trans first second := second.trans first

theorem SameArena.keeps {w after : World} (same : SameArena w after) : w.Keeps after := by
  rw [World.Keeps, same]
  exact .refl w.arena

section Caches

variable {config : Config} {u : Universe} {w : World} {arena : Arena} {layers : Layers} {known : String → Bool}

namespace Layers.FromSources

variable (held : layers.FromSources u arena) (knows : ∀ name, known name = false → ¬ u.HasPackage name)
include held

theorem setPackage (right : present = false → ¬ u.HasPackage name) :
    (layers.setPackage name present).FromSources u arena := by
  refine ⟨fun other id hit => ?_, fun other absent => ?_⟩
  · rw [check_setPackage] at hit
    exact held.cached other id hit
  · rw [knownPackage_setPackage] at absent
    split at absent
    · rename_i same
      exact same ▸ right (Option.some.inj absent)
    · exact held.packages other absent

theorem insert (names : ∀ id, named = .cls id → arena.Names u name id) :
    (layers.insert name named).FromSources u arena := by
  refine ⟨fun other id hit => ?_, fun other absent => ?_⟩
  · rw [check_insert] at hit
    split at hit
    · rename_i same
      exact same ▸ names id (Option.some.inj hit)
    · exact held.cached other id hit
  · rw [knownPackage_insert] at absent
    exact held.packages other absent

theorem insertMiss (name : String) : (layers.insertMiss name).FromSources u arena := by
  refine ⟨fun other id hit => ?_, fun other absent => ?_⟩
  · rw [check_insertMiss] at hit
    split at hit
    · cases hit
    · exact held.cached other id hit
  · rw [knownPackage_insertMiss] at absent
    exact held.packages other absent

theorem addPackage (package : Package) : (layers.addPackage package).FromSources u arena := by
  refine ⟨fun other id hit => ?_, fun other absent => held.packages other (knownPackage_addPackage _ _ absent)⟩
  rw [check_addPackage] at hit
  exact held.cached other id hit

theorem bring (package : Package) (container : Option String) : (layers.bring package container).FromSources u arena := by
  unfold Layers.bring
  split
  · exact (held.addPackage package).insert nofun
  · exact held.addPackage package

include knows

theorem absent (missing : layers.presence known name = false) : ¬ u.HasPackage name := by
  unfold presence at missing
  split at missing
  · rename_i hit
    exact held.packages name (missing ▸ hit)
  · split at missing
    · rename_i outside
      obtain ⟨container, contained, missing⟩ := Option.bind_eq_some_iff.mp outside
      exact fun present => held.packages container missing
        (SourceSet.packageExists_of_below (isBelow_of_containerName contained) present)
    · exact knows name missing

theorem ask (name : String) : (layers.ask known name).FromSources u arena := by
  unfold Layers.ask
  split
  · exact held
  · exact held.setPackage (held.absent knows)

/-- Along with a member class, the class around it may be installed under the container of its name. -/
theorem addNest (sound : arena.FromSources config u) (inside : id.index < arena.size) (named : arena.fullName id = name) :
    (layers.addNamed known arena name (.cls id)).2.FromSources u arena := by
  refine addNamed_keeps (P := (·.FromSources u arena)) (F := fun name id => id.index < arena.size ∧
      (arena.fullName id = name ∨ isBelow (arena.fullName id) name ∧ ¬ u.HasPackage (arena.fullName id)))
    (fun _ name held => held.ask knows name) (fun _ name _ held fits free => ?_)
    (fun _ _ _ package container held _ _ => held.bring package container)
    (fun name id outer container fits encloses kind named contained => ?_) ⟨inside, .inl named⟩ held
  · exact (held.ask knows name).insert fun _ same => Named.cls.inj same ▸ ⟨fits.1, held.absent knows free, fits.2⟩
  · have below : isBelow (arena.fullName outer) name := by
      rw [named, Arena.fullName_memberOf sound.nested kind]
      exact isBelow_qualify _ _
    refine ⟨Nat.lt_trans (sound.nested id fits.1 outer encloses) fits.1, ?_⟩
    rcases below_of_containerName below contained with same | deeper
    · exact .inl same.symm
    · exact .inr ⟨deeper, sound.outers id fits.1 outer encloses⟩

end Layers.FromSources

theorem World.FromSources.knows (sound : w.FromSources config u) (name : String) (absent : w.knowsPackage name = false) :
    ¬ u.HasPackage name := by
  simp only [World.knowsPackage, Bool.or_eq_false_iff, sound.sources] at absent
  simp [Universe.HasPackage, absent.1.2]

variable {backing : String → Run Bool} (reads : Cache.Reads backing w.knowsPackage w) (sound : w.FromSources config u)
include reads sound

theorem Cache.Reads.addNamed_gives
    (fits : ∀ id, named = .cls id → id.index < w.arena.size ∧ w.arena.fullName id = name) :
    (Cache.addNamed .session backing name named).Gives (World.FromSources config u) SameArena w
      fun _ after => ∀ id, named = .cls id → after.arena.Names u name id := by
  refine (reads.addNamed name named).gives (fun _ same left => ⟨sound.recached same left ?_, same.arena⟩) ?_
  · cases named with
    | cls id => exact sound.system.addNest sound.knows sound.arena (fits id rfl).1 (fits id rfl).2
    | package package =>
      have stored : (w.system.insert name (.package package)).FromSources u w.arena := sound.system.insert nofun
      exact stored.addPackage package
  · rintro _ after added same - id rfl
    rw [same.arena]
    refine ⟨(fits id rfl).1, sound.system.absent sound.knows (Bool.eq_false_iff.mpr fun taken => ?_), .inl (fits id rfl).2⟩
    have added : (w.system.addNamed w.knowsPackage w.arena name (.cls id)).1 = _ := added
    rw [Layers.addNamed_taken taken] at added
    cases added

end Caches

section Finding

variable {config : Config} {u : Universe} {w : World}

theorem World.FromSources.load (sound : w.FromSources config u) (listed : source ∈ u.sources) :
    ({ w with schedule := (w.schedule.load source).2 } : World).FromSources config u := by
  refine sound.withSchedule fun other member => ?_
  unfold Schedule.load at member
  split at member
  · exact sound.jobs other member
  · rcases List.mem_append.mp member with before | last
    · exact sound.jobs other before
    · rw [List.mem_singleton.mp last]
      exact listed

theorem FromSources.sourced (config : Config) (u : Universe) : Sourced u (World.FromSources config u) SameArena where
  sources sound := sound.sources
  files sound := sound.files
  load listed sound := ⟨sound.load listed, rfl⟩

theorem Resolver.session_gives (l : Loader) (name : String) (sound : w.FromSources config u) :
    (Resolver.session.find l name).Gives (World.FromSources config u) SameArena w fun named after =>
      after.system.check name = some named ∨
        ∀ id, named = .cls id → id.index < after.arena.size ∧ after.arena.fullName id = name := by
  refine (session_finishes (FromSources.sourced config u) l name sound).gives.mono fun named after sound _ found => ?_
  exact found.imp_right fun hit id same => sound.tabled name id (same ▸ hit)

theorem Resolver.system_gives (settings : Config) (l : Loader) (name : String) (sound : w.FromSources config u) :
    ((Resolver.system settings).find l name).Gives (World.FromSources config u) SameArena w
      fun named after => ∀ id, named = .cls id → after.arena.Names u name id := by
  unfold system Resolver.find Cache.find
  rw [gives_get]
  split
  · rename_i named hit
    refine gives_pure sound fun id same => sound.system.cached name id ?_
    simp only [Layers.check, World.system, hit, same, Option.bind_some, Entry.named?]
  · exact gives_throw _ sound
  · refine (session_gives l name sound).outcome.bind fun result middle sound same found => ?_
    cases result with
    | error e =>
      refine gives_ite (fun _ => ?_) fun _ => gives_throw _ sound
      have noted : (Run.modifyCache .session (·.insertMiss name)).Gives (World.FromSources config u) SameArena middle
          fun _ _ => True := (comesTo_modifyCache _).gives
        (fun _ same left => ⟨sound.recached same left (sound.system.insertMiss name), same.arena⟩) fun _ _ _ _ _ => trivial
      exact noted.bind fun _ _ sound _ _ => gives_throw _ sound
    | ok named =>
      rw [gives_get]
      refine gives_ite (fun apart => ?_) fun held => ?_
      · refine ((Resolver.session_reads middle).addNamed_gives sound ?_).bind fun _ _ sound _ names => gives_pure sound names
        exact (found named rfl).resolve_left apart
      · refine gives_pure sound fun id same => sound.system.cached name id ?_
        rw [← same]
        exact Classical.not_not.mp held

end Finding

end ClassUniverse
