import ClassUniverse.Proofs.Committing
import ClassUniverse.Proofs.HaltingAttempts
import ClassUniverse.Proofs.SourceWorlds
import ClassUniverse.Proofs.StageInvariant

/-! A job whose classes cannot all be declared. The classes are declared one after the other and nothing is
taken back. The next attempt passes over the classes that are there, so it meets the same failure if that was about a
class at the top of the source, and overlooks it otherwise. -/
namespace ClassUniverse

open Run

variable {w after : World} {id : ClassId} {f : α → Run Unit} {layers : Layers} {arena : Arena}

/-- A loop that fails has run through the items before the one at which it fails. -/
theorem Run.forM_fails (failed : (items.forM f).on w = some (.error e, after)) :
    ∃ before a rest middle, items = before ++ a :: rest ∧ (before.forM f).on w = some (.ok (), middle) ∧
      (f a).on middle = some (.error e, after) := by
  induction items generalizing w with
  | nil => cases failed
  | cons a rest ih =>
    have failed : (f a >>= fun _ => rest.forM f).on w = some (.error e, after) := failed
    rw [on_bind] at failed
    cases first : (f a).on w with
    | none => simp [first] at failed
    | some outcome =>
      obtain ⟨result, middle⟩ := outcome
      cases result with
      | error other =>
        simp only [first, Option.some.injEq, Prod.mk.injEq, Except.error.injEq] at failed
        obtain ⟨rfl, rfl⟩ := failed
        exact ⟨[], a, rest, w, rfl, rfl, first⟩
      | ok _ =>
        rw [first] at failed
        obtain ⟨before, b, later, last, split, ran, stopped⟩ := ih failed
        exact ⟨a :: before, b, later, last, congrArg (a :: ·) split, (on_bind_ok first).trans ran, stopped⟩

theorem Run.on_forM_append {before rest : List α} (ran : (before.forM f).on w = some (.ok (), middle)) :
    ((before ++ rest).forM f).on w = (rest.forM f).on middle := by
  have parts : (before ++ rest).forM f = before.forM f >>= fun _ => rest.forM f := List.forM_append
  rw [parts, on_bind_ok ran]

namespace World

/-- The name leads to a class of this job, so that the job does not declare it again. -/
def Owns (w : World) (job : JobId) (name : String) : Prop :=
  ((w.system.check name).bind Named.class?).any fun id => (w.arena.get id).job = some job

/-- The session's cache or its table has the class under this name. -/
def Shows (w : World) (name : String) (id : ClassId) : Prop :=
  w.system.check name = some (.cls id) ∨ (w.table .session).find? name = some (.cls id)

theorem owns_iff : w.Owns job name ↔ ∃ id, w.system.check name = some (.cls id) ∧ (w.arena.get id).job = some job := by
  unfold Owns
  cases hit : w.system.check name with
  | none => simp
  | some named => cases named <;> simp [Named.class?]

theorem Owns.later (owned : w.Owns job name) (kept : w.arena.Keeps after.arena)
    (same : after.system.check name = w.system.check name) : after.Owns job name := by
  obtain ⟨id, hit, own⟩ := owns_iff.mp owned
  refine owns_iff.mpr ⟨id, same.trans hit, ?_⟩
  by_cases inside : id.index < w.arena.size
  · rw [kept.job inside, own]
  · rw [w.arena.get_absent (Nat.le_of_not_lt inside)] at own
    cases own

/-- A class that was added after `base`. -/
def Since (base w : World) (id : ClassId) : Prop := base.arena.size ≤ id.index ∧ id.index < w.arena.size

/-- A class of the job in the package, made from one of the given declarations and nested in classes since `base`. -/
structure Added (base : World) (job : JobId) (package : Option Package) (made : ClassDecl → Prop) (arena : Arena)
    (decls : Assoc ClassId ClassDecl) (id : ClassId) : Prop where
  job : (arena.get id).job = some job
  package : (arena.get id).package = package
  made : ∃ decl, made decl ∧ decls.find? id = some decl
  nested : ∀ outer, arena.outer? id = some outer → base.arena.size ≤ outer.index ∧ outer.index < arena.size

/-- What a job has done since `base`: it has added classes, and no other classes have come into sight. -/
structure Declaring (base : World) (job : JobId) (package : Option Package) (made : ClassDecl → Prop)
    (w : World) : Prop where
  arena : base.arena.Keeps w.arena
  added : ∀ id, base.Since w id → base.Added job package made w.arena w.declarations id
  shown : ∀ name id, w.Shows name id → base.Shows name id ∨ base.Since w id

/-- Names of the job's own classes stay theirs, unless a name is that of the package. -/
structure OwnsKept (job : JobId) (package : Option Package) (w after : World) : Prop where
  size : w.arena.size ≤ after.arena.size
  schedule : after.schedule = w.schedule
  owned : ∀ name, package ≠ some ⟨name⟩ → w.Owns job name → after.Owns job name

end World

instance (job : JobId) (package : Option Package) : WorldOrder (World.OwnsKept job package) where
  refl _ := ⟨Nat.le_refl _, rfl, fun _ _ owned => owned⟩
  trans first second :=
    ⟨Nat.le_trans first.size second.size, second.schedule.trans first.schedule,
      fun name apart owned => second.owned name apart (first.owned name apart owned)⟩

namespace Layers

/-- Classes under names of the cache are those that were there or new ones, and none is hidden but under the name of
the package. -/
structure Admits (package : Option Package) (new : ClassId → Prop) (layers after : Layers) : Prop where
  cached : ∀ name id, after.check name = some (.cls id) → layers.check name = some (.cls id) ∨ new id
  kept : ∀ name id, package ≠ some ⟨name⟩ → layers.check name = some (.cls id) →
    ∃ other, after.check name = some (.cls other) ∧ (other = id ∨ new other)

namespace Admits

theorem refl (layers : Layers) : layers.Admits package new layers :=
  ⟨fun _ _ hit => .inl hit, fun _ id _ hit => ⟨id, hit, .inl rfl⟩⟩

variable (admits : layers.Admits package new middle)
include admits

theorem trans (further : middle.Admits package new final) : layers.Admits package new final := by
  refine ⟨fun name id hit => (further.cached name id hit).elim (admits.cached name id) .inr, fun name id apart hit => ?_⟩
  obtain ⟨other, found, either⟩ := admits.kept name id apart hit
  obtain ⟨last, found, later⟩ := further.kept name other apart found
  exact ⟨last, found, later.elim (fun same => either.imp same.trans (same ▸ ·)) .inr⟩

theorem ask (known : String → Bool) (name : String) : layers.Admits package new (middle.ask known name) := by
  refine ⟨fun other id hit => admits.cached other id ?_, fun other id apart hit => ?_⟩
  · rwa [check_ask] at hit
  · rw [check_ask]
    exact admits.kept other id apart hit

theorem insert (fresh : new id) (name : String) : layers.Admits package new (middle.insert name (.cls id)) := by
  refine ⟨fun other found hit => ?_, fun other found apart hit => ?_⟩
  · rw [check_insert] at hit
    split at hit
    · cases hit
      exact .inr fresh
    · exact admits.cached other found hit
  · rw [check_insert]
    split
    · exact ⟨id, rfl, .inr fresh⟩
    · exact admits.kept other found apart hit

/-- The package of a class is that of the job, so no name of a class is overwritten. -/
theorem bring (lies : package = some own) (container : Option String) :
    layers.Admits package new (middle.bring own container) := by
  refine ⟨fun other found hit => admits.cached other found (class_of_bring hit), fun other found apart hit => ?_⟩
  rw [check_bring fun same => apart (by rw [lies, same])]
  exact admits.kept other found apart hit

end Admits

/-- The classes around a class may be installed with it, under shorter names. -/
theorem admits_addNamed (layers : Layers) (known : String → Bool) (name : String)
    (lies : ∀ id, new id → (arena.get id).package = package)
    (nested : ∀ id, new id → ∀ outer, arena.outer? id = some outer → new outer) (fresh : new id) :
    layers.Admits package new (layers.addNamed known arena name (.cls id)).2 ∧
      ((layers.addNamed known arena name (.cls id)).1 = .ok () → package ≠ some ⟨name⟩ →
        ∃ other, (layers.addNamed known arena name (.cls id)).2.check name = some (.cls other) ∧ new other) := by
  cases free : layers.presence known name with
  | true =>
    rw [addNamed_taken free]
    exact ⟨(Admits.refl layers).ask known name, nofun⟩
  | false =>
    have start : layers.Admits package new ((layers.ask known name).insert name (.cls id)) :=
      ((Admits.refl layers).ask known name).insert fresh name
    have here : ((layers.ask known name).insert name (.cls id)).Admits package new
        (layers.addNamed known arena name (.cls id)).2 := by
      refine addNamed_free (F := fun _ id => new id) (fun _ name held => held.ask known name)
        (fun _ name _ held fresh _ => (held.ask known name).insert fresh name)
        (fun _ _ id package container held fresh own => held.bring ((lies id fresh).symm.trans own) container)
        (fun _ id outer _ fresh encloses _ _ _ => nested id fresh outer encloses) fresh free (.refl _)
    refine ⟨start.trans here, fun _ apart => ?_⟩
    obtain ⟨other, hit, either⟩ := here.kept name id apart (by rw [check_insert, if_pos rfl])
    exact ⟨other, hit, either.elim (· ▸ fresh) fun since => since⟩

end Layers

section Frame

variable {base : World} {job : JobId} {package : Option Package} {made : ClassDecl → Prop}

/-- An invariant of everything that a job does when it declares classes. -/
abbrev Run.Declares (base : World) (job : JobId) (package : Option Package) (made : ClassDecl → Prop) (x : Run α)
    (w : World) (good : α → World → Prop) : Prop :=
  x.Gives (World.Declaring base job package made) (World.OwnsKept job package) w good

theorem World.Since.later (since : base.Since w id) (size : w.arena.size ≤ after.arena.size) :
    base.Since after id := ⟨since.1, Nat.lt_of_lt_of_le since.2 size⟩

theorem World.Added.later (added : base.Added job package made arena decls id)
    (kept : arena.Keeps last) (inside : id.index < arena.size) (same : others.find? id = decls.find? id) :
    base.Added job package made last others id where
  job := (kept.job inside).trans added.job
  package := (kept.parts inside).2.1.trans added.package
  made := same ▸ added.made
  nested outer encloses := by
    rw [Arena.outer?, kept.kind inside] at encloses
    exact (added.nested outer encloses).imp_right (Nat.lt_of_lt_of_le · kept.size)

namespace World.Declaring

theorem start (w : World) (job : JobId) (package : Option Package) (made : ClassDecl → Prop) :
    Declaring w job package made w := by
  have none (id : ClassId) : ¬ w.Since w id := fun since => Nat.not_lt.mpr since.1 since.2
  exact ⟨.refl _, fun id since => absurd since (none id), fun _ _ => .inl⟩

theorem recached (holds : Declaring base job package made w) (same : w.Recaches after)
    (left : after.system = layers) (admits : w.system.Admits package (base.Since w) layers) :
    Declaring base job package made after ∧ OwnsKept job package w after := by
  have hits (name : String) : after.system.check name = layers.check name := by rw [left]
  rw [same] at hits ⊢
  refine ⟨{ holds with shown := fun name id shows => ?_ }, Nat.le_refl _, rfl, fun name apart owned => ?_⟩
  · rcases shows with hit | tabled
    · exact (admits.cached name id ((hits name).symm.trans hit)).elim (holds.shown name id ∘ .inl) .inr
    · exact holds.shown name id (.inr tabled)
  · obtain ⟨id, hit, own⟩ := owns_iff.mp owned
    obtain ⟨other, found, either⟩ := admits.kept name id apart hit
    refine owns_iff.mpr ⟨other, (hits name).trans found, ?_⟩
    rcases either with rfl | since
    · exact own
    · exact (holds.added other since).job

/-- All that the invariant says of a class is in its header. -/
theorem withHeaders (holds : Declaring base job package made w) (kept : w.arena.Keeps arena)
    (size : arena.size = w.arena.size) : Declaring base job package made { w with arena } := by
  have inside {id : ClassId} (since : base.Since { w with arena } id) : base.Since w id := ⟨since.1, size ▸ since.2⟩
  exact {
    arena := holds.arena.trans kept
    added := fun id since => (holds.added id (inside since)).later kept (inside since).2 rfl
    shown := fun name id shows => (holds.shown name id shows).imp_right fun since => since.later kept.size }

theorem listed (holds : Declaring base job package made w) (outer id : ClassId) :
    (Run.update outer fun record => { record with members := record.members ++ [id] }).Declares base job package made w
      fun _ _ => True := by
  have kept : w.arena.Keeps (w.arena.modify outer fun record => { record with members := record.members ++ [id] }) :=
    .modify rfl
  refine ends_update.mpr ⟨⟨holds.withHeaders kept (by simp), kept.size, rfl, fun name _ owned => ?_⟩, trivial⟩
  exact owned.later kept rfl

end World.Declaring

theorem System.addNamed_declares (holds : World.Declaring base job package made w) (since : base.Since w id)
    (apart : package ≠ some ⟨name⟩) :
    (System.addNamed name (.cls id)).Declares base job package made w fun _ after => after.Owns job name := by
  have added := w.system.admits_addNamed w.knowsPackage name (fun id since => (holds.added id since).package)
    (fun id since => (holds.added id since).nested) since
  refine ((System.reads w).addNamed name (.cls id)).gives (fun _ same left => holds.recached same left added.1)
    fun _ after done same left => ?_
  obtain ⟨other, hit, since⟩ := added.2 done apart
  refine World.owns_iff.mpr ⟨other, (congrArg (·.check name) left).trans hit, ?_⟩
  rw [same.arena]
  exact (holds.added other since).job

theorem World.Declaring.addShell (holds : World.Declaring base job package made w) {record : ClassRecord}
    (full : String) (own : record.job = some job) (lies : record.package = package)
    (listed : made decl) (around : ∀ outer, record.kind.outer? = some outer → base.Since w outer) :
    World.Declaring base job package made (w.addShell record decl full) := by
  have kept := Arena.Keeps.add w.arena record
  have new := w.arena.get_add_new record
  have size : w.arena.size ≤ (w.arena.add record).2.size := by simp
  constructor
  · exact holds.arena.trans kept
  · intro id since
    rcases w.arena.cases_add since.2 with ⟨old, -⟩ | rfl
    · have apart : id ≠ ⟨w.arena.size⟩ := fun same => by simp [same] at old
      exact (holds.added id ⟨since.1, old⟩).later kept old (by simp [World.addShell, apart])
    · refine ⟨(congrArg ClassRecord.job new).trans own, (congrArg ClassRecord.package new).trans lies,
        ⟨decl, listed, by simp [World.addShell]⟩, fun outer encloses => ?_⟩
      have encloses : ((w.arena.add record).2.get ⟨w.arena.size⟩).kind.outer? = some outer := encloses
      rw [new] at encloses
      exact (around outer encloses).later size
  · intro name id shows
    have last : base.Since { w with arena := (w.arena.add record).2 } ⟨w.arena.size⟩ := ⟨holds.arena.size, by simp⟩
    have earlier (shows : w.Shows name id) :
        base.Shows name id ∨ base.Since { w with arena := (w.arena.add record).2 } id :=
      (holds.shown name id shows).imp_right fun since => since.later size
    rcases shows with hit | tabled
    · exact earlier (.inl hit)
    · simp only [World.addShell, World.table, Assoc.getD, Assoc.find?_insert, if_true, Option.getD_some] at tabled
      split at tabled
      · cases tabled
        exact .inr last
      · exact earlier (.inr tabled)

theorem World.OwnsKept.addShell (w : World) (record : ClassRecord) (decl : ClassDecl) (full : String) :
    World.OwnsKept job package w (w.addShell record decl full) :=
  ⟨by simp [World.addShell], rfl, fun _ _ owned => owned.later (Arena.Keeps.add _ _) rfl⟩

theorem ClassDecl.declareShell_declares (path : String)
    (holds : World.Declaring base job package made w) (listed : made decl) (apart : package ≠ some ⟨full⟩)
    (around : ∀ outer, kind.outer? = some outer → base.Since w outer) :
    (decl.declareShell job path kind package full).Declares base job package made w
      fun id after => base.Since after id ∧ after.Owns job full := by
  refine declareShell_gives holds (.addShell w _ decl full) ?_
  have since : base.Since (w.addShell (decl.shell job path kind package (decl.shellFlags kind w)) decl full)
    ⟨w.arena.size⟩ := ⟨holds.arena.size, by simp [World.addShell]⟩
  exact (System.addNamed_declares (holds.addShell full rfl rfl listed around) since apart).mono
    fun _ after _ grown owned => ⟨since.later grown.size, owned⟩

mutual

theorem ClassDecl.declare_declares (path : String) (kind : ClassKind) (full : String) {w : World} :
    (decl : ClassDecl) → World.Declaring base job package made w → (∀ inner ∈ decl.nested, made inner) →
      (∀ inner, package ≠ some ⟨full ++ inner⟩) → (∀ outer, kind.outer? = some outer → base.Since w outer) →
      (decl.declare job path kind package full).Declares base job package made w
        fun id after => base.Since after id ∧ after.Owns job full
  | ⟨name, flags, superclass, interfaces, fields, methods, constructors, members, line⟩, holds, listed, apart, around => by
    have shell := declareShell_declares path holds (listed _ List.mem_cons_self) (by simpa using apart "") around
    refine shell.bind fun id middle holds grown declared => ?_
    have inner := declareMembers_declares path id full members holds
      (fun inner member => listed inner (List.mem_cons_of_mem _ member)) apart declared.1
    refine inner.bind fun _ after holds grown _ => gives_pure holds ?_
    exact ⟨declared.1.later grown.size, grown.owned full (by simpa using apart "") declared.2⟩

theorem ClassDecl.declareMembers_declares (path : String) (outer : ClassId) (full : String) {w : World} :
    (members : List ClassDecl) → World.Declaring base job package made w →
      (∀ inner ∈ ClassDecl.nestedIn members, made inner) → (∀ inner, package ≠ some ⟨full ++ inner⟩) →
      base.Since w outer → (ClassDecl.declareMembers job path outer package full members).Declares base job package
        made w fun _ _ => True
  | [], holds, _, _, _ => by
    exact gives_pure holds trivial
  | member :: rest, holds, listed, apart, around => by
    have first := declare_declares path (.memberOf outer) (qualify full member.name) member holds
      (fun inner inside => listed inner (List.mem_append_left _ inside))
      (fun inner => by rw [qualify, String.append_assoc, String.append_assoc]; exact apart _)
      (fun other encloses => by cases encloses; exact around)
    refine first.bind fun id middle holds grown _ => ?_
    refine (holds.listed outer id).bind fun _ last holds further _ => ?_
    exact declareMembers_declares path outer full rest holds
      (fun inner inside => listed inner (List.mem_append_right _ inside)) apart
      ((around.later grown.size).later further.size)

end

/-- A name in a package is not the name of the package. -/
theorem SourceFile.package_ne_nameOf (source : SourceFile) (decl : ClassDecl) (inner : String) :
    source.package.map Package.mk ≠ some ⟨source.nameOf decl ++ inner⟩ := by
  unfold nameOf
  cases source.package with
  | none => simp
  | some package =>
    intro same
    have length := congrArg String.length (Package.mk.inj (Option.some.inj same))
    have dot : ".".length = 1 := rfl
    simp only [qualify, String.length_append, dot] at length
    omega

theorem SourceFile.package_ne (source : SourceFile) (decl : ClassDecl) :
    source.package.map Package.mk ≠ some ⟨source.nameOf decl⟩ := by
  simpa using source.package_ne_nameOf decl ""

theorem SourceFile.declareClass_declares {source : SourceFile} (decl : ClassDecl)
    (holds : World.Declaring base job (source.package.map Package.mk) made w)
    (listed : ¬ w.Owns job (source.nameOf decl) → ∀ inner ∈ decl.nested, made inner) :
    (source.declareClass job decl).Declares base job (source.package.map Package.mk) made w
      fun _ after => after.Owns job (source.nameOf decl) := by
  refine gives_get.mpr (gives_ite (fun owned => gives_pure holds owned) fun absent => ?_)
  have declared := decl.declare_declares source.path .topLevel (source.nameOf decl) holds (listed absent)
    (source.package_ne_nameOf decl) nofun
  exact ends_discard.mpr (declared.mono fun _ _ _ _ declared => declared.2)

end Frame

section Refusal

variable {source : SourceFile} {decl : ClassDecl}

/-- Why a class at the top of a source is not declared: its flags are illegal, or its name is known to be that
of a package. -/
def World.Refuses (w : World) (path full : String) (decl : ClassDecl) (e : Error) : Prop :=
  (∃ fault, (decl.shellFlags .topLevel w).check .topLevelClass = .error fault ∧
      e = .invalidFlags fault (some { file := path, line := decl.line })) ∨
    (decl.shellFlags .topLevel w).check .topLevelClass = .ok () ∧ w.system.knownPackage full = some true ∧
      e = .typePackageClash full (some { file := path, line := decl.line })

/-- A class that no other class encloses is refused under the name of a package only. -/
theorem Layers.addNamed_refused
    (top : (arena.get id).kind = .topLevel) (failed : (layers.addNamed known arena name (.cls id)).1 = .error e) :
    (layers.addNamed known arena name (.cls id)).2.knownPackage name = some true ∧
      e = .typePackageClash name (arena.get id).position := by
  cases taken : layers.presence known name with
  | true =>
    rw [addNamed_taken taken] at failed ⊢
    cases failed
    exact ⟨by rw [knownPackage_ask, taken], rfl⟩
  | false =>
    simp only [addNamed, Arena.nest, addNest, install, taken, Bool.false_eq_true, if_false, top] at failed
    cases held : (arena.get id).package <;> simp [held] at failed

theorem ClassDecl.declareShell_refuses (decl : ClassDecl) (job : JobId) (path : String) (package : Option Package)
    (full : String) : (decl.declareShell job path .topLevel package full).Ends w (fun _ _ => True)
      (fun e after => after.Refuses path full decl e) := by
  cases checked : (decl.shellFlags .topLevel w).check .topLevelClass with
  | error fault =>
    have failed := on_declareShell_illegal decl job path .topLevel package full w checked
    exact (ends_congr (y := throw _) failed).mpr (ends_throw.mpr (.inl ⟨fault, checked, rfl⟩))
  | ok _ =>
    refine (ends_congr (on_declareShell_legal decl job path .topLevel package full w checked)).mpr ?_
    have new := w.arena.get_add_new (decl.shell job path .topLevel package (decl.shellFlags .topLevel w))
    refine ends_bind.mpr (((System.reads _).addNamed full _).ends (fun _ _ _ _ _ => ends_pure.mpr trivial) ?_)
    intro e after failed same left
    obtain ⟨known, clash⟩ := Layers.addNamed_refused (congrArg ClassRecord.kind new) failed
    refine .inr ⟨checked, (congrArg (·.knownPackage full) left).trans known, clash.trans ?_⟩
    exact congrArg (fun r : ClassRecord => Error.typePackageClash full r.position) new

/-- A declaration at the top of a source fails because it is refused, or when its class is there already. -/
theorem ClassDecl.declare_fails (path : String) (apart : ∀ inner, package ≠ some ⟨full ++ inner⟩) :
    (decl.declare job path .topLevel package full).Ends w (fun _ _ => True)
      (fun e after => after.Owns job full ∨ after.Refuses path full decl e) := by
  have only : package ≠ some ⟨full⟩ := by simpa using apart ""
  have shell := Ends.and (declareShell_declares path (.start w job package fun _ => True) trivial only fun _ never => by cases never)
    (decl.declareShell_refuses job path package full)
  obtain ⟨name, flags, superclass, interfaces, fields, methods, constructors, members, line⟩ := decl
  refine ends_bind.mpr (shell.mono (fun id middle declared => ?_) fun e after failed => .inr failed.2)
  obtain ⟨⟨⟨holds, _⟩, since, owned⟩, -⟩ := declared
  have inner := declareMembers_declares path id full members holds (fun _ _ => trivial) apart since
  refine ends_bind.mpr (Ends.mono inner (fun _ _ _ => ends_pure.mpr trivial) fun _ after failed => ?_)
  exact .inl (failed.2.owned full only owned)

theorem SourceFile.declareClass_fails (source : SourceFile) (job : JobId) (decl : ClassDecl) :
    (source.declareClass job decl).Ends w (fun _ _ => True) (fun e after =>
      after.Owns job (source.nameOf decl) ∨ after.Refuses source.path (source.nameOf decl) decl e) := by
  refine ends_bind.mpr (ends_get.mpr (ends_ite.mpr ⟨fun _ => ends_pure.mpr trivial, fun _ => ?_⟩))
  exact ends_discard.mpr (decl.declare_fails source.path (source.package_ne_nameOf decl))

theorem SourceFile.on_forM_owned {decls : List ClassDecl} (owned : ∀ decl ∈ decls, w.Owns job (source.nameOf decl)) :
    (decls.forM (source.declareClass job)).on w = some (.ok (), w) := by
  induction decls with
  | nil => rfl
  | cons decl rest ih =>
    have first : (source.declareClass job decl).on w = some (.ok (), w) :=
      congrArg (fun x : Run Unit => x.on w) (if_pos (owned decl List.mem_cons_self))
    exact (on_bind_ok first).trans (ih fun other member => owned other (List.mem_cons_of_mem _ member))

theorem Cache.on_addNest_clash (around : List ClassId) (known : w.system.knownPackage name = some true) :
    (Cache.addNest .session System.knowsPackage name (id :: around)).on w =
      some (.error (.typePackageClash name (w.arena.get id).position), w) := by
  have known : (w.cache .session).knownPackage name = some true := known
  have present : (Cache.packageExists .session System.knowsPackage name).on w = some (.ok true, w) := by
    rw [packageExists, on_get_bind]
    simp only [known]
    rfl
  have refused : (Cache.install .session System.knowsPackage name (.cls id)).on w =
      some (.error (.typePackageClash name (w.arena.get id).position), w) := on_bind_ok present
  exact on_bind_error refused

theorem ClassDecl.on_declareShell_refused (job : JobId) (package : Option Package)
    (refused : w.Refuses path full decl e) :
    ∃ after, (decl.declareShell job path .topLevel package full).on w = some (.error e, after) ∧
      w.arena.Keeps after.arena ∧ after.caches = w.caches ∧ after.schedule = w.schedule := by
  rcases refused with ⟨fault, illegal, rfl⟩ | ⟨legal, known, rfl⟩
  · exact ⟨w, decl.on_declareShell_illegal job path .topLevel _ _ w illegal, .refl _, rfl, rfl⟩
  · let record := decl.shell job path .topLevel package (decl.shellFlags .topLevel w)
    refine ⟨w.addShell record decl full, ?_, Arena.Keeps.add _ _, rfl, rfl⟩
    have clash : (System.addNamed full (.cls ⟨w.arena.size⟩)).on (w.addShell record decl full) =
        some (.error (.typePackageClash full (some { file := path, line := decl.line })), w.addShell record decl full) := by
      refine Eq.trans (Cache.on_addNest_clash _ known) ?_
      rw [World.addShell, w.arena.get_add_new]
      rfl
    rw [on_declareShell_legal decl job path .topLevel package full w legal]
    exact on_bind_error clash

/-- A class that was refused is refused again, and no more can be found under any name. -/
theorem SourceFile.on_declareClass_refused (absent : ¬ w.Owns job (source.nameOf decl))
    (refused : w.Refuses source.path (source.nameOf decl) decl e) :
    ∃ after, (source.declareClass job decl).on w = some (.error e, after) ∧ w.arena.Keeps after.arena ∧
      after.caches = w.caches ∧ after.schedule = w.schedule := by
  obtain ⟨after, failed, rest⟩ := decl.on_declareShell_refused job (source.package.map Package.mk) refused
  refine ⟨after, ?_, rest⟩
  have declared : (decl.declare job source.path .topLevel (source.package.map Package.mk) (source.nameOf decl)).on w =
      some (.error e, after) := by
    obtain ⟨name, flags, superclass, interfaces, fields, methods, constructors, members, line⟩ := decl
    exact on_bind_error failed
  have dropped : (decl.declare job source.path .topLevel (source.package.map Package.mk) (source.nameOf decl) >>=
      fun _ => pure ()).on w = some (.error e, after) := on_bind_error declared
  refine (congrArg (fun x : Run Unit => x.on w) (if_neg absent)).trans ?_
  exact dropped

/-- An attempt that must fail: all classes before the refused one are there, and that one is not. -/
structure World.Stuck (w : World) (source : SourceFile) (job : JobId) (before : List ClassDecl) (decl : ClassDecl)
    (e : Error) : Prop where
  passed : ∀ earlier ∈ before, w.Owns job (source.nameOf earlier)
  absent : ¬ w.Owns job (source.nameOf decl)
  held : ∀ name id, w.system.check name = some (.cls id) → id.index < w.arena.size
  refused : w.Refuses source.path (source.nameOf decl) decl e

theorem World.Stuck.of_same (stuck : w.Stuck source job before decl e) (kept : w.arena.Keeps after.arena)
    (caches : after.caches = w.caches) : after.Stuck source job before decl e := by
  have system : after.system = w.system := by rw [World.system, World.cache, caches]; rfl
  constructor
  · exact fun earlier member => (stuck.passed earlier member).later kept (by rw [system])
  · intro owned
    obtain ⟨id, hit, own⟩ := World.owns_iff.mp owned
    rw [system] at hit
    exact stuck.absent (World.owns_iff.mpr ⟨id, hit, (kept.job (stuck.held _ id hit)).symm.trans own⟩)
  · intro name id hit
    rw [system] at hit
    exact kept.inside (stuck.held name id hit)
  · have refused := stuck.refused
    unfold World.Refuses at refused ⊢
    rw [system]
    exact refused

theorem SourceFile.on_declareAll (source : SourceFile) (job : JobId) (w : World) :
    (source.declareAll job).on w = (source.classes.forM (source.declareClass job)).on
      { w with imports := w.imports.insert (.unit job) (source.importTable w.config) } := rfl

theorem World.Stuck.again (stuck : w.Stuck source job before decl e)
    (split : source.classes = before ++ decl :: rest) :
    ∃ after, (source.declareAll job).on w = some (.error e, after) ∧ after.Stuck source job before decl e ∧
      after.schedule = w.schedule := by
  let imported : World := { w with imports := w.imports.insert (.unit job) (source.importTable w.config) }
  have ready : imported.Stuck source job before decl e := stuck.of_same (.refl _) rfl
  obtain ⟨after, failed, kept, caches, schedule⟩ := SourceFile.on_declareClass_refused ready.absent ready.refused
  refine ⟨after, ?_, ready.of_same kept caches, schedule⟩
  rw [SourceFile.on_declareAll, split, on_forM_append (SourceFile.on_forM_owned ready.passed)]
  exact on_bind_error failed

end Refusal

section Attempts

/-- A goal that can be attempted: it is neither reached nor being run, and nothing comes before it. -/
structure World.Open (w : World) (goal : Goal) : Prop where
  unreached : w.reached goal = false
  idle : w.schedule.isProducing goal = false
  first : w.schedule.prerequisitesOf goal = []

def World.entering (w : World) (goal : Goal) : World :=
  { w with schedule := { w.schedule with running := goal :: w.schedule.running } }

def World.leaving (w : World) : World :=
  { w with schedule := { w.schedule with running := w.schedule.running.tail } }

/-- An attempt fails as the first run of its pass does. -/
theorem Run.on_attemptWithin_error {pass : Pass} (ready : w.Open goal) (given : e.missingGoal? = none)
    (failed : (do countRun goal; pass (attemptWithin pass depth) goal : Run Bool).on (w.entering goal) =
      some (.error e, after)) :
    (attemptWithin pass (depth + 1) goal).on w = some (.error e, after.leaving) := by
  have ran : (runPass pass (attemptWithin pass depth) goal (maxRuns + 1)).on (w.entering goal) =
      some (.error e, after) := by
    unfold runPass
    rw [on_bind_ok (on_outcome_of failed)]
    cases e <;> first | rfl | cases given
  have produced : (produce pass (attemptWithin pass depth) goal).on (w.entering goal) = some (.error e, after) := by
    have first : (w.entering goal).schedule.prerequisitesOf goal = [] := ready.first
    unfold produce
    rw [on_get_bind, first, on_bind_ok (show (attemptAll _ []).on (w.entering goal) = some (.ok true, _) from rfl)]
    exact ran
  unfold attemptWithin
  rw [on_get_bind, if_neg (by simp [ready.unreached]), if_neg (by simp [ready.idle]),
    on_bind_ok (show (modifySchedule _).on w = some (.ok (), w.entering goal) from rfl),
    on_bind_ok (on_outcome_of produced)]
  rfl

variable {l : Loader}

theorem World.Refuses.settled (refused : w.Refuses path full decl e) : e.missingGoal? = none := by
  rcases refused with ⟨_, _, rfl⟩ | ⟨_, _, rfl⟩ <;> rfl

theorem Loader.on_typesPass (known : w.schedule.source? job = some source) :
    (l.declarationPass attempt (.typesInitialized job)).on w =
      (source.declareAll job >>= fun _ => pure true : Run Bool).on w := by
  have declared : (Loader.initializeTypes job).on w = (source.declareAll job).on w := by
    unfold Loader.initializeTypes
    rw [on_get_bind, known]
  unfold Loader.declarationPass
  rw [on_bind, on_bind, declared]

/-- The schedule once a run has been counted for a goal that is entered. -/
def World.counting (w : World) (goal : Goal) : World :=
  { w.entering goal with schedule := (w.entering goal).schedule.countRun goal }

theorem World.Open.of_schedule (ready : w.Open (.typesInitialized job)) (same : after.schedule = w.schedule) :
    after.Open (.typesInitialized job) := by
  obtain ⟨unreached, idle, first⟩ := ready
  constructor
  · rwa [World.reached, same]
  · rwa [same]
  · rwa [same]

theorem World.Open.leaving (ready : w.Open (.typesInitialized job))
    (same : after.schedule = (w.counting (.typesInitialized job)).schedule) :
    after.leaving.Open (.typesInitialized job) := by
  have here : (w.counting (.typesInitialized job)).leaving.Open (.typesInitialized job) :=
    ⟨ready.unreached, ready.idle, ready.first⟩
  refine here.of_schedule ?_
  rw [World.leaving, same]
  rfl

theorem Run.on_countRun_exceeded (spent : ¬ w.schedule.runsOf goal < maxRuns) : (countRun goal).on (w.entering goal) =
      some (.error (.cyclicDependency (.runsExceeded goal maxRuns)), w.counting goal) := by
  have once := Schedule.runsOf_countRun (w.entering goal).schedule goal goal
  rw [if_pos rfl] at once
  have many : maxRuns < (w.counting goal).schedule.runsOf goal := by
    have same : (w.entering goal).schedule.runsOf goal = w.schedule.runsOf goal := rfl
    have counted : (w.counting goal).schedule = (w.entering goal).schedule.countRun goal := rfl
    rw [counted, once, same]
    omega
  unfold countRun
  rw [on_bind_ok (show (modifySchedule _).on (w.entering goal) = some (.ok (), w.counting goal) from rfl),
    on_get_bind, if_pos many]
  rfl

/-- An attempt at a job that is stuck fails for the same reason, until it has been run too often. -/
theorem World.Stuck.attempted (stuck : w.Stuck source job before decl e)
    (split : source.classes = before ++ decl :: rest) (known : w.schedule.source? job = some source)
    (ready : w.Open (.typesInitialized job)) (depth : Nat) :
    ∃ after, (attemptWithin l.declarationPass (depth + 1) (.typesInitialized job)).on w =
        some (.error (if w.schedule.runsOf (.typesInitialized job) < maxRuns then e
          else .cyclicDependency (.runsExceeded (.typesInitialized job) maxRuns)), after) ∧
      after.Stuck source job before decl e ∧ after.schedule.source? job = some source ∧
      after.Open (.typesInitialized job) := by
  by_cases allowed : w.schedule.runsOf (.typesInitialized job) < maxRuns
  · have counted : (w.counting (.typesInitialized job)).Stuck source job before decl e := stuck.of_same (.refl _) rfl
    obtain ⟨after, failed, still, schedule⟩ := counted.again split
    have passed : (do
        countRun (.typesInitialized job)
        l.declarationPass (attemptWithin l.declarationPass depth) (.typesInitialized job) : Run Bool).on
          (w.entering (.typesInitialized job)) = some (.error e, after) := by
      have counts := on_countRun (w := w.entering (.typesInitialized job)) allowed
      have known : (w.counting (.typesInitialized job)).schedule.source? job = some source := known
      exact (on_bind_ok counts).trans ((Loader.on_typesPass known).trans (on_bind_error failed))
    refine ⟨after.leaving, ?_, still.of_same (.refl _) rfl, ?_, ready.leaving schedule⟩
    · rw [if_pos allowed]
      exact on_attemptWithin_error ready stuck.refused.settled passed
    · rw [World.leaving, Schedule.source?, schedule]
      exact known
  · refine ⟨(w.counting (.typesInitialized job)).leaving, ?_, stuck.of_same (.refl _) rfl, known, ready.leaving rfl⟩
    rw [if_neg allowed]
    exact on_attemptWithin_error ready rfl (on_bind_error (on_countRun_exceeded allowed))

end Attempts

section Failure

variable {job : JobId} {source : SourceFile}

/-- Declaring some classes of a source makes classes only for those that were not there at the start. -/
theorem SourceFile.forM_declares (decls : List ClassDecl)
    (holds : World.Declaring base job (source.package.map Package.mk) made w)
    (grown : World.OwnsKept job (source.package.map Package.mk) base w)
    (listed : ∀ decl ∈ decls, ¬ base.Owns job (source.nameOf decl) → ∀ inner ∈ decl.nested, made inner) :
    (decls.forM (source.declareClass job)).Declares base job (source.package.map Package.mk) made w
      fun _ after => ∀ decl ∈ decls, after.Owns job (source.nameOf decl) := by
  induction decls generalizing w with
  | nil => exact gives_pure holds nofun
  | cons decl rest ih =>
    have first := declareClass_declares decl holds fun absent =>
      listed decl List.mem_cons_self fun owned => absent (grown.owned _ (source.package_ne decl) owned)
    refine first.bind fun _ middle holds further owned => ?_
    have later := ih holds (WorldOrder.trans grown further) fun other member =>
      listed other (List.mem_cons_of_mem _ member)
    refine later.mono fun _ after _ kept all other member => ?_
    rcases List.mem_cons.mp member with rfl | inside
    · exact kept.owned _ (source.package_ne _) owned
    · exact all other inside

/-- The worlds that come of attempting a goal again and again. -/
def Run.Retried (pass : Pass) (goal : Goal) : World → World → Prop :=
  Relation.ReflTransGen fun w after => ∃ depth result, (attemptWithin pass depth goal).on w = some (result, after)

theorem World.Stuck.retried {l : Loader}
    (stuck : w.Stuck source job before decl e) (split : source.classes = before ++ decl :: rest)
    (known : w.schedule.source? job = some source) (ready : w.Open (.typesInitialized job))
    (retried : Run.Retried l.declarationPass (.typesInitialized job) w later) :
    later.Stuck source job before decl e ∧ later.schedule.source? job = some source ∧
      later.Open (.typesInitialized job) := by
  induction retried with
  | refl => exact ⟨stuck, known, ready⟩
  | tail _ step ih =>
    obtain ⟨stuck, known, ready⟩ := ih
    obtain ⟨depth, result, ran⟩ := step
    cases depth with
    | zero => cases ran
    | succ depth =>
      obtain ⟨after, failed, kept⟩ := stuck.attempted (l := l) split known ready depth
      cases failed.symm.trans ran
      exact kept

theorem Loader.declareAll_of_typesPass {l : Loader} (known : w.schedule.source? job = some source)
    (failed : (l.declarationPass attempt (.typesInitialized job)).on w = some (.error e, after)) :
    (source.declareAll job).on w = some (.error e, after) := by
  rw [on_typesPass known, on_bind] at failed
  split at failed
  · cases failed
  · cases failed
  · rename_i ran
    cases failed
    exact ran

/-- Declared at the top of a source or inside such a declaration, under a name that was not there before. -/
def SourceFile.Adds (source : SourceFile) (job : JobId) (w : World) (tops : List ClassDecl) (inner : ClassDecl) : Prop :=
  ∃ top ∈ tops, ¬ w.Owns job (source.nameOf top) ∧ inner ∈ top.nested

/-- Where declaring the classes of a source stops, and what is there by then. -/
theorem SourceFile.declareAll_stops (failed : (source.declareAll job).on w = some (.error e, after)) :
    ∃ before decl rest, source.classes = before ++ decl :: rest ∧
      World.Declaring w job (source.package.map Package.mk) (source.Adds job w (before ++ [decl])) after ∧
      (∀ earlier ∈ before, after.Owns job (source.nameOf earlier)) ∧
      (after.Owns job (source.nameOf decl) ∨ after.Refuses source.path (source.nameOf decl) decl e) := by
  obtain ⟨before, decl, rest, middle, split, passed, stopped⟩ := Run.forM_fails failed
  let imported : World := { w with imports := w.imports.insert (.unit job) (source.importTable w.config) }
  have start : World.Declaring w job (source.package.map Package.mk) (source.Adds job w (before ++ [decl])) imported :=
    { World.Declaring.start w job _ _ with }
  have same : World.OwnsKept job (source.package.map Package.mk) w imported :=
    ⟨Nat.le_refl _, rfl, fun _ _ owned => owned⟩
  obtain ⟨⟨holds, grown⟩, owned⟩ := Ends.answer (forM_declares before start same
    fun top member absent inner nested => ⟨top, List.mem_append_left _ member, absent, nested⟩) passed
  obtain ⟨holds, further⟩ := Ends.error (declareClass_declares decl holds fun absent inner nested =>
    ⟨decl, by simp, fun old => absent (grown.owned _ (source.package_ne decl) old), nested⟩) stopped
  refine ⟨before, decl, rest, split, holds, fun earlier member => ?_, Ends.error (source.declareClass_fails job decl) stopped⟩
  exact further.owned _ (source.package_ne earlier) (owned earlier member)

/-- Declarations whose classes are there might as well not be written. -/
theorem SourceFile.on_declareAll_owned (split : source.classes = before ++ rest)
    (owned : ∀ earlier ∈ before, w.Owns job (source.nameOf earlier)) :
    (source.declareAll job).on w = (({ source with classes := rest } : SourceFile).declareAll job).on w := by
  rw [on_declareAll, on_declareAll, split]
  exact on_forM_append (on_forM_owned owned)

/-- A job that fails to declare its classes stops in one declaration at the top of its source. The classes of
the declarations before it are there, and whatever has come into sight is a new class of the job that stands in
this declaration or before it. If the class of this declaration is not there, every later attempt fails with
the same error, until the goal counts as stuck. If it is there, the error was about a class inside it: the next
attempt does not meet the error again and goes on with what follows. -/
theorem failed_declarations (l : Loader) {attempt : Attempt} {e : Error} (known : w.schedule.source? job = some source)
    (held : ∀ name id, w.Shows name id → id.index < w.arena.size)
    (failed : (l.declarationPass attempt (.typesInitialized job)).on w = some (.error e, after)) :
    ∃ before decl rest, source.classes = before ++ decl :: rest ∧
      (∀ earlier ∈ before, after.Owns job (source.nameOf earlier)) ∧
      (∀ name id, after.Shows name id → w.Shows name id ∨ w.arena.size ≤ id.index ∧
        (after.arena.get id).job = some job ∧ ∃ top ∈ before ++ [decl], ¬ w.Owns job (source.nameOf top) ∧
          ∃ inner ∈ top.nested, after.declarations.find? id = some inner) ∧
      (¬ after.Owns job (source.nameOf decl) → ∀ start : World, start.arena = after.arena →
        start.caches = after.caches → start.schedule.source? job = some source → start.Open (.typesInitialized job) →
        ∀ later, Run.Retried l.declarationPass (.typesInitialized job) start later → ∀ depth, ∃ last,
          (attemptWithin l.declarationPass (depth + 1) (.typesInitialized job)).on later =
            some (.error (if later.schedule.runsOf (.typesInitialized job) < maxRuns then e
              else .cyclicDependency (.runsExceeded (.typesInitialized job) maxRuns)), last)) ∧
      (after.Owns job (source.nameOf decl) → ∀ start : World, start.arena = after.arena →
        start.caches = after.caches → start.schedule.source? job = some source →
        (l.declarationPass attempt (.typesInitialized job)).on start =
          (({ source with classes := rest } : SourceFile).declareAll job >>= fun _ => pure true : Run Bool).on start) := by
  obtain ⟨before, decl, rest, split, holds, owned, either⟩ :=
    SourceFile.declareAll_stops (Loader.declareAll_of_typesPass known failed)
  refine ⟨before, decl, rest, split, owned, fun name id shows => ?_, fun absent start arena caches known ready => ?_,
    fun there start arena caches known => ?_⟩
  · refine (holds.shown name id shows).imp_right fun since => ⟨since.1, (holds.added id since).job, ?_⟩
    obtain ⟨inner, ⟨top, member, absent, nested⟩, found⟩ := (holds.added id since).made
    exact ⟨top, member, absent, inner, nested, found⟩
  · have held (name : String) (id : ClassId) (hit : after.system.check name = some (.cls id)) :
        id.index < after.arena.size := by
      rcases holds.shown name id (.inl hit) with old | since
      · exact holds.arena.inside (held name id old)
      · exact since.2
    have stuck : after.Stuck source job before decl e := ⟨owned, absent, held, either.resolve_left absent⟩
    have stuck : start.Stuck source job before decl e := stuck.of_same (arena ▸ .refl _) caches
    intro later retried depth
    obtain ⟨stuck, known, ready⟩ := stuck.retried split known ready retried
    obtain ⟨last, failed, -⟩ := stuck.attempted (l := l) split known ready depth
    exact ⟨last, failed⟩
  · have system : start.system = after.system := by rw [World.system, World.cache, caches]; rfl
    have passed (earlier : ClassDecl) (member : earlier ∈ before ++ [decl]) :
        start.Owns job (source.nameOf earlier) := by
      have there : after.Owns job (source.nameOf earlier) := by
        rcases List.mem_append.mp member with inside | last
        · exact owned earlier inside
        · exact List.mem_singleton.mp last ▸ there
      exact there.later (arena ▸ .refl _) (by rw [system])
    rw [Loader.on_typesPass known, on_bind, on_bind, SourceFile.on_declareAll_owned (by simpa using split) passed]

/-- A private class at the top of a source is refused whenever it is attempted. -/
theorem failed_declarations_private :
    let source : SourceFile :=
      { path := "A.java", package := some "p", classes := [{ name := "A", flags := .ofList [.privateAccess] }] }
    let w : World := { schedule := { jobs := [source] } }
    let l := Loader.ofDepth 5
    ∃ e after last, (l.declarationPass (fun _ => pure false) (.typesInitialized ⟨0⟩)).on w = some (.error e, after) ∧
      (attemptWithin l.declarationPass 1 (.typesInitialized ⟨0⟩)).on { after with schedule := w.schedule } =
        some (.error e, last) := by
  intro source w l
  obtain ⟨e, after, ran, missing⟩ : ∃ e after, (l.declarationPass (fun _ => pure false) (.typesInitialized ⟨0⟩)).on w =
      some (.error e, after) ∧ after.system.check "p.A" = none := by decide +kernel
  have held (name : String) (id : ClassId) (shows : w.Shows name id) : id.index < w.arena.size := by
    rcases shows with hit | tabled
    · cases hit
    · cases tabled
  obtain ⟨before, decl, rest, split, -, -, refused, -⟩ := failed_declarations l rfl held ran
  cases before with
  | cons other before => simp [source] at split
  | nil =>
    obtain ⟨rfl, -⟩ := List.cons.inj split
    have absent : ¬ after.Owns ⟨0⟩ "p.A" := by simp [World.Owns, missing]
    have idle : ({ after with schedule := w.schedule } : World).Open (.typesInitialized ⟨0⟩) := ⟨rfl, rfl, rfl⟩
    obtain ⟨last, again⟩ := refused absent { after with schedule := w.schedule } rfl rfl rfl idle _ .refl 0
    exact ⟨e, after, last, ran, again⟩

/-- A member class is declared with flags that it may not have. The first attempt says so, but leaves the class
around it in place; the second one finds that class and succeeds. -/
theorem illegal_member_overlooked :
    let source : SourceFile := {
      path := "A.java", package := some "p"
      classes := [{ name := "A", members := [{ name := "I", flags := .ofList [.native] }] }] }
    let u : Universe := { sources := [source] }
    let w := Request.next (.load source) 5 (.ofUniverse {} u)
    let attempt := (Engine.ofDepth 5).attempt (.typesInitialized ⟨0⟩)
    (Reachable {} u w ∧ w.system.check "p.A" = none) ∧ ∃ e after last, attempt.on w = some (.error e, after) ∧
      after.Shows "p.A" ⟨0⟩ ∧ attempt.on after = some (.ok true, last) := by
  intro source u w attempt
  have reached : Reachable {} u w := (Leads.refl _).next (.load source) 5 List.mem_cons_self
  obtain ⟨e, after, ran, shows, last, succeeded⟩ : ∃ e after, attempt.on w = some (.error e, after) ∧
      after.system.check "p.A" = some (.cls ⟨0⟩) ∧ ∃ last, attempt.on after = some (.ok true, last) := by decide +kernel
  exact ⟨⟨reached, by decide +kernel⟩, e, after, last, ran, .inl shows, succeeded⟩

end Failure

end ClassUniverse
