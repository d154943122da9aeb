import ClassUniverse.Proofs.LayerSteps
import ClassUniverse.Proofs.Library

/-! Declaring a class of a library: its shell is added and installed under both of its names. Nothing stands
in the way, for no class of a library has the name of a package. -/
namespace ClassUniverse

open Run

variable {config : Config} {path : ClassPath} {filed : List Filed} {w after : World} {name : String} {id : ClassId}
  {layers : Layers} {c : Filed}

/-- Only the top layer of the session's cache is changed. -/
structure World.Noted (w after : World) : Prop where
  arena : after.arena = w.arena
  below : w.system.SameBelow after.system

theorem World.Noted.trans {middle : World} (first : w.Noted middle) (second : middle.Noted after) : w.Noted after :=
  ⟨second.arena.trans first.arena, first.below.trans second.below⟩

theorem Layers.Sound.ask {known : String → Bool} (sound : layers.Sound P)
    (right : layers.presence known name → P name) : (layers.ask known name).Sound P := by
  unfold Layers.ask
  split
  · exact sound
  · exact sound.setPackage right

theorem Layers.SameBelow.ask (known : String → Bool) (layers : Layers) (name : String) :
    layers.SameBelow (layers.ask known name) := by
  unfold Layers.ask
  split
  · exact .refl _
  · exact .modifyTop _ _

theorem presence_absent (shelved : w.Shelved config path filed) (absent : path.packageExists name = false) :
    w.system.presence w.knowsPackage name = false := by
  have empty : w.table .session = .empty := by simp [World.table, shelved.tables, Assoc.getD]
  have unknown : w.knowsPackage name = false := by
    simp [World.knowsPackage, World.tableHasPackage, empty, Assoc.values, Assoc.empty, shelved.sources,
      SourceSet.packageExists, shelved.stocked, absent]
  unfold Layers.presence
  split
  · rename_i present hit
    refine Bool.eq_false_iff.mpr fun held => ?_
    simp [shelved.layers.known (held ▸ hit)] at absent
  · simp [unknown]

/-- What the session's cache of a library may hold: packages and classes under names of their own. -/
structure Layers.Stocked (path : ClassPath) (filed : List Filed) (arena : Arena) (layers : Layers) : Prop where
  sound : layers.Sound fun name => path.packageExists name
  entries : ∀ name entry, layers.lookup name = some entry →
    entry = .found (.package ⟨name⟩) ∧ path.packageExists name ∨
      ∃ c ∈ filed, c.Answers name ∧ ∃ id, entry = .found (.cls id) ∧ arena.Shows c id

theorem World.Shelved.recached (shelved : w.Shelved config path filed)
    (same : w.Recaches after) (left : after.system = layers) (stocked : layers.Stocked path filed w.arena) :
    after.Shelved config path filed := by
  rw [← left, same] at stocked
  rw [same]
  exact { shelved with layers := stocked.sound, entries := stocked.entries }

/-- A package of the library is noted as one, and held under its name where the class lies directly in it. -/
theorem Layers.Stocked.bring {arena : Arena} (stocked : layers.Stocked path filed arena)
    {package : Package} (known : path.packageExists package.fullName) (container : Option String) :
    (layers.bring package container).Stocked path filed arena ∧ layers.SameBelow (layers.bring package container) ∧
      ∀ query, (layers.bring package container).lookup query = layers.lookup query ∨
        query = package.fullName ∧ (layers.bring package container).lookup query = some (.found (.package ⟨query⟩)) := by
  have sound := stocked.sound.addPackage known fun outer member =>
    ClassPath.packageExists_of_below (Package.isBelow_of_mem_enclosings member) known
  have below := SameBelow.addPackage layers package
  have either (query : String) : (layers.bring package container).lookup query = layers.lookup query ∨
      query = package.fullName ∧ (layers.bring package container).lookup query = some (.found (.package ⟨query⟩)) := by
    unfold Layers.bring
    split
    · by_cases equal : query = package.fullName
      · exact .inr ⟨equal, by simp [equal]⟩
      · exact .inl (by simp [equal])
    · exact .inl (by simp)
  refine ⟨⟨?_, fun query entry hit => ?_⟩, ?_, either⟩
  · unfold Layers.bring
    split
    · exact sound.insert _ _
    · exact sound
  · rcases either query with same | ⟨equal, held⟩
    · exact stocked.entries query entry (same ▸ hit)
    · rw [held] at hit
      cases hit
      exact .inl ⟨rfl, equal ▸ known⟩
  · unfold Layers.bring
    split
    · exact below.trans (.insert _ _ _)
    · exact below

section Listed

variable (library : Library config.version path filed) (shelved : w.Shelved config path filed) (listed : c ∈ filed)
include library shelved listed

theorem addNamed_cls (answers : c.Answers name) (shows_ : w.arena.Shows c id)
    (housed : ∀ package, (w.arena.get id).kind = .topLevel → (w.arena.get id).package = some package →
      path.packageExists package.fullName)
    (hosted : ∀ outer container, name = w.arena.fullName id → (w.arena.get id).kind = .memberOf outer →
      containerName? name = some container → (w.system.check container).isSome) :
    (System.addNamed name (.cls id)).Yields w fun _ after => after.Shelved config path filed ∧ w.Noted after ∧
      after.system.lookup name = some (.found (.cls id)) ∧ ∀ query, query ≠ name →
        after.system.lookup query = w.system.lookup query ∨
          path.packageExists query ∧ after.system.lookup query = some (.found (.package ⟨query⟩)) := by
  have absent := library.apart c listed name answers
  have free := presence_absent shelved absent
  let stored := (w.system.ask w.knowsPackage name).insert name (.cls id)
  have looked (query : String) : stored.lookup query =
      if query = name then some (.found (.cls id)) else w.system.lookup query := by simp [stored]
  have stocked : stored.Stocked path filed w.arena := by
    refine ⟨(shelved.layers.ask fun taken => by simp [free] at taken).insert _ _, fun query entry hit => ?_⟩
    rw [looked] at hit
    split at hit
    · rename_i equal
      cases hit
      exact .inr ⟨c, listed, equal ▸ answers, id, rfl, shows_⟩
    · exact shelved.entries query entry hit
  have below : w.system.SameBelow stored := (Layers.SameBelow.ask _ _ _).trans (.insert _ _ _)
  obtain ⟨layers, came, sound, further, either⟩ : ∃ layers, w.system.addNamed w.knowsPackage w.arena name (.cls id) =
      (.ok (), layers) ∧ layers.Stocked path filed w.arena ∧ stored.SameBelow layers ∧ ∀ query,
        layers.lookup query = stored.lookup query ∨
          path.packageExists query ∧ layers.lookup query = some (.found (.package ⟨query⟩)) := by
    simp only [Layers.addNamed, Arena.nest, Layers.addNest, Layers.install, free, Bool.false_eq_true, if_false]
    split
    · rename_i package top lies
      have known := housed package top lies
      obtain ⟨brought, further, either⟩ := stocked.bring known (containerName? name)
      refine ⟨_, rfl, brought, further, fun query => (either query).imp_right ?_⟩
      rintro ⟨same, held⟩
      exact ⟨same ▸ known, held⟩
    · rename_i outer container member contained
      refine ⟨stored, if_neg fun inner => ?_, stocked, .refl _, fun _ => .inl rfl⟩
      simp only [Bool.and_eq_true, decide_eq_true_eq, Option.isNone_iff_eq_none] at inner
      have hit := hosted outer container inner.1 member contained
      have missing := inner.2
      change stored.check container = none at missing
      simp only [Layers.check, looked] at missing hit
      split at missing
      · cases missing
      · rw [missing] at hit
        cases hit
    · exact ⟨stored, rfl, stocked, .refl _, fun _ => .inl rfl⟩
  have ran : (System.addNamed name (.cls id)).ComesTo .session w _ := (System.reads w).addNamed name (.cls id)
  change ComesTo _ _ _ (w.system.addNamed _ _ _ _) at ran
  rw [came] at ran
  obtain ⟨after, ran, same, left⟩ := ran
  have left : after.system = layers := left
  refine ⟨(), after, ran, shelved.recached same left sound, ⟨same.arena, left ▸ below.trans further⟩, ?_⟩
  rw [left]
  refine ⟨?_, fun query other => ?_⟩
  · rcases either name with same | ⟨known, -⟩
    · rw [same, looked, if_pos rfl]
    · exact absurd known (library.not_package listed answers)
  · have same := either query
    rwa [looked, if_neg other] at same

/-- The record that a class has before anything it refers to is resolved. -/
def Metadata.shell (m : Metadata) (kind : ClassKind) (package : Option Package) (name : String) : ClassRecord :=
  { name, package, kind, flags := m.flags, position := some (filePosition m.name), fileName := some m.name,
    completion := some .decoded }

/-- The names of the class lead to it, and other names lead where they did. -/
structure World.Installs (path : ClassPath) (c : Filed) (id : ClassId) (w after : World) : Prop where
  arena : after.arena = w.arena
  below : w.system.SameBelow after.system
  binary : after.system.lookup c.document.name = some (.found (.cls id))
  full : after.system.lookup c.fullName = some (.found (.cls id))
  others : ∀ query, ¬ c.Answers query → after.system.lookup query = w.system.lookup query ∨
    path.packageExists query ∧ after.system.lookup query = some (.found (.package ⟨query⟩))

theorem installs_yields (shows_ : w.arena.Shows c id)
    (housed : ∀ package, (w.arena.get id).kind = .topLevel → (w.arena.get id).package = some package →
      path.packageExists package.fullName)
    (hosted : ∀ outer container, (w.arena.get id).kind = .memberOf outer → containerName? c.fullName = some container →
      (w.system.check container).isSome) : (do
      System.addNamed c.document.name (.cls id)
      let full ← fullName id
      if full ≠ c.document.name then System.addNamed full (.cls id)
      return id : Run ClassId).Yields w fun found after => found = id ∧ after.Shelved config path filed ∧
        w.Installs path c id after := by
  have first := addNamed_cls library shelved listed (.inr rfl) shows_ housed fun outer container same member contained =>
    hosted outer container member (by rw [← contained, same, shows_.fullName])
  refine first.bind fun _ middle ⟨kept, noted, found, others⟩ => ?_
  have shown : middle.arena.Shows c id := noted.arena ▸ shows_
  apply yields_step rfl
  rw [shown.fullName]
  by_cases same : c.fullName = c.document.name
  · rw [if_neg (by simp [same])]
    refine yields_pure ⟨rfl, kept, noted.arena, noted.below, found, same ▸ found, fun query other => ?_⟩
    exact others query fun equal => other (.inr equal)
  · rw [if_pos same]
    have second := addNamed_cls library kept listed (.inl rfl) shown (noted.arena ▸ housed)
      fun outer container _ member contained => ?_
    · refine second.bind fun _ after ⟨last, stored, hit, rest⟩ => yields_pure ⟨rfl, last, ?_⟩
      have whole := noted.trans stored
      refine ⟨whole.arena, whole.below, ?_, hit, fun query other => ?_⟩
      · rcases rest _ (Ne.symm same) with unchanged | ⟨package, -⟩
        · rw [unchanged, found]
        · exact absurd package (library.not_package listed (.inr rfl))
      · rcases rest query (fun equal => other (.inl equal)) with unchanged | held
        · rw [unchanged]
          exact others query fun equal => other (.inr equal)
        · exact .inr held
    · rw [noted.arena] at member
      have known := hosted outer container member contained
      by_cases equal : container = c.document.name
      · simp [Layers.check, equal, found, Entry.named?]
      · rcases others container equal with unchanged | ⟨-, held⟩
        · simpa [Layers.check, unchanged] using known
        · simp [Layers.check, held, Entry.named?]

end Listed

namespace World.Installs

variable {c : Filed} {after : World}

theorem agreed (installs : w.Installs path c id after) (library : Library config.version path filed) (listed : c ∈ filed)
    (before : ∀ d ∈ filed, w.system.check d.document.name = w.system.check d.fullName) :
    ∀ d ∈ filed, after.system.check d.document.name = after.system.check d.fullName := by
  intro d member
  by_cases same : c = d
  · simp [Layers.check, ← same, installs.binary, installs.full]
  · have unchanged (name : String) (answers : d.Answers name) : after.system.lookup name = w.system.lookup name := by
      rcases installs.others name fun mine => same (library.distinct c listed d member name mine answers) with
        equal | ⟨package, -⟩
      · exact equal
      · exact absurd package (library.not_package member answers)
    have agreed := before d member
    simp only [Layers.check] at agreed ⊢
    rw [unchanged _ (.inr rfl), unchanged _ (.inl rfl), agreed]

theorem checked (installs : w.Installs path c id after) (library : Library config.version path filed)
    (serving : w.Serving config path filed) (listed : c ∈ filed) (free : w.system.check c.document.name = none)
    (name : String) (named : Named) (hit : w.system.check name = some named) :
    after.system.check name = some named := by
  have other : ¬ c.Answers name := by
    rintro (rfl | rfl)
    · rw [← serving.agreed c listed, free] at hit
      cases hit
    · rw [free] at hit
      cases hit
  rcases installs.others name other with equal | ⟨package, held⟩
  · simpa [Layers.check, equal] using hit
  · obtain ⟨entry, found, same⟩ := Option.bind_eq_some_iff.mp hit
    rcases serving.entries name entry found with ⟨rfl, -⟩ | ⟨d, member, answers, -⟩
    · cases same
      simp [Layers.check, held, Entry.named?]
    · exact absurd package (library.not_package member answers)

end World.Installs

/-- A place for a class of the library, where what lies around it is known. -/
structure World.Houses (path : ClassPath) (c : Filed) (kind : ClassKind) (package : Option Package) (short : String)
    (w : World) : Prop where
  nested : (w.arena.add (c.document.shell kind package short)).2.Nested
  shows_ : (w.arena.add (c.document.shell kind package short)).2.Shows c ⟨w.arena.size⟩
  housed : ∀ p, kind = .topLevel → package = some p → path.packageExists p.fullName
  hosted : ∀ outer container, kind = .memberOf outer → containerName? c.fullName = some container →
    (w.system.check container).isSome

/-- A shell for a class of the library, under names that are free. -/
theorem declare_yields (library : Library config.version path filed) (serving : w.Serving config path filed)
    (listed : c ∈ filed) (free : w.system.check c.document.name = none) (houses : w.Houses path c kind package short) :
    (c.document.declare kind package short).Yields w fun id after => id = ⟨w.arena.size⟩ ∧
      after.Serving config path filed ∧ w.Extends after ∧
        after.arena = (w.arena.add (c.document.shell kind package short)).2 ∧
          after.system.check c.document.name = some (.cls id) := by
  have kept := Arena.Keeps.add w.arena (c.document.shell kind package short)
  have grown : ({ w with arena := (w.arena.add (c.document.shell kind package short)).2 } : World).Serving
      config path filed := ⟨serving.toShelved.withArena kept houses.nested, serving.agreed⟩
  have first : (addClass (c.document.shell kind package short)).on w =
      some (.ok ⟨w.arena.size⟩, { w with arena := (w.arena.add (c.document.shell kind package short)).2 }) := rfl
  refine yields_step first ?_
  refine (installs_yields library grown.toShelved listed houses.shows_ ?_ ?_).mono fun found after ⟨same, shelved, installs⟩ => ?_
  · rw [Arena.get_add_new]
    exact houses.housed
  · rw [Arena.get_add_new]
    exact houses.hosted
  · subst same
    refine ⟨rfl, ⟨shelved, installs.agreed library listed serving.agreed⟩, ?_, installs.arena,
      by simp [Layers.check, installs.binary, Entry.named?]⟩
    refine ⟨?_, fun other inside => ?_, fun name named hit => ?_, installs.below⟩
    · rw [installs.arena]
      exact kept.size
    · rw [installs.arena]
      simp [Arena.get_add, Nat.ne_of_lt inside]
    · exact installs.checked library grown listed free name named hit

end ClassUniverse
