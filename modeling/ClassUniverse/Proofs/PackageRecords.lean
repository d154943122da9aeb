import ClassUniverse.Proofs.CacheSteps
import ClassUniverse.Proofs.ClassPaths

/-! Which packages a layered cache has. Every answer is remembered, also that there is no such package, and yet the
answers never depend on what was asked before: there are the packages behind the cache, and those that were recorded in
a layer that is still there, with all packages around them. -/
namespace ClassUniverse

open Run

variable {name : String} {package : Package}

theorem exists_containerName (below : isBelow above name) : ∃ container, containerName? name = some container := by
  obtain ⟨rest, whole⟩ := isBelow_iff.mp below
  cases cut : Text.splitLast '.' name.toList with
  | none => exact absurd (by simp [whole]) (Text.splitLast_eq_none.mp cut)
  | some parts => exact ⟨String.ofList parts.1, by simp [containerName?, splitName, cut]⟩

namespace Package

theorem mem_enclosingFrom (enough : package.fullName.toList.length ≤ steps) (below : isBelow name package.fullName) :
    ⟨name⟩ ∈ enclosingFrom steps package := by
  induction steps generalizing package with
  | zero =>
    obtain ⟨rest, whole⟩ := isBelow_iff.mp below
    simp [whole] at enough
  | succ steps ih =>
    obtain ⟨container, contained⟩ := exists_containerName below
    obtain ⟨rest, whole, -⟩ := toList_of_containerName contained
    have shorter : container.toList.length ≤ steps := by
      simp only [whole, List.length_append, List.length_cons] at enough
      omega
    rw [enclosingFrom, enclosing, contained]
    rcases below_of_containerName below contained with rfl | deeper
    · exact List.mem_cons_self
    · exact List.mem_cons_of_mem _ (ih shorter deeper)

theorem mem_names : name ∈ package.names ↔ name = package.fullName ∨ isBelow name package.fullName := by
  constructor
  · intro member
    obtain ⟨other, listed, rfl⟩ := List.mem_map.mp member
    rcases List.mem_cons.mp listed with rfl | around
    · exact .inl rfl
    · exact .inr (isBelow_of_mem_enclosings around)
  · rintro (rfl | below)
    · exact List.mem_cons_self
    · have around : ⟨name⟩ ∈ package.enclosings := mem_enclosingFrom (Nat.le_refl _) below
      exact List.mem_map.mpr ⟨⟨name⟩, List.mem_cons_of_mem _ around, rfl⟩

end Package

/-- One of the packages has the name or lies below it. -/
def Covered (packages : List Package) (name : String) : Prop :=
  ∃ package ∈ packages, name = package.fullName ∨ isBelow name package.fullName

instance (packages : List Package) (name : String) : Decidable (Covered packages name) :=
  inferInstanceAs (Decidable (∃ _ ∈ _, _))

theorem Covered.append : Covered (packages ++ more) name ↔ Covered packages name ∨ Covered more name := by
  simp [Covered, or_and_right, exists_or]

/-- What a layer knows about packages, with some names marked as packages. -/
def markAll (table : Assoc String Bool) (names : List String) : Assoc String Bool :=
  names.foldl (fun (table : Assoc String Bool) name => table.insert name true) table

theorem find?_markAll (table : Assoc String Bool) (names : List String) (query : String) :
    (markAll table names).find? query = if query ∈ names then some true else table.find? query := by
  unfold markAll
  induction names generalizing table with
  | nil => simp
  | cons name rest ih =>
    rw [List.foldl_cons, ih, Assoc.find?_insert]
    by_cases same : query = name <;> simp [same]

theorem mem_markAll
    (member : (query, true) ∈ (markAll table names).entries) : query ∈ names ∨ (query, true) ∈ table.entries := by
  induction names generalizing table with
  | nil => exact .inr member
  | cons name rest ih =>
    rcases ih member with later | inserted
    · exact .inl (List.mem_cons_of_mem _ later)
    · simp only [Assoc.insert, List.mem_cons, Prod.mk.injEq, and_true] at inserted
      rcases inserted with rfl | before
      · exact .inl List.mem_cons_self
      · exact .inr (List.mem_filter.mp before).1

namespace Layers

/-- What the layers know about packages, from the top down. -/
def tables (layers : Layers) : List (Assoc String Bool) := layers.toList.map (·.packages)

variable {layers : Layers}

theorem tables_cons (layers : Layers) : ∃ table rest, layers.tables = table :: rest := by
  rw [tables, toList_eq]
  exact ⟨_, _, rfl⟩

theorem knownPackage_tables (layers : Layers) (name : String) :
    layers.knownPackage name = layers.tables.findSome? (·.find? name) := by
  rw [knownPackage, tables, List.findSome?_map]
  rfl

@[simp] theorem tables_insert (layers : Layers) (name : String) (named : Named) :
    (layers.insert name named).tables = layers.tables := by
  obtain ⟨top, whole, -, packages⟩ := layers.toList_insert name named
  rw [tables, tables, whole, layers.toList_eq, List.map_cons, List.map_cons, packages]
  rfl

@[simp] theorem tables_insertMiss (layers : Layers) (name : String) : (layers.insertMiss name).tables = layers.tables := by
  rw [tables, tables, insertMiss, toList_modifyTop, layers.toList_eq]
  rfl

@[simp] theorem tables_insertAll (layers : Layers) (entries : List (String × Named)) :
    (layers.insertAll entries).tables = layers.tables :=
  insertAll_keeps (P := (·.tables = layers.tables)) rfl fun _ _ _ => (tables_insert ..).trans

section Held

variable (held : layers.tables = table :: rest)
include held

theorem tables_setPackage (name : String) (present : Bool) :
    (layers.setPackage name present).tables = table.insert name present :: rest := by
  rw [tables, toList_eq, List.map_cons, List.cons.injEq] at held
  rw [tables, setPackage, toList_modifyTop, List.map_cons, held.2, ← held.1]
  rfl

theorem tables_setPackages (names : List String) : (layers.setPackages names).tables = markAll table names :: rest := by
  induction names generalizing layers table with
  | nil => exact held
  | cons name rest ih => exact ih (tables_setPackage held name true)

theorem tables_addPackage (package : Package) :
    (layers.addPackage package).tables = markAll table package.names :: rest := by
  rw [addPackage_eq]
  exact tables_setPackages held package.names

theorem tables_bring (package : Package) (container : Option String) :
    (layers.bring package container).tables = markAll table package.names :: rest := by
  unfold bring
  split
  · rw [tables_insert, tables_addPackage held]
  · exact tables_addPackage held package

end Held

theorem tables_discard (discarded : layers.discard? = some after) : layers.tables = layers.top.packages :: after.tables := by
  obtain ⟨top, rfl⟩ := eq_of_discard? discarded
  rfl

theorem commit?_eq_none (unforked : layers.discard? = none) : layers.commit? = none := by
  obtain ⟨base, overlays⟩ := layers
  cases overlays with
  | nil => rfl
  | cons top rest => cases unforked

/-- The names that a committed layer marks below. -/
theorem tables_commit (discarded : layers.discard? = some below) (held : below.tables = table :: rest) :
    ∃ after, layers.commit? = some after ∧
      after.tables = markAll table ((layers.top.packages.entries.filter (·.2)).map (·.1)) :: rest := by
  obtain ⟨top, rfl⟩ := eq_of_discard? discarded
  refine ⟨_, commit?_eq rfl, tables_setPackages ?_ _⟩
  rw [tables_insertAll]
  exact held

end Layers

/-- Each layer knows the packages that are recorded in it, and otherwise only what is so behind the cache. -/
inductive Tallies (known : String → Bool) : List (Assoc String Bool) → List (List Package) → Prop where
  | nil : Tallies known [] []
  | cons {table : Assoc String Bool} {tables : List (Assoc String Bool)} {top : List Package} {below : List (List Package)}
      (present : ∀ name, (name, true) ∈ table.entries → known name = true ∨ Covered top name)
      (recorded : ∀ name, Covered top name → table.find? name = some true)
      (absent : ∀ name, table.find? name = some false → known name = false ∧ ¬Covered below.flatten name)
      (lower : Tallies known tables below) : Tallies known (table :: tables) (top :: below)

namespace Tallies

/-- What the layers know about a name is right, and all that is recorded is known. -/
theorem known_iff (tallies : Tallies known tables records) (name : String) :
    (tables.findSome? (·.find? name) = some true → known name = true ∨ Covered records.flatten name) ∧
    (tables.findSome? (·.find? name) = some false → known name = false) ∧
    (Covered records.flatten name → tables.findSome? (·.find? name) = some true) := by
  induction tallies with
  | nil => simp [Covered]
  | @cons table _ top below present recorded absent lower ih =>
    rw [List.findSome?_cons, List.flatten_cons, Covered.append]
    obtain ⟨there, missing, covers⟩ := ih
    cases here : table.find? name with
    | none =>
      have unrecorded : ¬Covered top name := fun covered => by simp [recorded name covered] at here
      exact ⟨fun held => (there held).imp_right .inr, missing, fun covered => covers (covered.resolve_left unrecorded)⟩
    | some value =>
      cases value with
      | true => exact ⟨fun _ => (present name (Assoc.mem_of_find? here)).imp_right .inl, by simp, fun _ => rfl⟩
      | false =>
        obtain ⟨unknown, clear⟩ := absent name here
        have unrecorded : ¬Covered top name := fun covered => by simp [recorded name covered] at here
        exact ⟨by simp, fun _ => unknown, fun covered => (covered.elim unrecorded clear).elim⟩

/-- An answer of what stands behind the cache may be remembered where nothing is recorded. -/
theorem remember (tallies : Tallies known (table :: tables) records) (unrecorded : ¬Covered records.flatten name) :
    Tallies known (table.insert name (known name) :: tables) records := by
  cases tallies with
  | cons present recorded absent lower =>
    rw [List.flatten_cons, Covered.append, not_or] at unrecorded
    refine .cons (fun query member => ?_) (fun query covered => ?_) (fun query held => ?_) lower
    · simp only [Assoc.insert, List.mem_cons, Prod.mk.injEq] at member
      rcases member with ⟨rfl, held⟩ | before
      · exact .inl held.symm
      · exact present query (List.mem_filter.mp before).1
    · have other : query ≠ name := fun same => unrecorded.1 (same ▸ covered)
      rw [Assoc.find?_insert, if_neg other]
      exact recorded query covered
    · rw [Assoc.find?_insert] at held
      split at held
      · rename_i same
        rw [same]
        exact ⟨Option.some.inj held, unrecorded.2⟩
      · exact absent query held

theorem extend (tallies : Tallies known (table :: tables) (top :: records))
    (right : ∀ name ∈ names, known name = true ∨ Covered more name) (all : ∀ name, Covered more name → name ∈ names) :
    Tallies known (markAll table names :: tables) ((more ++ top) :: records) := by
  cases tallies with
  | cons present recorded absent lower =>
    refine .cons (fun query member => ?_) (fun query covered => ?_) (fun query held => ?_) lower
    · rw [Covered.append]
      rcases mem_markAll member with marked | before
      · exact (right query marked).imp_right .inl
      · exact (present query before).imp_right .inr
    · rw [find?_markAll]
      split
      · rfl
      · rename_i unmarked
        exact recorded query ((Covered.append.mp covered).resolve_left fun here => unmarked (all query here))
    · rw [find?_markAll] at held
      split at held
      · cases held
      · exact absent query held

theorem record (tallies : Tallies known (table :: tables) (top :: records)) (package : Package) :
    Tallies known (markAll table package.names :: tables) ((package :: top) :: records) := by
  have covered (name : String) : Covered [package] name ↔ name ∈ package.names := by
    simp [Covered, Package.mem_names]
  exact tallies.extend (fun name member => .inr ((covered name).mpr member)) fun name => (covered name).mp

/-- What a committed layer marks below is what was recorded in it. -/
theorem merge {below : List Package} (tallies : Tallies known (table :: next :: tables) (top :: below :: records)) :
    Tallies known (markAll next ((table.entries.filter (·.2)).map (·.1)) :: tables) ((top ++ below) :: records) := by
  cases tallies with
  | cons present recorded absent lower =>
    refine lower.extend (fun name member => ?_) fun name covered => ?_
    · simp only [List.mem_map, List.mem_filter] at member
      obtain ⟨⟨_, _⟩, ⟨listed, rfl⟩, rfl⟩ := member
      exact present _ listed
    · have listed := Assoc.mem_of_find? (recorded name covered)
      exact List.mem_map.mpr ⟨(name, true), List.mem_filter.mpr ⟨listed, rfl⟩, rfl⟩

theorem fork (tallies : Tallies known tables records) : Tallies known (.empty :: tables) ([] :: records) :=
  .cons (by simp [Assoc.empty]) (by simp [Covered]) (by simp) tallies

section Layers

variable {layers : Layers}

variable (tallies : Tallies known layers.tables records)
include tallies

theorem unrecorded (unknown : layers.knownPackage name = none) : ¬Covered records.flatten name := by
  intro covered
  rw [Layers.knownPackage_tables, (tallies.known_iff _).2.2 covered] at unknown
  cases unknown

variable (closed : ∀ name above, isBelow above name → known name = true → known above = true)
include closed

/-- What is not remembered is as it is behind the cache, also below a package that is known to be absent. -/
theorem presence_unknown (unknown : layers.knownPackage name = none) : layers.presence known name = known name := by
  rw [Layers.presence, unknown]
  dsimp only
  split
  · rename_i below
    obtain ⟨container, contained, held⟩ := Option.bind_eq_some_iff.mp below
    rw [Layers.knownPackage_tables] at held
    have missing := (tallies.known_iff container).2.1 held
    cases there : known name with
    | false => rfl
    | true =>
      rw [closed name container (isBelow_of_containerName contained) there] at missing
      cases missing
  · rfl

theorem presence_eq (name : String) :
    layers.presence known name = (known name || decide (Covered records.flatten name)) := by
  cases held : layers.knownPackage name with
  | none => simp [tallies.presence_unknown closed held, tallies.unrecorded held]
  | some value =>
    simp only [Layers.presence, held]
    rw [Layers.knownPackage_tables] at held
    obtain ⟨there, missing, covers⟩ := tallies.known_iff name
    cases value with
    | true => simpa using there held
    | false =>
      have unrecorded : ¬Covered records.flatten name := fun covered => by simp [covers covered] at held
      simp [missing held, unrecorded]

theorem ask (name : String) : Tallies known (layers.ask known name).tables records := by
  unfold Layers.ask
  split
  · exact tallies
  · rename_i unknown
    have unrecorded := tallies.unrecorded unknown
    obtain ⟨table, rest, held⟩ := layers.tables_cons
    rw [tallies.presence_unknown closed unknown, Layers.tables_setPackage held]
    rw [held] at tallies
    exact tallies.remember unrecorded

theorem install (arena : Arena) (name : String) (named : Named) :
    Tallies known (layers.install known arena name named).2.tables records := by
  cases named with
  | cls id =>
    rw [Layers.install]
    split
    · exact tallies.ask closed name
    · rw [Layers.tables_insert]
      exact tallies.ask closed name
  | package package => rwa [Layers.install, Layers.tables_insert]

end Layers

end Tallies

namespace Cache

/-- The packages recorded in each layer that is still there, the top layer first. -/
abbrev Records := List (List Package)

def Records.add : Records → Option Package → Records
  | top :: below, some package => (package :: top) :: below
  | records, _ => records

/-- What is recorded when the call succeeds. -/
def Op.record (layers : Layers) (arena : Arena) (records : Records) : Op → Records
  | addNamed name named => records.add (layers.implied arena name named)
  | addPackage package => records.add (some package)
  | fork => [] :: records
  | commit =>
    match records with
    | top :: next :: below => (top ++ next) :: below
    | _ => records
  | discard => records.tail
  | install .. | packageExists _ => records

/-- A call that fails records nothing. -/
def Op.enter (op : Op) (layers : Layers) (arena : Arena) (result : Except Error α) (records : Records) : Records :=
  if result.isOk then op.record layers arena records else records

/-- What is found behind the cache is added, unless it is cached by then. -/
def Records.found (records : Records) (layers : Layers) (arena : Arena) (name : String)
    (answer result : Except Error Named) : Records :=
  match answer with
  | .ok named =>
    if layers.check name = some named then records else (Op.addNamed name named).enter layers arena result records
  | .error _ => records

/-- What becomes of a cache and of the packages recorded in it, between one world and a later one. Behind the cache there
may be anything that has the known packages; while it looks for a name it may use the cache in turn. -/
inductive History (slot : Slot) (known : String → Bool) : World → Records → World → Records → Prop where
  | start (w : World) (records : Records) : History slot known w records w records
  | elsewhere {start w after : World} {opening records : Records} (earlier : History slot known start opening w records)
      (same : after.cache slot = w.cache slot) : History slot known start opening after records
  | op {start w after : World} {opening records : Records} {result : Except Error Reply}
      (earlier : History slot known start opening w records) (op : Op)
      (ran : (op.run slot known).on w = some (result, after)) :
      History slot known start opening after (op.enter (w.cache slot) w.arena result records)
  | recalled {start w after : World} {opening records : Records} {name : String} {entry : Entry} {backing : Backing}
      {rememberMisses : Bool} {result : Except Error Named} (earlier : History slot known start opening w records)
      (cached : (w.cache slot).lookup name = some entry)
      (ran : (find slot backing rememberMisses name).on w = some (result, after)) :
      History slot known start opening after records
  | asked {start w middle after : World} {opening records within : Records} {name : String} {backing : Backing}
      {rememberMisses : Bool} {answer result : Except Error Named} (earlier : History slot known start opening w records)
      (unknown : (w.cache slot).lookup name = none) (packages : backing.packageExists = fun name => return known name)
      (answered : (backing.find name).on w = some (answer, middle)) (inside : History slot known w records middle within)
      (ran : (find slot backing rememberMisses name).on w = some (result, after)) :
      History slot known start opening after (within.found (middle.cache slot) middle.arena name answer result)

variable {known : String → Bool} {records : Records} {layers : Layers} {arena : Arena}

theorem Op.enter_map (op : Op) (result : Except Error α) (f : α → β) :
    op.enter layers arena (result.map f) records = op.enter layers arena result records := by
  rw [enter, isOk_map, enter]

theorem Records.add_tallies (tallies : Tallies known layers.tables records) (package : Package) {after : Layers}
    (marked : ∀ {table rest}, layers.tables = table :: rest → after.tables = markAll table package.names :: rest) :
    Tallies known after.tables (records.add (some package)) := by
  obtain ⟨table, rest, held⟩ := layers.tables_cons
  rw [marked held]
  rw [held] at tallies
  cases tallies with
  | cons present recorded absent lower => exact (Tallies.cons present recorded absent lower).record package

section Closed

variable (closed : ∀ name above, isBelow above name → known name = true → known above = true)
include closed

theorem addNamed_tallies (arena : Arena) (tallies : Tallies known layers.tables records) (name : String) (named : Named) :
    Tallies known (layers.addNamed known arena name named).2.tables
      ((Op.addNamed name named).enter layers arena (layers.addNamed known arena name named).1 records) := by
  cases named with
  | cls id =>
    have nested := Layers.addNest_cases (P := fun layers => Tallies known layers.tables records) tallies
      (fun _ name id kept => kept.install closed arena name (.cls id)) name (arena.nest id)
    rw [Layers.addNamed, Op.enter, Op.record, Layers.implied]
    rcases nested with ⟨kept, nothing⟩ | ⟨package, middle, container, added, implied, kept⟩
    · split
      · rename_i succeeded
        rw [nothing succeeded]
        cases records <;> exact kept
      · exact kept
    · rw [added, implied]
      exact Records.add_tallies kept package fun held => Layers.tables_bring held package container
  | package package =>
    rw [← layers.tables_insert name (.package package)] at tallies
    exact Records.add_tallies tallies package fun held => Layers.tables_addPackage held package

theorem Op.act_tallies (arena : Arena) (tallies : Tallies known layers.tables records) (op : Op) :
    Tallies known (op.act known arena layers).2.tables
      (op.enter layers arena (op.act known arena layers).1 records) := by
  cases op with
  | install name named =>
    simp only [enter, record, ite_self]
    exact tallies.install closed arena name named
  | addNamed name named =>
    simp only [act, act.done, enter_map]
    exact addNamed_tallies closed arena tallies name named
  | addPackage package =>
    exact Records.add_tallies tallies package fun held => Layers.tables_addPackage held package
  | packageExists name => exact tallies.ask closed name
  | fork => exact tallies.fork
  | commit =>
    simp only [act, act.done, enter_map]
    cases discarded : layers.discard? with
    | none =>
      rw [Layers.commit?_eq_none discarded]
      exact tallies
    | some below =>
      obtain ⟨table, rest, held⟩ := below.tables_cons
      obtain ⟨after, committed, marked⟩ := Layers.tables_commit discarded held
      rw [Layers.tables_discard discarded, held] at tallies
      rw [committed]
      show Tallies known after.tables (commit.record layers arena records)
      rw [marked]
      cases tallies with
      | cons present recorded absent lower =>
        cases lower with
        | cons present' recorded' absent' lower' =>
          exact (Tallies.cons present recorded absent (.cons present' recorded' absent' lower')).merge
  | discard =>
    simp only [act, act.done, enter_map]
    cases discarded : layers.discard? with
    | none => exact tallies
    | some below =>
      rw [Layers.tables_discard discarded] at tallies
      cases tallies with
      | cons _ _ _ lower => exact lower

/-- The layers know what is recorded, from the first world to the last. -/
theorem History.tallies {start w : World} (history : History slot known start opening w records)
    (tallies : Tallies known (start.cache slot).tables opening) : Tallies known (w.cache slot).tables records := by
  induction history with
  | start => exact tallies
  | elsewhere earlier same ih =>
    rw [same]
    exact ih tallies
  | @op _ w after _ records result earlier op ran ih =>
    obtain ⟨rfl, left⟩ := (op.comesTo w).left ran
    rw [left]
    exact op.act_tallies closed w.arena (ih tallies)
  | @recalled _ w after _ records name entry backing rememberMisses result earlier cached ran ih =>
    rw [find, on_get_bind, cached] at ran
    cases entry <;> cases ran <;> exact ih tallies
  | @asked _ w middle after _ records within name backing rememberMisses answer result earlier unknown packages
      answered inside ran ih further =>
    have kept := further (ih tallies)
    have asked : (backing.find name).outcome.on w = some (.ok answer, middle) := on_outcome_of answered
    rw [find, on_get_bind, unknown] at ran
    rw [on_bind_ok asked] at ran
    cases answer with
    | error e =>
      dsimp only at ran
      split at ran <;> cases ran
      · rw [World.cache_insert, Layers.tables_insertMiss]
        exact kept
      · exact kept
    | ok named =>
      rw [on_get_bind] at ran
      by_cases cached : (middle.cache slot).check name = some named
      · rw [if_neg (by simp [cached])] at ran
        cases ran
        simpa only [Records.found, if_pos cached] using kept
      · rw [if_pos cached, packages] at ran
        obtain ⟨rfl, left⟩ := ((addNamed_comesTo name named middle).map _).left ran
        simp only [Records.found, if_neg cached, Op.enter_map, left]
        exact addNamed_tallies closed middle.arena kept name named

end Closed

end Cache

/-- Where the packages behind the cache lie only in packages, a fresh cache and all that is done to it has the packages
behind it and those recorded in a layer that was not discarded, with all packages around them. Whatever is asked before,
and in whatever order, changes no answer. -/
theorem package_answers_exact {slot : Slot} {known : String → Bool} {start w : World} {records : Cache.Records}
    (closed : ∀ name above, isBelow above name → known name = true → known above = true)
    (fresh : start.cache slot = {}) (history : Cache.History slot known start [[]] w records)
    (queries : List String) (name : String) :
    (do
      let _ ← queries.mapM (Cache.packageExists slot fun name => return known name)
      Cache.packageExists slot (fun name => return known name) name : Run Bool).answer? w =
      some (.ok (known name || decide (Covered records.flatten name))) := by
  induction queries generalizing w with
  | nil =>
    have first : Tallies known (start.cache slot).tables [[]] := by
      rw [fresh]
      exact Tallies.nil.fork
    rw [← (history.tallies closed first).presence_eq closed name]
    exact (Cache.packageExists_comesTo name w).answer
  | cons query rest ih =>
    have asked : (Cache.packageExists slot (fun name => return known name) query).ComesTo slot w _ :=
      Cache.packageExists_comesTo query w
    obtain ⟨middle, ran, -, -⟩ := asked
    have later := ih (history.op (.packageExists query) (on_bind_ok ran))
    rw [List.mapM_cons, bind_assoc, answer?, on_bind_ok ran]
    simp only [bind_assoc, pure_bind]
    exact later

/-- An absent package is asked for first. Then, in a fork, what stands behind the cache records it while it looks for
something else; another fork is discarded. -/
theorem package_answers_exact_forked :
    let known : String → Bool := (· == "p")
    let exists? := Cache.packageExists .session fun name => return known name
    let start := World.ofUniverse {} {}
    (∀ name above, isBelow above name → known name = true → known above = true) ∧ start.cache .session = {} ∧
    ∃ w, Cache.History .session known start [[]] w [[⟨"s.t"⟩, ⟨"q.r"⟩]] ∧
      ∀ query ∈ [("p", true), ("q", true), ("q.r", true), ("s", true), ("r", false), ("z", false), ("q.r.x", false)],
        (do
          let _ ← ["z", "q.r.x", "s"].mapM exists?
          exists? query.1 : Run Bool).answer? w = some (.ok query.2) := by
  intro known exists? start
  have closed : ∀ name above, isBelow above name → known name = true → known above = true := by
    intro name above below held
    rw [beq_iff_eq.mp held] at below
    exact absurd below (not_isBelow_short (by decide))
  let backing : Backing := {
    find := fun _ => do
      Run.modifyCache .session (·.addPackage ⟨"q.r"⟩)
      return .package ⟨"s.t"⟩
    packageExists := fun name => return known name }
  have opening : Cache.History .session known start [[]] _ [[]] := .start _ _
  have denied := opening.op (.packageExists "q") rfl
  have forked := denied.op .fork rfl
  have found := @Cache.History.asked .session known _ _ _ _ _ _ _ "x" backing true _ _ forked rfl rfl rfl
    ((Cache.History.start _ _).op (.addPackage ⟨"q.r"⟩) rfl) rfl
  have committed := found.op .commit rfl
  have discarded := ((committed.op .fork rfl).op (.addPackage ⟨"z"⟩) rfl).op .discard rfl
  have history : Cache.History .session known start [[]] _ [[⟨"s.t"⟩, ⟨"q.r"⟩]] := discarded
  refine ⟨closed, rfl, _, history, fun query member => ?_⟩
  rw [package_answers_exact closed rfl history]
  revert query
  decide

end ClassUniverse
