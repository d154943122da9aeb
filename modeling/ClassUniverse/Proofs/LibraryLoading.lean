import ClassUniverse.Proofs.LibraryTypes

/-! Loading the classes of a library. Each class is declared before anything it mentions is loaded, so the
levels that are left always suffice for what is still missing. -/
namespace ClassUniverse

open Run

theorem splitPackage_cases (name : String) :
    (∃ package short, splitPackage name = (some ⟨package⟩, short) ∧ name = qualify package short) ∨
      splitPackage name = (none, name) := by
  unfold splitPackage splitName
  cases cut : Text.splitLast '.' name.toList with
  | none => exact .inr rfl
  | some parts =>
    obtain ⟨whole, -⟩ := Text.eq_of_splitLast cut
    refine .inl ⟨String.ofList parts.1, String.ofList parts.2, rfl, ?_⟩
    rw [← String.toList_inj, toList_qualify, whole]
    simp

variable {config : Config} {path : ClassPath} {filed : List Filed} {w : World} {c : Filed} {l : Loader} {levels : Nat}

namespace Arena

variable {arena : Arena} {package : Option Package} {short : String}

theorem shows_topLevel (top : c.TopLevel) (named : splitPackage c.document.name = (package, short)) :
    (arena.add (c.document.shell .topLevel package short)).2.Shows c ⟨arena.size⟩ := by
  have added := arena.get_add_new (c.document.shell .topLevel package short)
  have full : (arena.add (c.document.shell .topLevel package short)).2.fullName ⟨arena.size⟩ = c.fullName := by
    rw [fullName_add_topLevel arena rfl, ← top.2]
    rcases splitPackage_cases c.document.name with ⟨above, last, cut, whole⟩ | cut
    · rw [cut] at named
      cases named
      exact whole.symm
    · rw [cut] at named
      cases named
      rfl
  refine ⟨by simp, full, by rw [added]; rfl, by rw [added]; rfl, fun _ => by rw [added]; rfl, ?_⟩
  intro name given
  rw [top.1] at given
  cases given

theorem shows_memberOf {around : Filed} (nested : arena.Nested) (shown : arena.Shows around outer)
    (given : c.document.outer = some around.document.name) (full : c.fullName = qualify around.fullName short) :
    (arena.add (c.document.shell (.memberOf outer) package short)).2.Shows c ⟨arena.size⟩ := by
  have added := arena.get_add_new (c.document.shell (.memberOf outer) package short)
  refine ⟨by simp, ?_, by rw [added]; rfl, by rw [added]; rfl, ?_, fun name outermost => ?_⟩
  · rw [fullName_add_memberOf nested rfl shown.inside, shown.fullName, full]
    rfl
  · intro alone
    rw [given] at alone
    cases alone
  · rw [given] at outermost
    cases outermost
    refine ⟨outer, by rw [added]; rfl, ?_⟩
    rw [get_add, if_neg (Nat.ne_of_lt shown.inside), shown.fileName]

end Arena

/-- The class is loaded, with all that its document mentions. -/
structure World.Brings (config : Config) (path : ClassPath) (filed : List Filed) (c : Filed) (w : World) (id : ClassId)
    (after : World) : Prop where
  serving : after.Serving config path filed
  loaded : w.Loaded filed after
  found : after.system.check c.document.name = some (.cls id)

theorem World.Brings.after {middle after : World} {id : ClassId} (brings : middle.Brings config path filed c id after)
    (loaded : w.Loaded filed middle) : w.Brings config path filed c id after :=
  ⟨brings.serving, WorldOrder.trans loaded brings.loaded, brings.found⟩

/-- A class of the library that is not loaded yet, and levels enough to load it. -/
structure World.Lacks (config : Config) (path : ClassPath) (filed : List Filed) (levels : Nat) (c : Filed) (w : World) :
    Prop where
  serving : w.Serving config path filed
  listed : c ∈ filed
  free : w.system.check c.document.name = none
  enough : missing filed w * reach filed + c.document.name.length < levels

section Documents

variable (library : Library config.version path filed) (serves : l.Serves config path filed levels)
include library serves

variable (lacks : w.Lacks config path filed levels c)
include lacks

theorem declared_yields (houses : w.Houses path c kind package short) : (do
      let id ← c.document.declare kind package short
      c.document.populate l id
      return id : Run ClassId).Yields w (w.Brings config path filed c) := by
  refine (declare_yields library lacks.serving lacks.listed lacks.free houses).bind
    fun id declared ⟨same, declares, grown, arena, found⟩ => ?_
  subst same
  -- One class fewer is missing now.
  have fewer := missing_lt grown lacks.listed lacks.free (by rw [found]; rfl)
  have ready : declared.Ready config path filed (missing filed w - 1) := ⟨declares, by omega⟩
  have affordable : (missing filed w - 1 + 1) * reach filed < levels := by
    rw [Nat.sub_add_cancel (by omega)]
    exact Nat.lt_of_le_of_lt (Nat.le_add_right ..) lacks.enough
  refine (populate_ready library serves affordable lacks.listed (arena ▸ houses.shows_) ready).bind
    fun _ after ⟨middle, between, loaded, fill, header, same, filled⟩ => yields_pure ?_
  subst same
  have kept : middle.arena.Keeps (middle.arena.modify ⟨w.arena.size⟩ fill) := .modify (header _)
  have last := between.nested.keeps kept (Arena.size_modify _ _ _)
  have first : declared.arena.size = w.arena.size + 1 := by rw [arena, Arena.size_add]
  have whole := WorldOrder.trans grown loaded.toExtends
  have others (id : ClassId) (apart : id ≠ ⟨w.arena.size⟩) :
      (middle.arena.modify ⟨w.arena.size⟩ fill).get id = middle.arena.get id := Arena.get_modify_other _ apart fill
  refine ⟨⟨between.toShelved.withArena kept last, between.agreed⟩, ⟨⟨?_, ?_, whole.checked, whole.below⟩, fun _ => last, ?_⟩,
    loaded.checked _ _ found⟩
  · exact Nat.le_trans whole.size kept.size
  · intro id inside
    have apart : id ≠ ⟨w.arena.size⟩ := fun same => by simp [same] at inside
    exact (others id apart).trans (whole.records id inside)
  · intro _ id outside inside
    by_cases same : id = ⟨w.arena.size⟩
    · exact ⟨c, lacks.listed, same ▸ filled⟩
    · have beyond : declared.arena.size ≤ id.index := by
        have apart : id.index ≠ w.arena.size := fun equal => same (by rw [← equal])
        omega
      have present : id.index < middle.arena.size := by simpa using inside
      obtain ⟨other, member, whole⟩ := loaded.filled declares.nested id beyond present
      exact ⟨other, member, whole.later between.nested kept (others id same)⟩

theorem load_topLevel (top : c.TopLevel) : (c.document.load l).Yields w (w.Brings config path filed c) := by
  unfold Metadata.load
  rw [top.1]
  generalize named : splitPackage c.document.name = parts
  obtain ⟨package, short⟩ := parts
  refine declared_yields library serves lacks
    ⟨lacks.serving.nested.add nofun, Arena.shows_topLevel top named, fun p _ lies => ?_, nofun⟩
  rcases splitPackage_cases c.document.name with ⟨above, last, cut, whole⟩ | cut
  · rw [cut] at named
    cases named
    cases lies
    refine ClassPath.packageExists_iff.mpr ⟨c.document.name, library.present c lacks.listed, ?_⟩
    rw [whole]
    exact isBelow_qualify above short
  · rw [cut] at named
    cases named
    cases lies

/-- The class around it may have been loaded before; it may also have brought this class along. -/
theorem load_memberOf (outermost : around ∈ filed)
    (member : c.MemberOf around) : (c.document.load l).Yields w (w.Brings config path filed c) := by
  obtain ⟨given, short, simple, binary, full⟩ := member
  obtain ⟨serving, listed, -, enough⟩ := lacks
  have shorter : around.document.name.length < c.document.name.length := by
    rw [binary]
    simp only [String.length_append]
    have dollar : "$".length = 1 := rfl
    omega
  have affordable : cost filed w around < levels := by
    unfold cost
    split <;> omega
  unfold Metadata.load
  rw [given]
  have outer : (l.classForName around.document.name).Yields w fun id after => after.Serving config path filed ∧
      w.Loaded filed after ∧ after.system.check around.document.name = some (.cls id) := by
    have found := serves around outermost around.document.name (.inr rfl) w serving affordable
    refine found.outcome.bind fun result after ⟨named, same, serving, loaded, id, cls, hit⟩ => ?_
    subst same cls
    exact yields_pure ⟨serving, loaded, hit⟩
  refine outer.bind fun outer middle ⟨served, loaded, hit⟩ => ?_
  apply yields_step rfl
  have shown := served.shows_of_check library outermost (.inr rfl) hit
  cases known : middle.system.check c.document.name with
  | some named =>
    obtain ⟨entry, held, same⟩ := Option.bind_eq_some_iff.mp known
    obtain ⟨id, rfl, -⟩ := served.lookup_answers library listed (.inr rfl) held
    cases same
    exact yields_pure ⟨served, loaded, known⟩
  | none =>
    rw [binary, memberSuffix?_append, ← binary]
    apply yields_step rfl
    have fewer : missing filed middle ≤ missing filed w := missing_mono loaded.toExtends
    have few := Nat.mul_le_mul_right (reach filed) fewer
    refine (declared_yields library serves ⟨served, listed, known, by omega⟩ ⟨served.nested.add ?_,
      Arena.shows_memberOf served.nested shown given full, nofun, ?_⟩).mono fun id after brings => brings.after loaded
    · intro other same
      cases same
      exact shown.inside
    · intro other container _ contained
      rw [full, containerName?, splitName_qualify simple] at contained
      cases contained
      rw [← served.agreed around outermost, hit]
      rfl

theorem load_yields : (c.document.load l).Yields w (w.Brings config path filed c) := by
  rcases library.nested c lacks.listed with top | ⟨around, outermost, member⟩
  · exact load_topLevel library serves lacks top
  · exact load_memberOf library serves lacks outermost member

theorem decode_yields : (l.decode c.document.render c.document.name).Yields w (w.Brings config path filed c) := by
  unfold Loader.decode
  rw [Metadata.parse?_render]
  dsimp only
  rw [if_pos rfl]
  exact load_yields library serves lacks

end Documents

/-! ## Class files -/

theorem World.Lacks.forked (lacks : w.Lacks config path filed levels c) :
    Lacks config path filed levels c { w with caches := w.caches.insert .session w.system.fork } := by
  have serving := lacks.serving
  refine ⟨⟨serving.toShelved.recached rfl (system_insert ..) ⟨serving.layers.fork, ?_⟩, ?_⟩, lacks.listed, ?_, ?_⟩
  · simpa using serving.entries
  · simpa using serving.agreed
  · simpa using lacks.free
  · simpa [missing] using lacks.enough

/-- Committing what was loaded into a fork. -/
theorem World.Brings.commit {after : World} {id : ClassId} (brings : Brings config path filed c
      { w with caches := w.caches.insert .session w.system.fork } id after) :
    (Cache.commit .session).Yields after fun _ last => w.Brings config path filed c id last := by
  have below := brings.loaded.below
  obtain ⟨layers, committed, sound, same, answers⟩ := below.committed brings.serving.layers
  have checks (name : String) : layers.check name = after.system.check name := by rw [Layers.check, answers, Layers.check]
  apply yields_get
  have here : (after.cache .session).commit? = some layers := committed
  rw [here]
  refine yields_modify ⟨⟨brings.serving.toShelved.recached rfl (system_insert ..) ⟨sound, ?_⟩, ?_⟩, ?_, ?_⟩
  · simpa [answers] using brings.serving.entries
  · simpa [checks] using brings.serving.agreed
  · have loaded := brings.loaded
    refine ⟨⟨loaded.size, loaded.records, ?_, ?_⟩, loaded.nested, loaded.filled⟩
    · intro name named hit
      rw [system_insert, checks]
      exact loaded.checked name named (by simpa using hit)
    · rwa [system_insert]
  · rw [system_insert, checks]
    exact brings.found

section Files

variable (library : Library config.version path filed) (serves : l.Serves config path filed levels) {file : ClassFile}
  {name : String}
include library serves

section Held

variable (holds : file.Holds config.version c.document) (lacks : w.Lacks config path filed levels c)
include holds lacks

theorem encodedClass_yields (name : String) : (l.encodedClass file name).Yields w (w.Brings config path filed c) := by
  apply yields_get
  rw [lacks.serving.configured]
  rw [if_neg holds.compatible, holds.metadata, holds.name]
  have forked : (Cache.fork .session).on w =
      some (.ok (), { w with caches := w.caches.insert .session w.system.fork }) := rfl
  refine yields_step forked ?_
  refine (decode_yields library serves lacks.forked).outcome.bind fun result after outcome => ?_
  obtain ⟨id, rfl, brings⟩ := outcome
  exact brings.commit.bind fun _ last brings => yields_pure brings

theorem classInFile_yields (name : String) : (l.classInFile name file).Yields w (w.Brings config path filed c) := by
  apply yields_get
  rw [lacks.serving.configured]
  dsimp only
  rw [holds.metadata, if_neg (by simp)]
  refine (encodedClass_yields library serves holds lacks name).outcome.bind fun result after ⟨id, same, brings⟩ => ?_
  subst same
  exact yields_pure brings

end Held

/-- Neither the table nor the sources know the name, so the class path is asked. -/
theorem session_yields (answers : c.Answers name) (lacks : w.Lacks config path filed levels c) :
    (Resolver.session.find l name).Yields w fun named after => ∃ id, named = .cls id ∧
      w.Brings config path filed c id after := by
  obtain ⟨file, stored, holds⟩ := library.stored c lacks.listed name answers
  have empty : w.table .session = .empty := by simp [World.table, lacks.serving.tables, Assoc.getD]
  have absent : ((Resolver.table .session).find l name).on w = some (.error (.notFound name), w) := by
    unfold Resolver.find
    rw [on_get_bind, empty, Assoc.find?_empty]
    rfl
  have sourced : (l.findSourced name).Yields w fun named after => ∃ id, named = .cls id ∧
      w.Brings config path filed c id after := by
    apply yields_get
    rw [lacks.serving.sources]
    apply yields_get
    rw [lacks.serving.stocked, stored]
    refine (classInFile_yields library serves holds lacks name).bind fun id after brings => ?_
    exact yields_pure ⟨id, rfl, brings⟩
  have known : (Error.notFound name).isNotFoundFor name = true := by simp [Error.isNotFoundFor]
  refine yields_step (on_outcome_of absent) ?_
  dsimp only
  rw [if_pos known]
  refine sourced.outcome.bind fun result after outcome => ?_
  obtain ⟨named, rfl, found⟩ := outcome
  exact yields_pure found

theorem system_yields (listed : c ∈ filed) (answers : c.Answers name)
    (serving : w.Serving config path filed) (enough : cost filed w c ≤ levels) :
    ((Resolver.system config).find l name).Yields w fun named after => after.Serving config path filed ∧
      w.Loaded filed after ∧ ∃ id, named = .cls id ∧ after.system.check name = some (.cls id) := by
  have both {w : World} (serving : w.Serving config path filed) :
      w.system.check name = w.system.check c.document.name := by
    rcases answers with rfl | rfl
    · exact (serving.agreed c listed).symm
    · rfl
  apply yields_get
  have here : w.cache .session = w.system := rfl
  rw [here]
  cases held : w.system.lookup name with
  | some entry =>
    obtain ⟨id, rfl, shown⟩ := serving.lookup_answers library listed answers held
    exact yields_pure ⟨serving, WorldOrder.refl w, id, rfl, by simp [Layers.check, held, Entry.named?]⟩
  | none =>
    have free : w.system.check c.document.name = none := by rw [← both serving, Layers.check, held]; rfl
    have afforded : missing filed w * reach filed + c.document.name.length < levels := by
      rw [cost, free, if_neg (by simp)] at enough
      omega
    have loaded := session_yields library serves answers ⟨serving, listed, free, afforded⟩
    refine loaded.outcome.bind fun result after outcome => ?_
    obtain ⟨named, rfl, id, rfl, brings⟩ := outcome
    have hit : after.system.check name = some (.cls id) := (both brings.serving).trans brings.found
    apply yields_get
    have there : (after.cache .session).check name = some (.cls id) := hit
    rw [there, if_neg (by simp)]
    exact yields_pure ⟨brings.serving, brings.loaded, id, rfl, hit⟩

end Files

/-- A loader serves the library up to its own depth. -/
theorem Loader.ofDepth_serves (library : Library config.version path filed) (depth : Nat) :
    (ofDepth depth).Serves config path filed depth := by
  induction depth with
  | zero => exact fun c listed name answers w serving enough => absurd enough (Nat.not_lt_zero _)
  | succ depth serves =>
    intro c listed name answers w serving enough
    apply yields_get
    rw [serving.configured]
    exact system_yields library serves listed answers serving (by omega)

end ClassUniverse
