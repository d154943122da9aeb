import ClassUniverse.Proofs.Shelving

/-! Reading the documents of a library. Whatever a document mentions is loaded on the way; what has been read
keeps its name, so that in the end the class is all that its document says. -/
namespace ClassUniverse

open Run

variable {name : String} {id : ClassId}

/-! ## How much is still to be loaded -/

/-- Classes that are not loaded yet. -/
def missing (filed : List Filed) (w : World) : Nat :=
  filed.countP fun c => (w.system.check c.document.name).isNone

/-- More than any binary name is long. -/
def reach (filed : List Filed) : Nat := (filed.flatMap fun c => c.document.name.toList).length + 1

/-- Levels of loading that a class may need: its outer classes one after the other, then all the rest. -/
def cost (filed : List Filed) (w : World) (c : Filed) : Nat :=
  if (w.system.check c.document.name).isSome then 0 else missing filed w * reach filed + c.document.name.length + 1

variable {config : Config} {path : ClassPath} {filed : List Filed} {w after : World} {c : Filed}

theorem length_lt_reach (listed : c ∈ filed) : c.document.name.length < reach filed := by
  obtain ⟨before, rest, rfl⟩ := List.append_of_mem listed
  simp only [reach, List.flatMap_append, List.flatMap_cons, List.length_append, String.length_toList]
  omega

theorem missing_mono (grown : w.Extends after) : missing filed after ≤ missing filed w := by
  apply List.countP_mono_left
  intro c _ absent
  cases hit : w.system.check c.document.name with
  | none => rfl
  | some named =>
    rw [grown.checked _ named hit] at absent
    cases absent

theorem missing_lt (grown : w.Extends after) (listed : c ∈ filed) (free : w.system.check c.document.name = none)
    (found : (after.system.check c.document.name).isSome) : missing filed after < missing filed w := by
  obtain ⟨before, rest, rfl⟩ := List.append_of_mem listed
  obtain ⟨named, hit⟩ := Option.isSome_iff_exists.mp found
  have first : missing before after ≤ missing before w := missing_mono grown
  have last : missing rest after ≤ missing rest w := missing_mono grown
  simp only [missing, List.countP_append, List.countP_cons, free, hit, Option.isNone_none, Option.isNone_some,
    if_true, Bool.false_eq_true, if_false] at first last ⊢
  omega

theorem cost_le (listed : c ∈ filed) : cost filed w c ≤ (missing filed w + 1) * reach filed := by
  have short := length_lt_reach listed
  unfold cost
  split
  · omega
  · rw [Nat.add_mul]
    omega

/-- A loader that finds the classes of the library, as long as that takes fewer levels than it has. -/
def Loader.Serves (l : Loader) (config : Config) (path : ClassPath) (filed : List Filed) (levels : Nat) : Prop :=
  ∀ c ∈ filed, ∀ name, c.Answers name → ∀ w : World, w.Serving config path filed → cost filed w c < levels →
    (l.find name).Yields w fun named after => after.Serving config path filed ∧ w.Loaded filed after ∧
      ∃ id, named = .cls id ∧ after.system.check name = some (.cls id)

/-- At most `k` classes are still to be loaded. -/
structure World.Ready (config : Config) (path : ClassPath) (filed : List Filed) (k : Nat) (w : World) : Prop extends
    w.Serving config path filed where
  few : missing filed w ≤ k

section Reading

variable {l : Loader} {levels k : Nat}

section Names

variable (serves : l.Serves config path filed levels) (enough : (k + 1) * reach filed < levels) (listed : c ∈ filed)
  (answers : c.Answers name) (ready : w.Ready config path filed k)
include serves enough listed answers ready

theorem find_ready : (l.find name).Yields w fun named after => after.Ready config path filed k ∧ w.Loaded filed after ∧
      ∃ id, named = .cls id ∧ after.system.check name = some (.cls id) := by
  have affordable : cost filed w c < levels := by
    have most := cost_le (w := w) listed
    have few := Nat.mul_le_mul_right (reach filed) (Nat.succ_le_succ ready.few)
    simp only [Nat.succ_eq_add_one] at few
    omega
  refine (serves c listed name answers w ready.toServing affordable).mono fun named after ⟨serving, loaded, found⟩ => ?_
  exact ⟨⟨serving, Nat.le_trans (missing_mono loaded.toExtends) ready.few⟩, loaded, found⟩

theorem classForName_ready :
    (l.classForName name).Yields w fun id after => after.Ready config path filed k ∧ w.Loaded filed after ∧
      after.system.check name = some (.cls id) := by
  refine (find_ready serves enough listed answers ready).outcome.bind
    fun result after ⟨named, same, ready, loaded, id, cls, hit⟩ => ?_
  subst same cls
  exact yields_pure ⟨ready, loaded, hit⟩

end Names

/-- What was read is written as the text that it was read from, now and later on. -/
def Arena.Reads (arena : Arena) (write : Arena → β → α) (text : α) (value : β) : Prop :=
  ∀ next, arena.Keeps next → write next value = text

theorem Arena.Reads.all {arena next : Arena} {items : List α} {values : List β}
    (reads : List.Forall₂ (fun a b => arena.Reads write (text a) b) items values) (kept : arena.Keeps next) :
    values.map (write next) = items.map text := by
  induction reads with
  | nil => rfl
  | cons first _ ih => rw [List.map_cons, List.map_cons, first next kept, ih]

/-- Something is read, and on the way classes of the library are loaded. -/
def Run.Restores (x : Run β) (config : Config) (path : ClassPath) (filed : List Filed) (k : Nat) (w : World)
    (write : Arena → β → α) (text : α) : Prop :=
  x.Yields w fun value after =>
    after.Ready config path filed k ∧ w.Loaded filed after ∧ after.arena.Reads write text value

theorem restores_mapM {f : α → Run β} (items : List α)
    (step : ∀ a ∈ items, ∀ w : World, w.Ready config path filed k → (f a).Restores config path filed k w write (text a))
    (ready : w.Ready config path filed k) :
    (items.mapM f).Restores config path filed k w (fun next => List.map (write next)) (items.map text) := by
  have all := yields_mapM (R := fun a b w => w.arena.Reads write (text a) b) items step
    (fun _ _ {_ _} _ loaded reads next kept => reads next (loaded.keeps.trans kept)) ready
  exact all.mono fun values after ⟨ready, loaded, reads⟩ => ⟨ready, loaded, fun next kept => Arena.Reads.all reads kept⟩

theorem restores_mapM_option {f : α → Run β} (item : Option α)
    (step : ∀ a, item = some a → (f a).Restores config path filed k w write a) (ready : w.Ready config path filed k) :
    (item.mapM f).Restores config path filed k w (fun next => Option.map (write next)) item := by
  cases item with
  | none => exact yields_pure ⟨ready, WorldOrder.refl w, fun _ _ => rfl⟩
  | some a =>
    refine ((step a rfl).mono fun value after ⟨ready, loaded, reads⟩ => ?_).map
    exact ⟨ready, loaded, fun next kept => congrArg some (reads next kept)⟩

/-- A class whose header is as filed and whose contents are filled in from its document. -/
theorem Arena.Shows.filled {arena : Arena} (shows_ : arena.Shows c id)
    (nested : arena.Nested) (header : ∀ r, (fill r).header = r.header) (described : ∀ r, (fill r).Described)
    (describes : ∀ r next, arena.Keeps next → next.Describes c.document (fill r)) :
    (arena.modify id fill).Filled c id := by
  have kept : arena.Keeps (arena.modify id fill) := .modify (header _)
  have stored := arena.get_modify_self shows_.inside fill
  refine ⟨shows_.later nested kept, ?_, ?_⟩
  · rw [stored]
    exact described _
  · rw [stored]
    exact fun next further => describes _ next (kept.trans further)

section Members

variable (library : Library config.version path filed) (serves : l.Serves config path filed levels)
  (enough : (k + 1) * reach filed < levels)
include library serves enough

theorem typeForName_ready (readable : Readable filed written) (ready : w.Ready config path filed k) :
    (l.typeForName written).Restores config path filed k w Arena.typeName written := by
  have read {base : Ty} {after : World} {name : String} (dims : Nat) (named : after.arena.Reads Arena.typeName name base) :
      after.arena.Reads Arena.typeName (String.ofList (Text.bracketed name.toList dims)) (.arrayOf base dims) :=
    fun next kept => by rw [Arena.typeName_arrayOf, named next kept]
  unfold Loader.typeForName
  cases readable with
  | null dims =>
    simp only [splitDims_bracketed plainName_null, if_true]
    exact yields_pure ⟨ready, WorldOrder.refl w, read dims fun _ _ => rfl⟩
  | primitive kind dims =>
    have other : kind.name ≠ "null" := by cases kind <;> decide
    simp only [splitDims_bracketed kind.plainName, other, if_false, kind.ofName?_name]
    exact yields_pure ⟨ready, WorldOrder.refl w, read dims fun _ _ => rfl⟩
  | @cls c listed plain other keyword dims =>
    simp only [splitDims_bracketed plain, other, if_false, keyword]
    refine (classForName_ready serves enough listed (.inl rfl) ready).bind fun id after ⟨ready, loaded, hit⟩ => ?_
    have shows_ := ready.shows_of_check library listed (.inl rfl) hit
    exact yields_pure ⟨ready, loaded,
      read dims fun next kept => (kept.fullName ready.nested shows_.inside).trans shows_.fullName⟩

theorem types_ready {texts : List String} (readable : ∀ written ∈ texts, Readable filed written)
    (ready : w.Ready config path filed k) :
    (Metadata.types l texts).Restores config path filed k w Arena.typeNames texts := by
  have all := restores_mapM texts
    (fun _ member _ ready => typeForName_ready library serves enough (readable _ member) ready) ready
  rwa [List.map_id'] at all

theorem field_ready {d : FieldDecl} (readable : Readable filed d.type) (container : Ty)
    (ready : w.Ready config path filed k) :
    (Metadata.field l container d).Restores config path filed k w Arena.encodeField d := by
  refine (typeForName_ready library serves enough readable ready).bind fun type after ⟨ready, loaded, reads⟩ => ?_
  exact yields_pure ⟨ready, loaded, fun next kept => by simp [Arena.encodeField, reads next kept]⟩

theorem method_ready {d : MethodDecl} (readable : ∀ written ∈ d.returns :: (d.params ++ d.throws), Readable filed written)
    (container : Ty) (ready : w.Ready config path filed k) :
    (Metadata.method l container d).Restores config path filed k w Arena.encodeMethod d := by
  simp only [List.mem_cons, forall_eq_or_imp, List.mem_append] at readable
  refine (typeForName_ready library serves enough readable.1 ready).bind fun returns one ⟨ready, first, result⟩ => ?_
  refine (types_ready library serves enough (fun written member => readable.2 written (.inl member)) ready).bind
    fun formals two ⟨between, second, params⟩ => ?_
  refine (types_ready library serves enough (fun written member => readable.2 written (.inr member)) between).bind
    fun throws three ⟨last, third, thrown⟩ => ?_
  refine yields_pure ⟨last, WorldOrder.trans first (WorldOrder.trans second third), fun next kept => ?_⟩
  have later := third.keeps.trans kept
  simp [Arena.encodeMethod, result next (second.keeps.trans later), params next later, thrown next kept]

theorem constructor_ready {d : ConstructorDecl} (readable : ∀ written ∈ d.params ++ d.throws, Readable filed written)
    (container : Ty) (name : String) (ready : w.Ready config path filed k) :
    (Metadata.constructor l container name d).Restores config path filed k w Arena.encodeConstructor d := by
  simp only [List.mem_append] at readable
  refine (types_ready library serves enough (fun written member => readable written (.inl member)) ready).bind
    fun formals one ⟨between, first, params⟩ => ?_
  refine (types_ready library serves enough (fun written member => readable written (.inr member)) between).bind
    fun throws two ⟨last, second, thrown⟩ => ?_
  refine yields_pure ⟨last, WorldOrder.trans first second, fun next kept => ?_⟩
  simp [Arena.encodeConstructor, params next (second.keeps.trans kept), thrown next kept]

theorem memberClass_ready (listed : ∃ member ∈ filed, name = member.document.name)
    (ready : w.Ready config path filed k) :
    (l.classForName name).Restores config path filed k w Arena.binaryName? (some name) := by
  obtain ⟨member, listed, rfl⟩ := listed
  refine (classForName_ready serves enough listed (.inr rfl) ready).mono fun id after ⟨ready, loaded, hit⟩ => ?_
  have shows_ := ready.shows_of_check library listed (.inr rfl) hit
  refine ⟨ready, loaded, fun next kept => Arena.binaryName?_of_fileName ?_⟩
  rw [kept.fileName shows_.inside, shows_.fileName]

/-- Everything that the document mentions is read, then the record filled in at once. -/
theorem populate_ready (listed : c ∈ filed) (shows_ : w.arena.Shows c id) (ready : w.Ready config path filed k) :
    (c.document.populate l id).Yields w fun _ after => ∃ middle, middle.Ready config path filed k ∧
      w.Loaded filed middle ∧ ∃ fill : ClassRecord → ClassRecord, (∀ r, (fill r).header = r.header) ∧
        after = { middle with arena := middle.arena.modify id fill } ∧ after.arena.Filled c id := by
  have mentions := library.mentions c listed
  simp only [Metadata.mentions, List.mem_append, List.mem_map, List.mem_flatMap, Option.mem_toList] at mentions
  have supers := restores_mapM_option c.document.superType
    (fun text given => typeForName_ready library serves enough (mentions text (by simp [given])) ready) ready
  refine supers.bind fun superType one ⟨ready₁, loaded₁, superType_⟩ => ?_
  have implemented := types_ready library serves enough
    (fun text (member : text ∈ c.document.interfaces) => mentions text (by simp [member])) ready₁
  refine implemented.bind fun interfaces two ⟨ready₂, loaded₂, interfaces_⟩ => ?_
  have stored := restores_mapM c.document.fields
    (fun d member _ ready => field_ready library serves enough
      (mentions d.type (.inl (.inl (.inr ⟨d, member, rfl⟩)))) (.cls id) ready) ready₂
  refine stored.bind fun fields three ⟨ready₃, loaded₃, fields_⟩ => ?_
  have declared := restores_mapM c.document.methods (fun d member _ ready =>
    method_ready library serves enough (fun text used => mentions text (.inl (.inr ⟨d, member, used⟩))) (.cls id) ready) ready₃
  refine declared.bind fun methods four ⟨ready₄, loaded₄, methods_⟩ => ?_
  apply yields_step rfl
  have built := restores_mapM c.document.constructors (fun d member _ ready => constructor_ready library serves enough
    (fun text used => mentions text (.inr ⟨d, member, List.mem_append.mp used⟩)) (.cls id) (four.arena.get id).name ready) ready₄
  refine built.bind fun constructors five ⟨ready₅, loaded₅, constructors_⟩ => ?_
  have nestedClasses := restores_mapM c.document.memberClasses (fun name member _ ready =>
    memberClass_ready library serves enough (library.members c listed name member) ready) ready₅
  refine nestedClasses.bind fun members middle ⟨ready₆, loaded₆, members_⟩ => ?_
  have from₄ : four.Loaded filed middle := WorldOrder.trans loaded₅ loaded₆
  have from₃ : three.Loaded filed middle := WorldOrder.trans loaded₄ from₄
  have from₂ : two.Loaded filed middle := WorldOrder.trans loaded₃ from₃
  have from₁ : one.Loaded filed middle := WorldOrder.trans loaded₂ from₂
  have loaded : w.Loaded filed middle := WorldOrder.trans loaded₁ from₁
  refine yields_modify ⟨middle, ready₆, loaded, _, ?_, rfl, ?_⟩
  · exact fun _ => rfl
  refine (shows_.later ready.nested loaded.keeps).filled ready₆.nested (fun _ => rfl) (fun r => ?_) fun r next kept => ?_
  · simp [ClassRecord.Described, ClassRecord.markStages, ClassRecord.markStage, Stages.add]
  · have inner : members.filterMap next.binaryName? = c.document.memberClasses := by
      simpa [List.filterMap_map] using congrArg (List.filterMap fun name => name) (members_ next kept)
    exact {
      superType := superType_ next (from₁.keeps.trans kept)
      interfaces := interfaces_ next (from₂.keeps.trans kept)
      fields := (fields_ next (from₃.keeps.trans kept)).trans (List.map_id' _)
      methods := (methods_ next (from₄.keeps.trans kept)).trans (List.map_id' _)
      constructors := (constructors_ next (loaded₆.keeps.trans kept)).trans (List.map_id' _)
      members := inner }

end Members

end Reading

end ClassUniverse
