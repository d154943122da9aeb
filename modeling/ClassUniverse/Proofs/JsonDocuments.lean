import ClassUniverse.Config
import ClassUniverse.Proofs.MetadataText
import ClassUniverse.Universe
import Mathlib.Data.List.Forall2
import Mathlib.Data.List.Nodup
import Mathlib.Data.Set.List

/-! Documents are read back as they were written. Only the order of the metadata in a class file may differ, since
that is a map, and flags are written in the order of the vocabulary, each once. -/
namespace ClassUniverse

variable {read : Json → Option α} {json : Json}
  {items : List α}

theorem mapM_eq_some_iff {read : α → Option β} :
    items.mapM read = some values ↔ List.Forall₂ (fun item value => read item = some value) items values := by
  induction items generalizing values with
  | nil => cases values <;> simp
  | cons item items ih =>
    cases values with
    | nil => simp [List.mapM_cons, Option.bind_eq_some_iff]
    | cons value values => simp [List.mapM_cons, Option.bind_eq_some_iff, ih]

/-- Where only what is written is ever read, lists of it are no different. -/
theorem eq_map_of_mapM {read : α → Option β} {write : β → α}
    (only : ∀ item value, read item = some value → item = write value) (all : items.mapM read = some values) :
    items = values.map write := by
  have equal := (mapM_eq_some_iff.mp all).imp only
  exact List.forall₂_eq_eq_eq ▸ List.forall₂_map_right_iff.mpr equal

namespace Json

@[simp] theorem uint16?_nat (n : UInt16) : uint16? (nat n.toNat) = some n := by
  simp [uint16?, nat, natBelow?, n.toNat_lt_size]

@[simp] theorem uint32?_nat (n : UInt32) : uint32? (nat n.toNat) = some n := by
  simp [uint32?, nat, natBelow?, n.toNat_lt_size]

@[simp] theorem uint64?_nat (n : UInt64) : uint64? (nat n.toNat) = some n := by
  simp [uint64?, nat, natBelow?, n.toNat_lt_size]

@[simp] theorem bool?_bool (value : Bool) : bool? (bool value) = some value := rfl

theorem depth_le_of_mem (key : String)
    (member : (key, value) ∈ members) : value.depth ≤ depthOfMembers members := by
  induction members with
  | nil => cases member
  | cons first rest ih =>
    rcases List.mem_cons.mp member with rfl | later
    · exact Nat.le_max_left _ _
    · exact Nat.le_trans (ih later) (Nat.le_max_right _ _)

theorem stringMap?_object (entries : List (String × String)) :
    stringMap? (.object (entries.map fun (key, text) => (key, .string text))) = some entries :=
  mapM_eq_some_iff.mpr (List.forall₂_map_left_iff.mpr (List.forall₂_same.mpr fun _ _ => rfl))

theorem eq_strings_of_strings? (read : json.strings? = some texts) : json = .strings texts := by
  have only (item : Json) (text : String) (read : item.string? = some text) : item = .string text := by
    cases item <;> simp_all [string?]
  cases json with
  | array items => exact congrArg array (eq_map_of_mapM only read)
  | _ => cases read

theorem Fields.exists_of_mem_list {fields : Fields} {values : List α}
    (all : fields.list key read = some values) (member : value ∈ values) : ∃ item, read item = some value := by
  unfold Fields.list Fields.withDefault at all
  split at all
  · cases all
    cases member
  · rename_i json _
    cases json with
    | array items =>
      have each := (mapM_eq_some_iff.mp all).flip
      have sources := each.imp fun _ item same => And.intro (Exists.intro item same) same
      exact ((List.forall₂_and_left _ _).mp sources).1 value member
    | _ => cases all

end Json

/-! ## Flags -/

namespace Flag

def vocabulary : List String := all.map word

theorem word_injective : Function.Injective word := by
  intro a b same
  cases a <;> cases b <;> first | rfl | exact absurd same (by decide)

theorem word_of_ofWord? (text : String) (flag : Flag) (read : ofWord? text = some flag) : text = flag.word := by
  have found := List.find?_some read
  exact (beq_iff_eq.mp found).symm

end Flag

namespace Flags

theorem toJson_ofList (flags : List Flag) :
    (ofList flags).toJson = .strings (Flag.vocabulary.filter ((flags.map Flag.word).contains ·)) := by
  have same (flag : Flag) : (flags.map Flag.word).contains flag.word = flags.contains flag := by
    rw [Bool.eq_iff_iff, List.contains_iff_mem, List.contains_iff_mem, List.mem_map_of_injective Flag.word_injective]
  simp only [toJson, words, toList, ofList, Flag.vocabulary, List.filter_map, Function.comp_def, same]

theorem toJson_injective : Function.Injective toJson := by
  intro a b same
  exact Option.some.inj (by rw [← ofJson?_toJson a, same, ofJson?_toJson])

/-- Words of the vocabulary are accepted in any order and number, and written in its order and once. -/
theorem ofJson?_eq_some_iff :
    ofJson? json = some flags ↔ ∃ words, json = .strings words ∧ words ⊆ Flag.vocabulary ∧
      flags.toJson = .strings (Flag.vocabulary.filter (words.contains ·)) := by
  constructor
  · intro read
    obtain ⟨words, listed, known⟩ := Option.bind_eq_some_iff.mp read
    obtain ⟨list, found, rfl⟩ := Option.map_eq_some_iff.mp known
    obtain rfl := eq_map_of_mapM Flag.word_of_ofWord? found
    exact ⟨_, Json.eq_strings_of_strings? listed, List.map_subset _ fun flag _ => flag.mem_all, toJson_ofList list⟩
  · rintro ⟨words, rfl, known, normal⟩
    have ranged : words ∈ Set.range (List.map Flag.word) := by
      rw [Set.range_list_map]
      intro word listed
      obtain ⟨flag, -, same⟩ := List.mem_map.mp (known listed)
      exact ⟨flag, same⟩
    obtain ⟨list, rfl⟩ := ranged
    have same : flags = ofList list := toJson_injective (normal.trans (toJson_ofList list).symm)
    simp only [ofJson?, Json.strings?, Json.list?_strings, Option.bind_some, ofWords?, Flag.mapM_ofWord?,
      Option.map_some, same]

end Flags

/-! ## Maps -/

namespace Assoc

variable [DecidableEq κ]

theorem nodup_insert {m : Assoc κ α} (distinct : m.keys.Nodup) (key : κ) (value : α) :
    (m.insert key value).keys.Nodup := by
  refine List.nodup_cons.mpr ⟨?_, distinct.sublist (List.filter_sublist.map _)⟩
  simp

theorem nodup_ofList (entries : List (κ × α)) : (ofList entries).keys.Nodup := by
  refine List.foldlRecOn (motive := fun m : Assoc κ α => m.keys.Nodup) entries _ List.nodup_nil ?_
  exact fun m distinct entry _ => nodup_insert distinct entry.1 entry.2

/-- No entry replaces another when each key is given once. -/
theorem entries_ofList {entries : List (κ × α)} (distinct : (entries.map (·.1)).Nodup) :
    (ofList entries).entries = entries.reverse := by
  -- The entries so far are put before the reversed ones, and none of them has a key that is still to come.
  suffices onto : ∀ m : Assoc κ α, (∀ entry ∈ m.entries, entry.1 ∉ entries.map (·.1)) →
      (entries.foldl (fun (m : Assoc κ α) entry => m.insert entry.1 entry.2) m).entries =
        entries.reverse ++ m.entries by
    simpa [ofList, empty] using onto empty nofun
  induction entries with
  | nil => simp
  | cons entry rest ih =>
    intro m apart
    obtain ⟨fresh, others⟩ := List.nodup_cons.mp distinct
    have inserted : (m.insert entry.1 entry.2).entries = entry :: m.entries := by
      refine congrArg (entry :: ·) (List.filter_eq_self.mpr fun old listed => ?_)
      have other := apart old listed
      simp_all
    rw [List.foldl_cons, ih others, inserted]
    · simp
    · rw [inserted]
      rintro old (_ | ⟨_, listed⟩)
      · exact fresh
      · exact fun later => apart old listed (List.mem_cons_of_mem _ later)

end Assoc

/-! ## Sources -/

-- How the fields of a document are looked up.
attribute [local simp] Json.fields? Json.occurrences Json.Fields.required Json.Fields.optional Json.Fields.withDefault
  Json.Fields.list List.lookup_cons Json.string?

namespace ClassDecl

mutual

theorem ofJsonWithin?_toJson (d : ClassDecl) (depth : Nat) (enough : d.toJson.depth ≤ depth) :
    ofJsonWithin? depth d.toJson = some d := by
  obtain ⟨name, flags, superclass, interfaces, fields, methods, constructors, members, line⟩ := d
  cases depth with
  | zero => simp [toJson, Json.depth] at enough
  | succ depth =>
    have shallow : Json.depthOfItems (toJsons members) ≤ depth := by
      have inside : (Json.array (toJsons members)).depth ≤ depth :=
        Nat.le_trans (Json.depth_le_of_mem "members" (by simp)) (Nat.le_of_succ_le_succ enough)
      exact Nat.le_of_succ_le inside
    have nested : Json.list? (ofJsonWithin? depth) (.array (toJsons members)) = some members :=
      mapM_toJsons members depth shallow
    have fieldsBack := Json.list?_list FieldDecl.ofJson?_toJson fields
    have methodsBack := Json.list?_list MethodDecl.ofJson?_toJson methods
    have constructorsBack := Json.list?_list ConstructorDecl.ofJson?_toJson constructors
    simp [ofJsonWithin?, toJson, keys, nested, fieldsBack, methodsBack, constructorsBack]

theorem mapM_toJsons (decls : List ClassDecl) (depth : Nat) (enough : Json.depthOfItems (toJsons decls) ≤ depth) :
    (toJsons decls).mapM (ofJsonWithin? depth) = some decls := by
  cases decls with
  | nil => rfl
  | cons decl rest =>
    simp only [toJsons, Json.depthOfItems] at enough
    have first := ofJsonWithin?_toJson decl depth (by omega)
    have others := mapM_toJsons rest depth (by omega)
    simp [toJsons, List.mapM_cons, first, others]

end

theorem ofJson?_toJson (d : ClassDecl) : ofJson? d.toJson = some d := ofJsonWithin?_toJson d _ (Nat.le_refl _)

end ClassDecl

theorem SourceFile.ofJson?_toJson (s : SourceFile) : ofJson? s.toJson = some s := by
  have classes := Json.list?_list ClassDecl.ofJson?_toJson s.classes
  simp [ofJson?, toJson, classes]

/-! ## Configurations -/

theorem Version.ofJson?_toJson (v : Version) : ofJson? v.toJson = some v := by
  simp [ofJson?, toJson]

theorem Config.ofJson?_toJson (c : Config) : ofJson? c.toJson = some c := by
  simp [ofJson?, toJson, Json.strings?, Version.ofJson?_toJson]

/-! ## Class files -/

theorem RawInnerClass.ofJson?_toJson (c : RawInnerClass) : ofJson? c.toJson = some c := by
  simp [ofJson?, toJson]

theorem RawMember.ofJson?_toJson (m : RawMember) : ofJson? m.toJson = some m := by
  simp [ofJson?, toJson]

namespace RawClass

theorem ofJson?_toJson (c : RawClass) : ofJson? c.toJson = some c := by
  have inner := Json.list?_list RawInnerClass.ofJson?_toJson c.innerClasses
  have fields := Json.list?_list RawMember.ofJson?_toJson c.fields
  have methods := Json.list?_list RawMember.ofJson?_toJson c.methods
  simp [ofJson?, toJson, inner, fields, methods]

theorem optional?_toJson (c : Option RawClass) : Json.optional? ofJson? (.optional toJson c) = some c := by
  cases c with
  | none => rfl
  | some c => exact congrArg (Option.map some) c.ofJson?_toJson

end RawClass

namespace ClassFile

theorem ofJson?_toJson (file : ClassFile) :
    ofJson? file.toJson = some { file with encoded := .ofList file.encoded.entries } := by
  have entries := Json.stringMap?_object file.encoded.entries
  have raw := RawClass.optional?_toJson file.raw
  simp [ofJson?, toJson, entries, raw]

theorem nodup_of_ofJson? (read : ofJson? json = some file) : file.encoded.keys.Nodup := by
  simp only [ofJson?, Option.bind_eq_bind, Option.bind_eq_some_iff] at read
  obtain ⟨fields, -, name, -, entries, -, raw, -, modified, -, version, -, made⟩ := read
  cases made
  exact Assoc.nodup_ofList entries

/-- Equal up to the order of the metadata. -/
structure Same (a b : ClassFile) : Prop where
  encoded : a.encoded.entries.Perm b.encoded.entries
  others : { a with encoded := b.encoded } = b

end ClassFile

structure Universe.Same (a b : Universe) : Prop where
  sources : a.sources = b.sources
  classFiles : List.Forall₂ ClassFile.Same a.classFiles b.classFiles

/-! ## Round trips -/

def ReadsBack (write : α → Json) (read : Json → Option α) (Same : α → α → Prop) (value : α) : Prop :=
  ∃ again, read (write value) = some again ∧ Same again value

/-- Proper values are read back from what they are written as, and so is every value that was ever read. -/
structure RoundTrips (write : α → Json) (read : Json → Option α) (Proper : α → Prop) (Same : α → α → Prop) : Prop where
  written : ∀ value, Proper value → ReadsBack write read Same value
  accepted : ∀ json value, read json = some value → ReadsBack write read Same value

theorem RoundTrips.exact (back : ∀ value, read (write value) = some value) :
    RoundTrips write read (fun _ => True) Eq where
  written value _ := ⟨value, back value, rfl⟩
  accepted _ value _ := ⟨value, back value, rfl⟩

theorem ReadsBack.list {values : List α} (each : ∀ value ∈ values, ReadsBack write read Same value) :
    ReadsBack (Json.list write) (Json.list? read) (List.Forall₂ Same) values := by
  induction values with
  | nil => exact ⟨[], rfl, .nil⟩
  | cons value rest ih =>
    obtain ⟨first, read, same⟩ := each value List.mem_cons_self
    obtain ⟨others, reads, sames⟩ := ih fun value member => each value (List.mem_cons_of_mem _ member)
    refine ⟨first :: others, ?_, .cons same sames⟩
    exact mapM_eq_some_iff.mpr (.cons read (mapM_eq_some_iff.mp reads))

/-- Each compiler has one entry, as in every map. -/
def ClassFile.Proper (file : ClassFile) : Prop := file.encoded.keys.Nodup

theorem ClassFile.readsBack (proper : file.Proper) : ReadsBack toJson ofJson? Same file := by
  refine ⟨_, ofJson?_toJson file, ?_, rfl⟩
  rw [Assoc.entries_ofList proper]
  exact List.reverse_perm _

theorem ClassFile.roundTrips : RoundTrips toJson ofJson? Proper Same where
  written _ proper := readsBack proper
  accepted _ _ read := readsBack (nodup_of_ofJson? read)

theorem Universe.readsBack (each : ∀ file ∈ u.classFiles, file.Proper) :
    ReadsBack toJson ofJson? Same u := by
  have sources := Json.list?_list SourceFile.ofJson?_toJson u.sources
  obtain ⟨files, read, same⟩ := ReadsBack.list fun file member => ClassFile.readsBack (each file member)
  refine ⟨⟨u.sources, files⟩, ?_, rfl, same⟩
  simp [ofJson?, toJson, sources, read]

theorem Universe.roundTrips : RoundTrips toJson ofJson? (fun u => ∀ file ∈ u.classFiles, file.Proper) Same where
  written _ each := readsBack each
  accepted json u read := by
    simp only [ofJson?, Option.bind_eq_bind, Option.bind_eq_some_iff] at read
    obtain ⟨fields, -, sources, -, files, listed, made⟩ := read
    cases made
    refine readsBack fun file member => ?_
    obtain ⟨item, read⟩ := Json.Fields.exists_of_mem_list listed member
    exact ClassFile.nodup_of_ofJson? read

/-- All kinds of documents are read back equal: whatever value was written, and whatever value some document was read
as. A list of flags is accepted just when its words are known, and written again in the order of the vocabulary without
repetitions. -/
theorem documents_round_trip :
    RoundTrips SourceFile.toJson SourceFile.ofJson? (fun _ => True) Eq ∧
    RoundTrips RawClass.toJson RawClass.ofJson? (fun _ => True) Eq ∧
    RoundTrips ClassFile.toJson ClassFile.ofJson? ClassFile.Proper ClassFile.Same ∧
    RoundTrips Metadata.toJson Metadata.ofJson? (fun _ => True) Eq ∧
    RoundTrips Config.toJson Config.ofJson? (fun _ => True) Eq ∧
    RoundTrips Universe.toJson Universe.ofJson? (fun u => ∀ file ∈ u.classFiles, file.Proper) Universe.Same ∧
    Flag.vocabulary.Nodup ∧
    ∀ json flags, Flags.ofJson? json = some flags ↔ ∃ words, json = .strings words ∧ words ⊆ Flag.vocabulary ∧
      flags.toJson = .strings (Flag.vocabulary.filter (words.contains ·)) :=
  ⟨.exact SourceFile.ofJson?_toJson, .exact RawClass.ofJson?_toJson, ClassFile.roundTrips,
    .exact Metadata.ofJson?_toJson, .exact Config.ofJson?_toJson, Universe.roundTrips, by decide,
    fun _ _ => Flags.ofJson?_eq_some_iff⟩

/-- A universe with nested member classes and the metadata of two compilers, a class file that gives the metadata of one
compiler twice, and flags that repeat out of order. -/
theorem documents_round_trip_nested :
    let u : Universe := {
      sources := [{ path := "p/A.java", package := some "p", lastModified := 7, classes := [{
        name := "A", flags := .ofList [.final, .publicAccess], members := [{
          name := "B", interfaces := ["A"], members := [{
            name := "C", superclass := some "B", fields := [{ name := "a", type := "A[]" }], line := 3 }] }] }] }]
      classFiles := [{
        name := "p.A", encoded := .ofList [("jltc", "new"), ("javac", "old")], compilerVersion := some "0.1",
        raw := some { name := "p/A", methods := [{ name := "f", descriptor := "()V", synthetic := true }] } }] }
    let repeating : Json := .object [("name", .string "p.A"), ("unknown", .null),
      ("encoded", .object [("jltc", .string "old"), ("javac", .string "a"), ("jltc", .string "new")])]
    let read : ClassFile := { name := "p.A", encoded := .ofList [("javac", "a"), ("jltc", "new")] }
    ((∀ file ∈ u.classFiles, file.Proper) ∧ ClassFile.ofJson? repeating = some read) ∧
      ReadsBack Universe.toJson Universe.ofJson? Universe.Same u ∧
      ReadsBack ClassFile.toJson ClassFile.ofJson? ClassFile.Same read ∧
      Flags.ofJson? (.strings ["static", "public", "static"]) = some (.ofList [.publicAccess, .static]) := by
  intro u repeating read
  obtain ⟨-, -, files, -, -, universes, -, flags⟩ := documents_round_trip
  have proper : ∀ file ∈ u.classFiles, file.Proper := List.forall_mem_singleton.mpr (by decide : List.Nodup _)
  have accepted : ClassFile.ofJson? repeating = some read := by rfl
  refine ⟨⟨proper, accepted⟩, universes.written u proper, files.accepted repeating read accepted, ?_⟩
  exact (flags _ _).mpr ⟨_, rfl, by decide, by rfl⟩

end ClassUniverse
