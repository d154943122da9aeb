import ClassUniverse.Proofs.ClassPaths
import ClassUniverse.Proofs.Documents
import ClassUniverse.Proofs.Forks
import ClassUniverse.Proofs.MetadataText
import ClassUniverse.Proofs.PrintedTypes

/-! Libraries: class paths whose files describe a set of classes that is closed under reference, and the
worlds of sessions that have loaded some of them. -/
namespace ClassUniverse

/-- A class document with the source name of its class. -/
structure Filed where
  fullName : String
  document : Metadata

namespace Filed

/-- A class is found under its source name and under its binary name. -/
def Answers (c : Filed) (name : String) : Prop := name = c.fullName ∨ name = c.document.name

def TopLevel (c : Filed) : Prop := c.document.outer = none ∧ c.document.name = c.fullName

def MemberOf (c outer : Filed) : Prop := c.document.outer = some outer.document.name ∧
  ∃ short, isShortName short ∧ c.document.name = outer.document.name ++ "$" ++ short ∧
    c.fullName = qualify outer.fullName short

end Filed

/-- All types that a document mentions, as they are written. -/
def Metadata.mentions (m : Metadata) : List String :=
  m.superType.toList ++ m.interfaces ++ m.fields.map (·.type) ++
    m.methods.flatMap (fun d => d.returns :: (d.params ++ d.throws)) ++ m.constructors.flatMap (fun d => d.params ++ d.throws)

/-- The text of a type over the primitives, null and the filed classes. -/
inductive Readable (filed : List Filed) : String → Prop where
  | null (dims : Nat) : Readable filed (String.ofList (Text.bracketed "null".toList dims))
  | primitive (kind : Primitive) (dims : Nat) : Readable filed (String.ofList (Text.bracketed kind.name.toList dims))
  | cls {c : Filed} (listed : c ∈ filed) (plain : PlainName c.fullName) (other : c.fullName ≠ "null")
      (keyword : Primitive.ofName? c.fullName = none) (dims : Nat) :
      Readable filed (String.ofList (Text.bracketed c.fullName.toList dims))

/-- The file carries the document, for a compiler that can read it. -/
structure ClassFile.Holds (file : ClassFile) (version : Version) (m : Metadata) : Prop where
  name : file.name = m.name
  compatible : file.compatibility version ≠ .incompatible
  metadata : file.metadata? version = some m.render

structure Library (version : Version) (path : ClassPath) (filed : List Filed) : Prop where
  stored : ∀ c ∈ filed, ∀ name, c.Answers name → ∃ file, path.find? name = some file ∧ file.Holds version c.document
  present : ∀ c ∈ filed, (path.files.find? c.document.name).isSome
  distinct : ∀ c ∈ filed, ∀ d ∈ filed, ∀ name, c.Answers name → d.Answers name → c = d
  apart : ∀ c ∈ filed, ∀ name, c.Answers name → path.packageExists name = false
  nested : ∀ c ∈ filed, c.TopLevel ∨ ∃ outer ∈ filed, c.MemberOf outer
  versions : ∀ c ∈ filed, c.document.version = version.text
  mentions : ∀ c ∈ filed, ∀ written ∈ c.document.mentions, Readable filed written
  members : ∀ c ∈ filed, ∀ name ∈ c.document.memberClasses, ∃ member ∈ filed, name = member.document.name

theorem Library.not_package (library : Library version path filed) (listed : c ∈ filed) (answers : c.Answers name) :
    ¬ path.packageExists name := by simp [library.apart c listed name answers]

/-! ## Classes of the arena that stand for filed ones -/

/-- The header of the class is as it is filed. -/
structure Arena.Shows (arena : Arena) (c : Filed) (id : ClassId) : Prop where
  inside : id.index < arena.size
  fullName : arena.fullName id = c.fullName
  fileName : (arena.get id).fileName = some c.document.name
  flags : (arena.get id).flags = c.document.flags
  topLevel : c.document.outer = none → (arena.get id).kind = .topLevel
  memberOf : ∀ name, c.document.outer = some name →
    ∃ outer, (arena.get id).kind = .memberOf outer ∧ (arena.get outer).fileName = some name

/-- The contents of the record are written as they stand in the document. -/
structure Arena.Describes (arena : Arena) (m : Metadata) (r : ClassRecord) : Prop where
  superType : r.superType.map arena.typeName = m.superType
  interfaces : arena.typeNames r.interfaces = m.interfaces
  fields : r.fields.map arena.encodeField = m.fields
  methods : r.methods.map arena.encodeMethod = m.methods
  constructors : r.constructors.map arena.encodeConstructor = m.constructors
  members : r.members.filterMap arena.binaryName? = m.memberClasses

/-- The class is all that its document says, and stays so as long as its record does. -/
structure Arena.Filled (arena : Arena) (c : Filed) (id : ClassId) : Prop extends arena.Shows c id where
  described : (arena.get id).Described
  describes : ∀ after, arena.Keeps after → after.Describes c.document (arena.get id)

namespace Arena

variable {arena after : Arena} {c : Filed} {id : ClassId}

theorem Shows.later (shows_ : arena.Shows c id) (nested : arena.Nested) (kept : arena.Keeps after) :
    after.Shows c id where
  inside := kept.inside shows_.inside
  fullName := (kept.fullName nested shows_.inside).trans shows_.fullName
  fileName := (kept.fileName shows_.inside).trans shows_.fileName
  flags := (kept.flags shows_.inside).trans shows_.flags
  topLevel top := (kept.kind shows_.inside).trans (shows_.topLevel top)
  memberOf name given := by
    obtain ⟨outer, kind, named⟩ := shows_.memberOf name given
    have before := nested id shows_.inside outer (outer?_of_kind kind rfl)
    refine ⟨outer, (kept.kind shows_.inside).trans kind, ?_⟩
    rw [kept.fileName (Nat.lt_trans before shows_.inside), named]

theorem Shows.nesting (shows_ : arena.Shows c id) :
    (arena.get id).kind = .topLevel ∨ ∃ outer, (arena.get id).kind = .memberOf outer := by
  cases given : c.document.outer with
  | none => exact .inl (shows_.topLevel given)
  | some name =>
    obtain ⟨outer, kind, -⟩ := shows_.memberOf name given
    exact .inr ⟨outer, kind⟩

theorem Shows.outer (shows_ : arena.Shows c id) : (arena.outer? id).bind arena.binaryName? = c.document.outer := by
  cases given : c.document.outer with
  | none => simp [outer?, shows_.topLevel given, ClassKind.outer?]
  | some name =>
    obtain ⟨outer, kind, named⟩ := shows_.memberOf name given
    simp [outer?, kind, ClassKind.outer?, binaryName?_of_fileName named]

theorem Filled.later (filled : arena.Filled c id) (nested : arena.Nested) (kept : arena.Keeps after)
    (same : after.get id = arena.get id) : after.Filled c id where
  toShows := filled.toShows.later nested kept
  described := by rw [same]; exact filled.described
  describes last further := by rw [same]; exact filled.describes last (kept.trans further)

theorem Filled.document (filled : arena.Filled c id) : arena.document c.document.version id = c.document := by
  have now := filled.describes arena (.refl arena)
  simp only [Arena.document, binaryName?_of_fileName filled.fileName, Option.getD_some, filled.outer, filled.flags,
    now.superType, now.interfaces, now.fields, now.methods, now.constructors, now.members]

end Arena

/-! ## Worlds over a library -/

/-- The world has nothing but the library, and its session's cache holds only what belongs there. -/
structure World.Shelved (config : Config) (path : ClassPath) (filed : List Filed) (w : World) : Prop where
  configured : w.config = config
  stocked : w.classPath = path
  sources : w.sources = {}
  tables : w.tables = .empty
  nested : w.arena.Nested
  layers : w.system.Sound fun name => path.packageExists name
  entries : ∀ name entry, w.system.lookup name = some entry →
    entry = .found (.package ⟨name⟩) ∧ path.packageExists name ∨
      ∃ c ∈ filed, c.Answers name ∧ ∃ id, entry = .found (.cls id) ∧ w.arena.Shows c id

/-- Moreover, every class is found under both of its names or under neither. -/
structure World.Serving (config : Config) (path : ClassPath) (filed : List Filed) (w : World) : Prop extends
    w.Shelved config path filed where
  agreed : ∀ c ∈ filed, w.system.check c.document.name = w.system.check c.fullName

/-- Classes and what is known about names are only added, in the top layer. -/
structure World.Extends (w after : World) : Prop where
  size : w.arena.size ≤ after.arena.size
  records : ∀ id : ClassId, id.index < w.arena.size → after.arena.get id = w.arena.get id
  checked : ∀ name named, w.system.check name = some named → after.system.check name = some named
  below : w.system.SameBelow after.system

/-- The classes that were added are all that their documents say. -/
structure World.Loaded (filed : List Filed) (w after : World) : Prop extends w.Extends after where
  nested : w.arena.Nested → after.arena.Nested
  filled : w.arena.Nested → ∀ id : ClassId, w.arena.size ≤ id.index → id.index < after.arena.size →
    ∃ c ∈ filed, after.arena.Filled c id

namespace World

variable {config : Config} {path : ClassPath} {filed : List Filed} {w middle after : World}

theorem Extends.keeps (grown : w.Extends after) : w.arena.Keeps after.arena :=
  ⟨grown.size, fun id inside => by rw [grown.records id inside]⟩

instance : WorldOrder Extends where
  refl _ := ⟨Nat.le_refl _, fun _ _ => rfl, fun _ _ hit => hit, .refl _⟩
  trans first second := {
    size := Nat.le_trans first.size second.size
    records id inside := (second.records id (Nat.lt_of_lt_of_le inside first.size)).trans (first.records id inside)
    checked name named hit := second.checked name named (first.checked name named hit)
    below := first.below.trans second.below }

instance : WorldOrder (Loaded filed) where
  refl _ := {
    WorldOrder.refl (R := Extends) _ with
    nested := id
    filled := fun _ id outside inside => absurd inside (Nat.not_lt_of_le outside) }
  trans {_ middle _} first second := {
    WorldOrder.trans first.toExtends second.toExtends with
    nested := fun nested => second.nested (first.nested nested)
    filled := by
      intro nested id outside inside
      by_cases earlier : id.index < middle.arena.size
      · obtain ⟨c, listed, filled⟩ := first.filled nested id outside earlier
        exact ⟨c, listed, filled.later (first.nested nested) second.keeps (second.records id earlier)⟩
      · exact second.filled (first.nested nested) id (Nat.le_of_not_lt earlier) inside }

namespace Shelved

variable (shelved : w.Shelved config path filed)
include shelved

/-- A name of a filed class is held as that class or not at all. -/
theorem lookup_answers (library : Library config.version path filed) {c : Filed} (listed : c ∈ filed)
    (answers : c.Answers name) (hit : w.system.lookup name = some entry) :
    ∃ id, entry = .found (.cls id) ∧ w.arena.Shows c id := by
  rcases shelved.entries name entry hit with ⟨-, package⟩ | ⟨other, member, also_, id, same, shows_⟩
  · exact absurd package (library.not_package listed answers)
  · cases library.distinct c listed other member name answers also_
    exact ⟨id, same, shows_⟩

theorem shows_of_check (library : Library config.version path filed) {c : Filed} (listed : c ∈ filed)
    (answers : c.Answers name) {id : ClassId} (hit : w.system.check name = some (.cls id)) : w.arena.Shows c id := by
  obtain ⟨entry, found, same⟩ := Option.bind_eq_some_iff.mp hit
  obtain ⟨other, rfl, shows_⟩ := shelved.lookup_answers library listed answers found
  cases same
  exact shows_

theorem withArena {arena : Arena} (kept : w.arena.Keeps arena) (nested : arena.Nested) :
    ({ w with arena } : World).Shelved config path filed where
  __ := shelved
  nested := nested
  entries name entry hit := by
    rcases shelved.entries name entry hit with package | ⟨c, listed, answers, id, same, shows_⟩
    · exact .inl package
    · exact .inr ⟨c, listed, answers, id, same, shows_.later shelved.nested kept⟩

end Shelved

end World

end ClassUniverse
