import ClassUniverse.Proofs.Library

/-! Families of classes that are closed under reference. Where names follow the conventions, the class files of
a family make a library. -/
namespace ClassUniverse

/-- Built by array dimensions from primitives, null and the given classes. -/
def Ty.isOver (ids : List ClassId) : Ty → Bool
  | .primitive _ | .null => true
  | .cls id => ids.contains id
  | .array base => base.isOver ids
  | .package _ | .unknown _ => false

/-- A simple name that can be told apart in a binary name and in the text of a type. -/
def isPlainShort (name : String) : Bool :=
  name ≠ "" && name.toList.all fun c => c ≠ '.' && c ≠ '$' && c ≠ '[' && c ≠ ']' && !Text.isBlank c

namespace Arena

/-- A package of some of the classes, or one around it. -/
def isPackageOf (arena : Arena) (ids : List ClassId) (name : String) : Bool :=
  ids.any fun id => (arena.get id).package.any fun package => name == package.fullName || isBelow name package.fullName

/-- Completed classes that refer to one another only, with names that tell them apart. -/
structure Family (arena : Arena) (ids : List ClassId) : Prop where
  inside : ∀ id ∈ ids, id.index < arena.size
  kinds : ∀ id ∈ ids, (arena.get id).kind = .topLevel ∨ ∃ outer ∈ ids, (arena.get id).kind = .memberOf outer
  complete : ∀ id ∈ ids, (arena.get id).stages.isComplete
  types : ∀ id ∈ ids, ∀ type ∈ (arena.get id).mentions, type.isOver ids
  members : ∀ id ∈ ids, ∀ member ∈ (arena.get id).members, member ∈ ids
  binaries : ∀ a ∈ ids, ∀ b ∈ ids, arena.binaryName? a = arena.binaryName? b → a = b
  fullNames : ∀ a ∈ ids, ∀ b ∈ ids, arena.fullName a = arena.fullName b → a = b
  simple : ∀ id ∈ ids, isPlainShort (arena.get id).name
  reserved : ∀ id ∈ ids, arena.fullName id ≠ "null" ∧ Primitive.ofName? (arena.fullName id) = none
  apart : ∀ id ∈ ids, arena.isPackageOf ids (arena.fullName id) = false

/-- Binary names are built along the nest and are no packages either, and no name starts with a blank. -/
structure Conventional (arena : Arena) (ids : List ClassId) : Prop where
  topLevel : ∀ id ∈ ids, (arena.get id).kind = .topLevel → arena.binaryName? id = some (arena.fullName id)
  memberOf : ∀ id ∈ ids, ∀ outer ∈ ids, (arena.get id).kind = .memberOf outer →
    arena.binaryName? id = (arena.binaryName? outer).map (· ++ "$" ++ (arena.get id).name)
  apart : ∀ id ∈ ids, ∀ name ∈ arena.binaryName? id, arena.isPackageOf ids name = false
  solid : ∀ id ∈ ids, ∀ c ∈ (arena.fullName id).toList.head?, Text.isBlank c = false

end Arena

theorem isPlainShort_iff : isPlainShort name ↔ name ≠ "" ∧ ∀ c ∈ name.toList,
    c ≠ '.' ∧ c ≠ '$' ∧ c ≠ '[' ∧ c ≠ ']' ∧ Text.isBlank c = false := by
  simp [isPlainShort, and_assoc]

theorem isShortName_of_plain (plain : isPlainShort name) : isShortName name := by
  simp only [isShortName, Bool.not_eq_true', List.contains_eq_mem, decide_eq_false_iff_not]
  exact fun dot => ((isPlainShort_iff.mp plain).2 '.' dot).1 rfl

theorem dollarless_of_plain (plain : isPlainShort name) : '$' ∉ name.toList :=
  fun dollar => ((isPlainShort_iff.mp plain).2 '$' dollar).2.1 rfl

/-- What stands below a package does so whatever is added to the last part of its name. -/
theorem isBelow_of_append (dotless : '.' ∉ tail)
    (below : isBelow above (String.ofList (a ++ tail))) : isBelow above (String.ofList a) := by
  obtain ⟨rest, whole⟩ := isBelow_iff.mp below
  refine isBelow_iff.mpr ?_
  rw [String.toList_ofList] at whole ⊢
  rcases List.append_eq_append_iff.mp whole with ⟨middle, same, cut⟩ | ⟨middle, same, cut⟩
  · -- The dot would lie in what is added.
    refine absurd ?_ dotless
    rw [cut]
    simp
  · cases middle with
    | nil =>
      refine absurd ?_ dotless
      rw [← List.nil_append tail, ← cut]
      simp
    | cons e middle =>
      obtain ⟨rfl, -⟩ := List.cons.inj cut
      exact ⟨middle, same⟩

/-- A class file that holds the document, as the compiler writes it. -/
def Metadata.file (m : Metadata) (version : Version) : ClassFile :=
  { name := m.name, compilerVersion := some version.text, encoded := .ofList [(version.name, m.render)] }

theorem Metadata.file_holds (m : Metadata) (version : Version) : (m.file version).Holds version m where
  name := rfl
  compatible := by
    have read : (m.file version).compatibility version = .compatible := version.check_text
    rw [read]
    nofun
  metadata := by simp [ClassFile.metadata?, file, Assoc.ofList, Assoc.find?_insert]

namespace Arena

variable {arena : Arena} {ids : List ClassId} {id : ClassId} {version : Version}

def filed (arena : Arena) (version : Version) (id : ClassId) : Filed :=
  ⟨arena.fullName id, arena.document version.text id⟩

theorem topName_cases (arena : Arena) (id : ClassId) : (∃ package, (arena.get id).package = some package ∧
      arena.topName id = qualify package.fullName (arena.get id).name) ∨ arena.topName id = (arena.get id).name := by
  unfold topName
  cases (arena.get id).package with
  | none => exact .inr rfl
  | some package => exact .inl ⟨package, rfl, rfl⟩

theorem undollar_topName (plain : isPlainShort (arena.get id).name) :
    Text.undollar (arena.topName id).toList = (arena.topName id).toList := by
  have dotless := not_mem_of_isShortName (isShortName_of_plain plain)
  have same : Text.replaceChar '$' '.' (arena.get id).name.toList = (arena.get id).name.toList :=
    Text.replaceChar_absent (dollarless_of_plain plain)
  rcases arena.topName_cases id with ⟨package, -, full⟩ | full
  · rw [full, toList_qualify, Text.undollar, Text.splitLast_append dotless]
    simp only [same]
  · rw [full, Text.undollar, Text.splitLast_eq_none.mpr dotless, same]

theorem isPackageOf_of_below (listed : id ∈ ids) (plain : isPlainShort (arena.get id).name)
    (below : isBelow above (arena.topName id)) : arena.isPackageOf ids above = true := by
  rcases arena.topName_cases id with ⟨package, housed, full⟩ | full
  · rw [full] at below
    refine List.any_eq_true.mpr ⟨id, listed, ?_⟩
    rw [housed, Option.any_some, Bool.or_eq_true, beq_iff_eq]
    exact (below_of_qualify (isShortName_of_plain plain) below).imp Eq.symm fun further => further
  · rw [full] at below
    exact absurd below (not_isBelow_short (isShortName_of_plain plain))

section Families

variable (nested : arena.Nested) (family : arena.Family ids) (conventional : arena.Conventional ids)
include nested family conventional

/-- The binary name spells the nest, and the only packages above it are those of the family. -/
theorem nests_of_family (listed : id ∈ ids) : ∃ binary, arena.binaryName? id = some binary ∧
    Text.Nests (arena.fullName id).toList binary.toList ∧
    ∀ above, isBelow above binary → arena.isPackageOf ids above = true := by
  induction place : id.index using Nat.strongRecOn generalizing id with
  | ind index ih =>
    subst place
    have plain := family.simple id listed
    rcases family.kinds id listed with top | ⟨outer, around, member⟩
    · have full := fullName_topLevel top
      refine ⟨_, conventional.topLevel id listed top, .top ?_, fun above below => ?_⟩
      · rw [full]
        exact undollar_topName plain
      · rw [full] at below
        exact isPackageOf_of_below listed plain below
    · have inside := family.inside id listed
      have before := nested id inside outer (outer?_of_kind member rfl)
      obtain ⟨binary, named, nests, packages⟩ := ih outer.index before around rfl
      have dotless := not_mem_of_isShortName (isShortName_of_plain plain)
      have own := conventional.memberOf id listed outer around member
      rw [named, Option.map_some] at own
      have spelled : (binary ++ "$" ++ (arena.get id).name).toList =
          binary.toList ++ '$' :: (arena.get id).name.toList := by simp
      refine ⟨_, own, ?_, fun above below => packages above ?_⟩
      · rw [fullName_memberOf nested member, toList_qualify, spelled]
        exact nests.member dotless (dollarless_of_plain plain)
      · have tail : '.' ∉ '$' :: (arena.get id).name.toList := by simp [dotless]
        rw [← String.ofList_toList (s := binary)]
        refine isBelow_of_append tail ?_
        rwa [← spelled, String.ofList_toList]

/-- Full names can be told from the dimensions of a type. -/
theorem plainName_of_family (listed : id ∈ ids) : PlainName (arena.fullName id) := by
  have plain := family.simple id listed
  obtain ⟨nonempty, solid⟩ := isPlainShort_iff.mp plain
  obtain ⟨lead, ends⟩ : ∃ lead, (arena.fullName id).toList = lead ++ (arena.get id).name.toList := by
    rcases family.kinds id listed with top | ⟨outer, around, member⟩
    · rw [fullName_topLevel top]
      rcases arena.topName_cases id with ⟨package, -, full⟩ | full
      · exact ⟨package.fullName.toList ++ ['.'], by simp [full, toList_qualify]⟩
      · exact ⟨[], by simp [full]⟩
    · rw [fullName_memberOf nested member]
      exact ⟨(arena.fullName outer).toList ++ ['.'], by simp [toList_qualify]⟩
  have spelled : (arena.get id).name.toList ≠ [] := by simpa using nonempty
  have last (c : Char) (final : (arena.fullName id).toList.getLast? = some c) : c ∈ (arena.get id).name.toList := by
    rw [ends, List.getLast?_append_of_ne_nil _ spelled] at final
    exact List.mem_of_getLast? final
  refine .of_last ⟨fun c first => conventional.solid id listed c first, fun c final => ?_⟩ fun final => ?_
  · exact (solid c (last c final)).2.2.2.2
  · exact (solid _ (last _ final)).2.2.2.1 rfl

theorem readable_of_family (covered : type.isOver ids = true) :
    Readable (ids.map (arena.filed version)) (arena.typeName type) := by
  obtain ⟨base, dims, rfl, simple⟩ : ∃ base dims, type = Ty.arrayOf base dims ∧
      (base = .null ∨ (∃ kind, base = .primitive kind) ∨ ∃ id ∈ ids, base = .cls id) := by
    induction type with
    | primitive kind => exact ⟨_, 0, rfl, .inr (.inl ⟨kind, rfl⟩)⟩
    | null => exact ⟨_, 0, rfl, .inl rfl⟩
    | cls id => exact ⟨_, 0, rfl, .inr (.inr ⟨id, List.contains_iff_mem.mp covered, rfl⟩)⟩
    | array base ih =>
      obtain ⟨inner, dims, rfl, simple⟩ := ih covered
      exact ⟨inner, dims + 1, rfl, simple⟩
    | _ => cases covered
  rw [typeName_arrayOf]
  rcases simple with rfl | ⟨kind, rfl⟩ | ⟨id, listed, rfl⟩
  · exact .null dims
  · exact .primitive kind dims
  · obtain ⟨other, keyword⟩ := family.reserved id listed
    exact .cls (c := arena.filed version id) (List.mem_map_of_mem listed)
      (plainName_of_family nested family conventional listed) other keyword dims

end Families

theorem mentions_document (listed : written ∈ (arena.document version.text id).mentions) :
    ∃ type ∈ (arena.get id).mentions, written = arena.typeName type := by
  simp only [Metadata.mentions, document, typeNames, List.mem_append, Option.mem_toList,
    Option.map_eq_some_iff, List.mem_map, List.mem_flatMap] at listed
  simp only [ClassRecord.mentions, ClassRecord.supertypes, List.mem_append, Option.mem_toList, List.mem_map,
    List.mem_flatMap]
  rcases listed with (((⟨type, above, rfl⟩ | ⟨type, above, rfl⟩) | ⟨_, ⟨f, member, rfl⟩, rfl⟩) |
    ⟨_, ⟨m, member, rfl⟩, mentioned⟩) | ⟨_, ⟨c, member, rfl⟩, mentioned⟩
  · exact ⟨type, .inl (.inl (.inl (.inl above))), rfl⟩
  · exact ⟨type, .inl (.inl (.inl (.inr above))), rfl⟩
  · exact ⟨f.type, .inl (.inl (.inr ⟨f, member, rfl⟩)), rfl⟩
  · have types : written ∈ m.mentions.map arena.typeName := by
      simpa [encodeMethod, Method.mentions, typeNames] using mentioned
    obtain ⟨type, used, rfl⟩ := List.mem_map.mp types
    exact ⟨type, .inl (.inr ⟨m, member, used⟩), rfl⟩
  · have types : written ∈ c.mentions.map arena.typeName := by
      simpa [encodeConstructor, Constructor.mentions, typeNames] using mentioned
    obtain ⟨type, used, rfl⟩ := List.mem_map.mp types
    exact ⟨type, .inr ⟨c, member, used⟩, rfl⟩

/-- The class files of some classes. -/
def files (arena : Arena) (version : Version) (ids : List ClassId) : List ClassFile :=
  ids.map fun id => (arena.document version.text id).file version

theorem of_find?_files (hit : (ClassPath.ofList (arena.files version ids)).files.find? name = some file) :
    ∃ id ∈ ids, file = (arena.document version.text id).file version ∧ (arena.binaryName? id).getD "" = name := by
  obtain ⟨member, same⟩ := ClassPath.mem_of_find?_ofList hit
  obtain ⟨id, listed, rfl⟩ := List.mem_map.mp member
  exact ⟨id, listed, rfl, same⟩

section Files

variable (version) (nested : arena.Nested) (family : arena.Family ids) (conventional : arena.Conventional ids)
include nested family conventional

theorem find?_files (listed : id ∈ ids) (named : arena.binaryName? id = some name) :
    (ClassPath.ofList (arena.files version ids)).files.find? name =
      some ((arena.document version.text id).file version) := by
  have same : ((arena.document version.text id).file version).name = name := by
    simp [Metadata.file, document, named]
  rw [← same]
  refine ClassPath.find?_ofList ?_ (List.mem_map_of_mem listed)
  intro a first b second equal
  obtain ⟨x, inX, rfl⟩ := List.mem_map.mp first
  obtain ⟨y, inY, rfl⟩ := List.mem_map.mp second
  obtain ⟨p, namedX, -⟩ := nests_of_family nested family conventional inX
  obtain ⟨q, namedY, -⟩ := nests_of_family nested family conventional inY
  have agree : p = q := by simpa [Metadata.file, document, namedX, namedY] using equal
  rw [family.binaries x inX y inY (by rw [namedX, namedY, agree])]

/-- Dollar signs read as dots lead from every name of a class to its full name. -/
theorem undollar_answers (listed : id ∈ ids) (answers : (arena.filed version id).Answers name) :
    Text.undollar name.toList = (arena.fullName id).toList := by
  obtain ⟨binary, named, nests, -⟩ := nests_of_family nested family conventional listed
  rcases answers with rfl | rfl
  · exact nests.plain
  · simpa [filed, document, named] using nests.undollar_binary

theorem library_of_family : Library version (.ofList (arena.files version ids)) (ids.map (arena.filed version)) where
  stored := List.forall_mem_map.mpr fun id listed name answers => by
    obtain ⟨binary, named, nests, -⟩ := nests_of_family nested family conventional listed
    have stored := find?_files version nested family conventional listed named
    refine ⟨_, ?_, Metadata.file_holds _ _⟩
    rcases answers with rfl | rfl
    · refine ClassPath.find?_nested nests (fun candidate found reads hit => ?_) stored
      obtain ⟨other, among, rfl, spelled⟩ := of_find?_files hit
      have full := undollar_answers version nested family conventional among (.inr spelled.symm)
      rw [String.toList_ofList, reads] at full
      rw [family.fullNames other among id listed (String.toList_inj.mp full.symm)]
      rfl
    · have spelled : (arena.filed version id).document.name = binary := by simp [filed, document, named]
      rw [spelled]
      exact ClassPath.find?_binary stored
  present := List.forall_mem_map.mpr fun id listed => by
    obtain ⟨binary, named, -⟩ := nests_of_family nested family conventional listed
    have spelled : (arena.filed version id).document.name = binary := by simp [filed, document, named]
    rw [spelled, find?_files version nested family conventional listed named]
    rfl
  distinct := List.forall_mem_map.mpr fun a inA => List.forall_mem_map.mpr fun b inB name answers also_ => by
    have full := undollar_answers version nested family conventional inA answers
    rw [undollar_answers version nested family conventional inB also_, String.toList_inj] at full
    rw [family.fullNames b inB a inA full]
  apart := List.forall_mem_map.mpr fun id listed name answers => by
    have outside : arena.isPackageOf ids name = false := by
      rcases answers with rfl | rfl
      · exact family.apart id listed
      · obtain ⟨binary, named, -⟩ := nests_of_family nested family conventional listed
        refine conventional.apart id listed _ ?_
        simp [filed, document, named]
    refine Bool.eq_false_iff.mpr fun present => ?_
    obtain ⟨key, stored, below⟩ := ClassPath.packageExists_iff.mp present
    obtain ⟨file, hit⟩ := Option.isSome_iff_exists.mp stored
    obtain ⟨other, among, -, spelled⟩ := of_find?_files hit
    obtain ⟨binary, named, -, packages⟩ := nests_of_family nested family conventional among
    rw [named, Option.getD_some] at spelled
    rw [packages name (spelled ▸ below)] at outside
    cases outside
  nested := List.forall_mem_map.mpr fun id listed => by
    rcases family.kinds id listed with top | ⟨outer, around, inner⟩
    · refine .inl ⟨?_, ?_⟩
      · simp [filed, document, outer?, top, ClassKind.outer?]
      · simp [filed, document, conventional.topLevel id listed top]
    · obtain ⟨binary, named, -⟩ := nests_of_family nested family conventional around
      have own := conventional.memberOf id listed outer around inner
      have simple := isShortName_of_plain (family.simple id listed)
      refine .inr ⟨_, List.mem_map_of_mem around, ?_, (arena.get id).name, simple, ?_, ?_⟩
      · simp [filed, document, outer?, inner, ClassKind.outer?, named]
      · simp [filed, document, own, named]
      · exact fullName_memberOf nested inner
  versions := List.forall_mem_map.mpr fun _ _ => rfl
  mentions := List.forall_mem_map.mpr fun id listed written mentioned => by
    obtain ⟨type, used, rfl⟩ := mentions_document mentioned
    exact readable_of_family nested family conventional (family.types id listed type used)
  members := List.forall_mem_map.mpr fun id listed name inside => by
    obtain ⟨inner, among, named⟩ := List.mem_filterMap.mp inside
    refine ⟨_, List.mem_map_of_mem (family.members id listed inner among), ?_⟩
    simp [filed, document, named]

end Files

end Arena

end ClassUniverse
