import ClassUniverse.Decoding
import ClassUniverse.Proofs.Dotted

/-! Class files by source name. A source name is tried as it stands, then with its last dots replaced by
dollar signs one after the other; this way a class is found whose simple names are free of both. -/
namespace ClassUniverse

theorem Assoc.mem_keys [DecidableEq κ] {m : Assoc κ α} : key ∈ m.keys ↔ (m.find? key).isSome := by
  obtain ⟨entries⟩ := m
  unfold keys find?
  induction entries with
  | nil => simp
  | cons entry rest ih =>
    obtain ⟨first, value⟩ := entry
    by_cases same : key = first
    · simp [same]
    · have apart : (key == first) = false := beq_eq_false_iff_ne.mpr same
      simp only [List.map_cons, List.mem_cons, same, false_or, List.lookup_cons, apart]
      exact ih

theorem Package.isBelow_of_mem_enclosings {package around : Package} (member : around ∈ package.enclosings) :
    isBelow around.fullName package.fullName := by
  unfold enclosings at member
  generalize package.fullName.length = steps at member
  induction steps generalizing package with
  | zero => cases member
  | succ steps ih =>
    unfold enclosingFrom at member
    split at member
    · rename_i outer encloses
      have first : isBelow outer.fullName package.fullName := by
        obtain ⟨container, contained, rfl⟩ := Option.map_eq_some_iff.mp encloses
        exact isBelow_of_containerName contained
      rcases List.mem_cons.mp member with rfl | further
      · exact first
      · exact isBelow_trans (ih further) first
    · cases member

theorem memberSuffix?_append (outer short : String) : memberSuffix? outer (outer ++ "$" ++ short) = some short := by
  simp [memberSuffix?, Text.stripStart_append]

namespace Text

theorem replaceChar_append (old new : Char) (a b : List Char) :
    replaceChar old new (a ++ b) = replaceChar old new a ++ replaceChar old new b := List.map_append

theorem replaceChar_absent (absent : old ∉ cs) : replaceChar old new cs = cs := by
  have same : ∀ c ∈ cs, (if c = old then new else c) = c := by
    intro c member
    split
    · rename_i equal
      exact absurd (equal ▸ member) absent
    · rfl
  rw [replaceChar, List.map_congr_left same, List.map_id']

theorem splitLast_append_absent (absent : mark ∉ tail) :
    splitLast mark (cs ++ tail) = (splitLast mark cs).map fun (before, after) => (before, after ++ tail) := by
  cases cut : splitLast mark cs with
  | none =>
    have outside := splitLast_eq_none.mp cut
    simp [splitLast_eq_none.mpr (show mark ∉ cs ++ tail by simp [outside, absent])]
  | some parts =>
    obtain ⟨before, after⟩ := parts
    obtain ⟨rfl, inside⟩ := eq_of_splitLast cut
    rw [List.append_assoc, List.cons_append,
      splitLast_append (show mark ∉ after ++ tail by simp [inside, absent])]
    rfl

/-- Dollar signs in the last part of a name read as dots. -/
def undollar (name : List Char) : List Char :=
  match splitLast '.' name with
  | some (before, after) => before ++ '.' :: replaceChar '$' '.' after
  | none => replaceChar '$' '.' name

theorem undollar_append (dotless : '.' ∉ tail) :
    undollar (name ++ tail) = undollar name ++ replaceChar '$' '.' tail := by
  unfold undollar
  rw [splitLast_append_absent dotless]
  cases splitLast '.' name with
  | none => exact replaceChar_append _ _ _ _
  | some parts => simp [replaceChar_append]

/-- Source name and binary name of a class, both built up along its nest. -/
inductive Nests : (full binary : List Char) → Prop where
  | top {full : List Char} (plain : undollar full = full) : Nests full full
  | member {full binary short : List Char} (outer : Nests full binary) (dotless : '.' ∉ short)
      (dollarless : '$' ∉ short) : Nests (full ++ '.' :: short) (binary ++ '$' :: short)

namespace Nests

theorem plain (nests : Nests full binary) : undollar full = full := by
  cases nests with
  | top plain => exact plain
  | member outer dotless dollarless =>
    simp [undollar, splitLast_append dotless, replaceChar_absent dollarless]

theorem undollar_binary (nests : Nests full binary) : undollar binary = full := by
  induction nests with
  | top plain => exact plain
  | @member full binary short outer dotless dollarless ih =>
    have tail : '.' ∉ '$' :: short := by simp [dotless]
    have read : replaceChar '$' '.' short = short := replaceChar_absent dollarless
    rw [undollar_append tail, ih]
    simpa [replaceChar] using read

end Nests

end Text

namespace ClassPath

open Text

variable {files : Assoc String ClassFile}

/-- Every candidate up to the binary name reads as the source name, so the first one that is the name of a
file is the name of the right file. -/
theorem findSome?_candidatesFrom (nests : Nests full binary)
    (dotless : '.' ∉ tail) (enough : full.length ≤ steps)
    (own : ∀ candidate found, undollar candidate = full ++ replaceChar '$' '.' tail →
      files.find? (String.ofList candidate) = some found → found = file)
    (stored : files.find? (String.ofList (binary ++ tail)) = some file) :
    ((candidatesFrom steps (full ++ tail)).map String.ofList).findSome? files.find? = some file := by
  induction nests generalizing tail steps with
  | top plain => cases steps <;> simp only [candidatesFrom, List.map_cons, List.findSome?_cons, stored]
  | @member full binary short outer simple dollarless ih =>
    obtain ⟨steps, rfl⟩ : ∃ n, steps = n + 1 := ⟨steps - 1, by simp at enough; omega⟩
    have plain : replaceChar '$' '.' short = short := replaceChar_absent dollarless
    have read : replaceChar '$' '.' ('$' :: short) = '.' :: short := by simpa [replaceChar] using plain
    have next : dollarLast (full ++ '.' :: short ++ tail) = some (full ++ ('$' :: short ++ tail)) := by
      simp [dollarLast, splitLast_append (show '.' ∉ short ++ tail by simp [simple, dotless])]
    have later : ((candidatesFrom steps (full ++ ('$' :: short ++ tail))).map String.ofList).findSome? files.find? =
        some file := by
      refine ih (by simp [simple, dotless]) (by simp at enough; omega) (fun candidate found same => ?_)
        (by simpa only [List.append_assoc] using stored)
      rw [replaceChar_append, read, ← List.append_assoc] at same
      exact own candidate found same
    rw [candidatesFrom, next, List.map_cons, List.findSome?_cons]
    cases hit : files.find? (String.ofList (full ++ '.' :: short ++ tail)) with
    | none => exact later
    | some found =>
      have same : undollar (full ++ '.' :: short ++ tail) = full ++ '.' :: short ++ replaceChar '$' '.' tail := by
        rw [undollar_append dotless, (outer.member simple dollarless).plain]
      rw [own _ found same hit]

variable {path : ClassPath} {given : List ClassFile}

theorem find?_binary (stored : path.files.find? name = some file) : path.find? name = some file := by
  unfold find? candidates
  cases name.toList.length <;> simp [candidatesFrom, stored]

theorem find?_nested (nests : Nests full.toList binary.toList)
    (own : ∀ candidate found, undollar candidate = full.toList →
      path.files.find? (String.ofList candidate) = some found → found = file)
    (stored : path.files.find? binary = some file) : path.find? full = some file := by
  have found : ((candidatesFrom full.toList.length (full.toList ++ [])).map String.ofList).findSome? path.files.find? =
      some file :=
    findSome?_candidatesFrom nests (by simp) (Nat.le_refl _) (by simpa [replaceChar] using own) (by simpa using stored)
  simpa [find?, candidates] using found

/-! ## Files that were put on the path -/

theorem mem_of_find?_foldl (hit : (given.foldl add path).files.find? name = some file) :
    file ∈ given ∧ file.name = name ∨ path.files.find? name = some file := by
  induction given generalizing path with
  | nil => exact .inr hit
  | cons first rest ih =>
    rcases ih hit with ⟨member, same⟩ | before
    · exact .inl ⟨List.mem_cons_of_mem _ member, same⟩
    · simp only [add, Assoc.find?_insert] at before
      split at before
      · rename_i same
        cases before
        exact .inl ⟨List.mem_cons_self, same.symm⟩
      · exact .inr before

theorem mem_of_find?_ofList (hit : (ofList given).files.find? name = some file) : file ∈ given ∧ file.name = name :=
  (mem_of_find?_foldl hit).resolve_right nofun

theorem isSome_find?_foldl (path : ClassPath) (kept : (path.files.find? name).isSome ∨ ∃ file ∈ given, file.name = name) :
    ((given.foldl add path).files.find? name).isSome := by
  induction given generalizing path with
  | nil => simpa using kept
  | cons first rest ih =>
    refine ih _ ?_
    simp only [add, Assoc.find?_insert]
    rcases kept with before | ⟨file, member, named⟩
    · refine .inl ?_
      split <;> simp [before]
    · rcases List.mem_cons.mp member with rfl | later
      · exact .inl (by simp [named])
      · exact .inr ⟨file, later, named⟩

theorem find?_ofList (distinct : ∀ a ∈ given, ∀ b ∈ given, a.name = b.name → a = b) (member : file ∈ given) :
    (ofList given).files.find? file.name = some file := by
  have present := isSome_find?_foldl {} (.inr ⟨file, member, rfl⟩)
  obtain ⟨found, hit⟩ := Option.isSome_iff_exists.mp present
  obtain ⟨listed, same⟩ := mem_of_find?_ofList hit
  rwa [distinct found listed file member same] at hit

/-! ## Packages of the path -/

theorem packageExists_iff : path.packageExists name ↔ ∃ key, (path.files.find? key).isSome ∧ isBelow name key := by
  simp only [packageExists, List.any_eq_true, Assoc.mem_keys]

theorem packageExists_of_below (below : isBelow above name) (present : path.packageExists name) :
    path.packageExists above := by
  obtain ⟨key, stored, deeper⟩ := packageExists_iff.mp present
  exact packageExists_iff.mpr ⟨key, stored, isBelow_trans below deeper⟩

end ClassPath

end ClassUniverse
