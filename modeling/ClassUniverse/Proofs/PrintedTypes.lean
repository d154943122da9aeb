import ClassUniverse.Arena
import ClassUniverse.Text.Written
import Mathlib.Data.List.Induction

/-! Printed types are read back: the base and the dimensions of a type are told from its text. The text of
a version is compatible with it. -/
namespace ClassUniverse

namespace Text

variable {cs : List Char}

/-- No white space at either end. -/
structure Tight (cs : List Char) : Prop where
  first : ∀ c, cs.head? = some c → isBlank c = false
  last : ∀ c, cs.getLast? = some c → isBlank c = false

theorem Tight.of_ends (first : cs.head?.all fun c => !isBlank c) (last : cs.getLast?.all fun c => !isBlank c) :
    Tight cs := by
  refine ⟨fun c start => ?_, fun c final => ?_⟩
  · simpa [start] using first
  · simpa [final] using last

theorem trimStart_eq (first : ∀ c, cs.head? = some c → isBlank c = false) : trimStart cs = cs := by
  cases cs with
  | nil => rfl
  | cons c cs => simp [trimStart, first c rfl]

theorem trimEnd_eq (last : ∀ c, cs.getLast? = some c → isBlank c = false) : trimEnd cs = cs := by
  have reversed : trimStart cs.reverse = cs.reverse := trimStart_eq (by simpa using last)
  rw [trimEnd, ← trimStart, reversed, List.reverse_reverse]

theorem Tight.trim (tight : Tight cs) : trim cs = cs := by
  rw [Text.trim, trimStart_eq tight.first, trimEnd_eq tight.last]

/-- A base with dimensions behind it, each with what stands before and after it. -/
def spaced (base : List Char) (gaps : List (List Char × List Char)) : List Char :=
  base ++ gaps.flatMap fun gap => gap.1 ++ '[' :: ']' :: gap.2

def bracketed (base : List Char) (dims : Nat) : List Char := spaced base (List.replicate dims ([], []))

/-- White space only. -/
def Blank (cs : List Char) : Prop := ∀ c ∈ cs, isBlank c = true

variable {base : List Char} {gaps : List (List Char × List Char)}

theorem trimEnd_append (blank : Blank tail) (cs : List Char) : trimEnd (cs ++ tail) = trimEnd cs := by
  simp only [trimEnd, List.reverse_append]
  rw [List.dropWhile_append_of_pos (by simpa [Blank] using blank)]

/-- Only the white space after the last dimension is taken off. -/
theorem trimEnd_spaced (blank : Blank after) :
    trimEnd (spaced base (gaps ++ [(before, after)])) = spaced base gaps ++ before ++ ['[', ']'] := by
  have whole : spaced base (gaps ++ [(before, after)]) = (spaced base gaps ++ before ++ ['[', ']']) ++ after := by
    simp [spaced]
  rw [whole, trimEnd_append blank, trimEnd_eq]
  intro c last
  have closing : c = ']' := by simpa using last.symm
  rw [closing]
  decide

/-- The dimensions are counted off one by one, the last one first. -/
theorem splitDimsFrom_spaced (last : ∀ c, base.getLast? = some c → isBlank c = false)
    (closed : ∀ rest, base ≠ rest ++ ['[', ']']) (blank : ∀ gap ∈ gaps, Blank gap.1 ∧ Blank gap.2)
    (enough : (trimEnd (spaced base gaps)).length ≤ steps) :
    splitDimsFrom steps (trimEnd (spaced base gaps)) = (base, gaps.length) := by
  induction gaps using List.reverseRecOn generalizing steps with
  | nil =>
    have none : stripDim base = none := by
      unfold stripDim
      split
      · rename_i rest reversed
        exact absurd (List.reverse_eq_iff.mp reversed) (by simpa using closed rest.reverse)
      · rfl
    have same : trimEnd (spaced base []) = base := by simpa [spaced] using trimEnd_eq last
    cases steps <;> simp [same, splitDimsFrom, none]
  | append_singleton gaps gap ih =>
    obtain ⟨earlier, ⟨before, after⟩⟩ := List.forall_mem_append.mp blank |>.imp_right (by simpa using ·)
    rw [trimEnd_spaced after] at enough ⊢
    have inner : trimEnd (spaced base gaps ++ gap.1) = trimEnd (spaced base gaps) := trimEnd_append before _
    have stripped : stripDim (spaced base gaps ++ gap.1 ++ ['[', ']']) = some (trimEnd (spaced base gaps)) := by
      simp [stripDim, ← inner]
    have shorter : (trimEnd (spaced base gaps)).length ≤ (spaced base gaps).length := by
      have kept : ((spaced base gaps).reverse.dropWhile isBlank).Sublist _ := List.dropWhile_sublist isBlank
      simpa [trimEnd] using kept.length_le
    simp only [List.length_append, List.length_cons, List.length_nil] at enough
    obtain ⟨steps, rfl⟩ : ∃ fewer, steps = fewer + 1 := ⟨steps - 1, by omega⟩
    rw [splitDimsFrom, stripped]
    simp [ih earlier (show _ ≤ steps by omega)]

/-- White space before the text is taken off; without a base it reaches to the first dimension. -/
theorem trimStart_spaced (first : ∀ c, base.head? = some c → isBlank c = false)
    (blank : ∀ gap ∈ gaps, Blank gap.1 ∧ Blank gap.2) (leading : Blank lead) :
    ∃ others, others.length = gaps.length ∧ (∀ gap ∈ others, Blank gap.1 ∧ Blank gap.2) ∧
      trimStart (lead ++ spaced base gaps) = spaced base others := by
  have skipped : trimStart (lead ++ spaced base gaps) = trimStart (spaced base gaps) :=
    List.dropWhile_append_of_pos leading
  rw [skipped]
  cases base with
  | cons c rest => exact ⟨gaps, rfl, blank, by simp [spaced, trimStart, first c rfl]⟩
  | nil =>
    cases gaps with
    | nil => exact ⟨[], rfl, blank, rfl⟩
    | cons gap gaps =>
      obtain ⟨⟨before, after⟩, others⟩ := List.forall_mem_cons.mp blank
      refine ⟨([], gap.2) :: gaps, rfl, List.forall_mem_cons.mpr ⟨⟨by simp [Blank], after⟩, others⟩, ?_⟩
      have cut : (gap.1 ++ '[' :: ']' :: gap.2 ++ gaps.flatMap fun gap => gap.1 ++ '[' :: ']' :: gap.2).dropWhile isBlank =
          '[' :: ']' :: gap.2 ++ gaps.flatMap fun gap => gap.1 ++ '[' :: ']' :: gap.2 := by
        rw [List.append_assoc, List.dropWhile_append_of_pos before]
        rfl
      simpa [spaced, trimStart] using cut

end Text

/-- What a type's base must be like for its text to be read back. -/
structure PlainName (name : String) : Prop where
  tight : Text.Tight name.toList
  closed : ∀ rest, name.toList ≠ rest ++ ['[', ']']

theorem PlainName.of_last {name : String} (tight : Text.Tight name.toList) (last : name.toList.getLast? ≠ some ']') :
    PlainName name := ⟨tight, fun rest whole => last (by simp [whole])⟩

theorem splitDims_spaced {name : String} (plain : PlainName name) {gaps : List (List Char × List Char)}
    (blank : ∀ gap ∈ gaps, Text.Blank gap.1 ∧ Text.Blank gap.2) (leading : Text.Blank lead) :
    splitDims (String.ofList (lead ++ Text.spaced name.toList gaps)) = (name, gaps.length) := by
  obtain ⟨others, same, blank, trimmed⟩ := Text.trimStart_spaced plain.tight.first blank leading
  have read := Text.splitDimsFrom_spaced plain.tight.last plain.closed blank (Nat.le_refl _)
  simp [splitDims, Text.trim, trimmed, read, same]

theorem splitDims_bracketed {name : String} (plain : PlainName name) (dims : Nat) :
    splitDims (String.ofList (Text.bracketed name.toList dims)) = (name, dims) := by
  have blank : ∀ gap ∈ List.replicate dims (([], []) : List Char × List Char), Text.Blank gap.1 ∧ Text.Blank gap.2 := by
    simp +contextual [Text.Blank, List.mem_replicate]
  simpa [Text.bracketed] using splitDims_spaced plain blank (show Text.Blank [] by simp [Text.Blank])

theorem Arena.typeName_arrayOf (arena : Arena) (base : Ty) (dims : Nat) :
    arena.typeName (.arrayOf base dims) = String.ofList (Text.bracketed (arena.typeName base).toList dims) := by
  induction dims with
  | zero => simp [Ty.arrayOf, Text.bracketed, Text.spaced]
  | succ dims ih =>
    simp [Ty.arrayOf, typeName, ih, Text.bracketed, Text.spaced, List.replicate_succ', String.ofList_append,
      String.append_assoc]

theorem Primitive.plainName (kind : Primitive) : PlainName kind.name := by
  cases kind <;> exact .of_last (.of_ends (by decide) (by decide)) (by decide)

theorem plainName_null : PlainName "null" := .of_last (.of_ends (by decide) (by decide)) (by decide)

theorem Primitive.ofName?_name (kind : Primitive) : ofName? kind.name = some kind := by
  cases kind <;> decide

theorem Text.parts_append (absent : mark ∉ part) (rest : List Char) :
    parts mark (part ++ mark :: rest) = part :: parts mark rest := by
  induction part with
  | nil => simp [parts]
  | cons c part ih =>
    simp only [List.mem_cons, not_or] at absent
    simp [parts, Ne.symm absent.1, ih absent.2]

theorem not_isBlank_of_isDigit {c : Char} (digit : c.isDigit) : Text.isBlank c = false := by
  simp only [Char.isDigit, Bool.and_eq_true, decide_eq_true_eq, UInt32.le_iff_toNat_le] at digit
  have low : 48 ≤ c.toNat := digit.1
  have high : c.toNat ≤ 57 := digit.2
  simp only [Text.isBlank, Text.blankRanges, List.any_cons, List.any_nil, Bool.or_false, Bool.or_eq_false_iff,
    Bool.and_eq_false_iff, decide_eq_false_iff_not]
  omega

namespace Version

theorem isDigit_of_mem_digits {c : Char} (member : c ∈ Nat.toDigits 10 n) : c.isDigit :=
  Nat.isDigit_of_mem_toDigits (by decide) (by decide) member

theorem number?_digits (n : UInt32) : number? (Nat.toDigits 10 n.toNat) = some n := by
  have value : (Nat.toDigits 10 n.toNat).foldl (fun value c => value * 10 + (c.toNat - '0'.toNat)) 0 = n.toNat := by
    have read := @Nat.ofDigitChars_ten_toDigits n.toNat
    rw [Nat.ofDigitChars_eq_foldl] at read
    simpa only [Nat.mul_comm 10] using read
  have digits (c : Char) : c ∈ Nat.toDigits 10 n.toNat → c.isDigit := isDigit_of_mem_digits
  unfold number?
  split
  · rename_i rest signed
    exact absurd (digits '+' (by simp [signed])) (by decide)
  · simp only [value]
    simp [List.all_eq_true.mpr digits, n.toNat_lt]

theorem toList_text (v : Version) : v.text.toList = Nat.toDigits 10 v.major.toNat ++ '.' ::
    (Nat.toDigits 10 v.minor.toNat ++ '.' :: Nat.toDigits 10 v.patch.toNat) := by
  simp [text, Nat.repr_eq_ofList_toDigits]

theorem tight_text (v : Version) : Text.Tight v.text.toList := by
  have solid : ∀ c ∈ v.text.toList, Text.isBlank c = false := by
    intro c member
    simp only [toList_text, List.mem_append, List.mem_cons] at member
    rcases member with digit | rfl | digit | rfl | digit
    · exact not_isBlank_of_isDigit (isDigit_of_mem_digits digit)
    · decide
    · exact not_isBlank_of_isDigit (isDigit_of_mem_digits digit)
    · decide
    · exact not_isBlank_of_isDigit (isDigit_of_mem_digits digit)
  exact ⟨fun c first => solid c (List.mem_of_head? first), fun c last => solid c (List.mem_of_getLast? last)⟩

theorem check_text (v : Version) : v.check v.text = .compatible := by
  have dotless (n : Nat) : '.' ∉ Nat.toDigits 10 n := fun member => absurd (isDigit_of_mem_digits member) (by decide)
  unfold check
  rw [v.tight_text.trim, toList_text, Text.parts_append (dotless _), Text.parts_append (dotless _)]
  simp [number?_digits]

end Version

end ClassUniverse
