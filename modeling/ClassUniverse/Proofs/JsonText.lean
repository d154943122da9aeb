import ClassUniverse.Json.Parser
import ClassUniverse.Json.Printer
import Mathlib.Tactic.SplitIfs

/-! Reading takes printed text back to its value. Numbers apart, the printed form of a value shows where it
ends, so that whatever follows it is left alone. -/
namespace ClassUniverse.Json

/-! ## Strings -/

theorem hexValue?_hexDigit (small : n < 16) : hexValue? (hexDigit n) = some n := by
  revert n
  decide

theorem not_surrogate (c : Char) : isLowSurrogate c.toNat = false ∧ isHighSurrogate c.toNat = false := by
  have valid := c.valid
  have code : c.toNat = c.val.toNat := rfl
  simp only [isLowSurrogate, isHighSurrogate, code, Bool.and_eq_false_iff, decide_eq_false_iff_not]
  omega

theorem ofUnits?_codes (cs : List Char) : ofUnits? (cs.map Char.toNat) = some cs := by
  induction cs with
  | nil => rfl
  | cons c rest ih =>
    obtain ⟨low, high⟩ := not_surrogate c
    rw [List.map_cons, ofUnits?.eq_def]
    simp [low, high, ih]

theorem text?_codes (text : String) : text? (text.toList.map Char.toNat) = some text := by
  simp [text?, ofUnits?_codes]

theorem readString_escapeChar (steps : Nat) (c : Char) (rest : List Char) :
    readString (steps + 1) (escapeChar c ++ rest) =
      (readString steps rest).map fun (units, rest) => (c.toNat :: units, rest) := by
  have control (small : c.toNat < 0x20) : readEscape ('u' :: '0' :: '0' :: hexDigit (c.toNat / 16) ::
      hexDigit (c.toNat % 16) :: rest) = some (c.toNat, rest) := by
    have high : hexValue? (hexDigit (c.toNat / 16)) = some (c.toNat / 16) := hexValue?_hexDigit (by omega)
    have low : hexValue? (hexDigit (c.toNat % 16)) = some (c.toNat % 16) := hexValue?_hexDigit (by omega)
    have zero : hexValue? '0' = some 0 := rfl
    simp only [readEscape, readUnit, high, low, zero, bind, Option.bind]
    congr 2
    omega
  unfold escapeChar
  split_ifs with quote slash newline ret tab back feed small
  all_goals try (subst c; cases read : readString steps rest <;> simp [readString, readEscape, read])
  · cases read : readString steps rest <;> simp [readString, control small, read]
  · cases read : readString steps rest <;> simp [readString, quote, slash, small, read]

theorem readString_escape (cs rest : List Char) (enough : cs.length < steps) :
    readString steps (escape cs ++ '"' :: rest) = some (cs.map Char.toNat, rest) := by
  induction cs generalizing steps with
  | nil =>
    obtain ⟨steps, rfl⟩ := Nat.exists_eq_succ_of_ne_zero (Nat.ne_of_gt enough)
    simp [escape, readString]
  | cons c cs ih =>
    obtain ⟨steps, rfl⟩ := Nat.exists_eq_succ_of_ne_zero (Nat.ne_of_gt (Nat.zero_lt_of_lt enough))
    have tail := ih (Nat.lt_of_succ_lt_succ enough)
    simp only [escape, List.flatMap_cons, List.append_assoc] at tail ⊢
    simp [readString_escapeChar, tail]

theorem length_escapeChar_pos (c : Char) : 0 < (escapeChar c).length := by
  unfold escapeChar
  split_ifs <;> simp

theorem length_le_escape (cs : List Char) : cs.length ≤ (escape cs).length := by
  induction cs with
  | nil => exact Nat.le_refl 0
  | cons c cs ih =>
    have first := length_escapeChar_pos c
    simp only [escape, List.flatMap_cons, List.length_append, List.length_cons] at ih ⊢
    omega

/-- The rest of a printed string, after its opening quote. -/
theorem readString_printed (text : String) (rest : List Char) :
    readString ((escape text.toList ++ '"' :: rest).length + 1) (escape text.toList ++ '"' :: rest) =
      some (text.toList.map Char.toNat, rest) := by
  have short := length_le_escape text.toList
  apply readString_escape
  simp only [List.length_append, List.length_cons]
  omega

/-! ## Values -/

/-- Values without numbers and without strings that denote no text. -/
inductive Plain : Json → Prop
  | null : Plain .null
  | bool (value : Bool) : Plain (.bool value)
  | string (text : String) : Plain (.string text)
  | array (items : List Json) : (∀ item ∈ items, Plain item) → Plain (.array items)
  | object (members : List (String × Json)) : (∀ member ∈ members, Plain member.2) → Plain (.object members)

/-- Reading takes the printed form of the value off the front of any text. -/
def Reads (json : Json) : Prop :=
  ∀ steps rest, json.renderChars.length ≤ steps → readValue steps (json.renderChars ++ rest) = some (json, rest)

theorem skipGap_cons (apart : isGap c = false) (rest : List Char) : skipGap (c :: rest) = c :: rest := by
  simp [skipGap, apart]

/-- The first character of a printed value is neither white space nor a closing bracket. -/
theorem Plain.renderChars_cons {json : Json} (plain : json.Plain) :
    ∃ c rest, json.renderChars = c :: rest ∧ isGap c = false ∧ c ≠ ']' := by
  cases plain with
  | null => exact ⟨'n', _, rfl, rfl, by decide⟩
  | bool value => cases value <;> exact ⟨_, _, rfl, rfl, by decide⟩
  | string text => exact ⟨'"', escape text.toList ++ ['"'], by simp [renderChars, renderString], rfl, by decide⟩
  | array items => exact ⟨'[', renderItems items ++ [']'], by simp [renderChars], rfl, by decide⟩
  | object members => exact ⟨'\x7b', renderMembers members ++ ['\x7d'], by simp [renderChars], rfl, by decide⟩

theorem renderItems_cons (plain : ∀ other ∈ item :: items, other.Plain) :
    ∃ c rest, renderItems (item :: items) = c :: rest ∧ isGap c = false ∧ c ≠ ']' := by
  obtain ⟨c, rest, shape, noGap, inner⟩ := (plain item (by simp)).renderChars_cons
  cases items with
  | nil => exact ⟨c, rest, by simp [renderItems, shape], noGap, inner⟩
  | cons next items => exact ⟨c, _, by simp [renderItems, shape]; rfl, noGap, inner⟩

theorem renderMembers_cons (member : String × Json) (members : List (String × Json)) :
    ∃ rest, renderMembers (member :: members) = '"' :: rest := by
  cases members with
  | nil => exact ⟨_, by simp [renderMembers, renderString]; rfl⟩
  | cons next members => exact ⟨_, by simp [renderMembers, renderString]; rfl⟩

theorem readItems_printed (plain : ∀ other ∈ item :: items, other.Plain)
    (reads : ∀ other ∈ item :: items, other.Reads)
    (enough : (renderItems (item :: items)).length < steps) (rest : List Char) :
    readItems steps (renderItems (item :: items) ++ ']' :: rest) = some (item :: items, rest) := by
  induction items generalizing item steps with
  | nil =>
    obtain ⟨steps, rfl⟩ := Nat.exists_eq_succ_of_ne_zero (Nat.ne_of_gt (Nat.zero_lt_of_lt enough))
    have first := reads item (by simp) steps (']' :: rest) (by simp only [renderItems] at enough; omega)
    simp [renderItems, readItems, first, skipGap_cons (c := ']') rfl]
  | cons next items ih =>
    obtain ⟨steps, rfl⟩ := Nat.exists_eq_succ_of_ne_zero (Nat.ne_of_gt (Nat.zero_lt_of_lt enough))
    have size : (renderItems (item :: next :: items)).length =
        item.renderChars.length + (renderItems (next :: items)).length + 1 := by
      simp [renderItems]
      omega
    have first := reads item (by simp) steps (',' :: (renderItems (next :: items) ++ ']' :: rest)) (by omega)
    have later := ih (fun other member => plain other (List.mem_cons_of_mem _ member))
      (fun other member => reads other (List.mem_cons_of_mem _ member)) (show _ < steps by omega)
    simp [renderItems, readItems, first, later, skipGap_cons (c := ',') rfl]

theorem readMembers_printed
    (plain : ∀ other ∈ member :: members, other.2.Plain) (reads : ∀ other ∈ member :: members, other.2.Reads)
    (enough : (renderMembers (member :: members)).length < steps) (rest : List Char) :
    readMembers steps (renderMembers (member :: members) ++ '\x7d' :: rest) = some (some (member :: members), rest) := by
  induction members generalizing member steps with
  | nil =>
    obtain ⟨steps, rfl⟩ := Nat.exists_eq_succ_of_ne_zero (Nat.ne_of_gt (Nat.zero_lt_of_lt enough))
    have value := reads member (by simp) steps ('\x7d' :: rest)
      (by simp only [renderMembers, List.length_append, List.length_cons] at enough; omega)
    have key := readString_printed member.1 (':' :: (member.2.renderChars ++ '\x7d' :: rest))
    simp only [renderMembers, renderString, List.append_assoc, List.cons_append, List.nil_append, readMembers,
      skipGap_cons (c := '"') rfl, key, bind, Option.bind, skipGap_cons (c := ':') rfl, value,
      skipGap_cons (c := '\x7d') rfl, text?_codes]
    rfl
  | cons next members ih =>
    obtain ⟨steps, rfl⟩ := Nat.exists_eq_succ_of_ne_zero (Nat.ne_of_gt (Nat.zero_lt_of_lt enough))
    have size : (renderMembers (member :: next :: members)).length = (renderString member.1).length +
        member.2.renderChars.length + (renderMembers (next :: members)).length + 2 := by
      simp [renderMembers]
      omega
    have value := reads member (by simp) steps (',' :: (renderMembers (next :: members) ++ '\x7d' :: rest)) (by omega)
    have key := readString_printed member.1
      (':' :: (member.2.renderChars ++ ',' :: (renderMembers (next :: members) ++ '\x7d' :: rest)))
    have later := ih (fun other listed => plain other (List.mem_cons_of_mem _ listed))
      (fun other listed => reads other (List.mem_cons_of_mem _ listed)) (show _ < steps by omega)
    simp only [renderMembers, renderString, List.append_assoc, List.cons_append, List.nil_append, readMembers,
      skipGap_cons (c := '"') rfl, key, bind, Option.bind, skipGap_cons (c := ':') rfl, value,
      skipGap_cons (c := ',') rfl, later, text?_codes]
    rfl

theorem Plain.reads {json : Json} (plain : json.Plain) : json.Reads := by
  induction plain with
  | null =>
    rintro (_ | steps) rest enough
    · simp [renderChars] at enough
    · simp [renderChars, readValue, skipGap_cons (c := 'n') rfl]
  | bool value =>
    rintro (_ | steps) rest enough
    · cases value <;> simp [renderChars] at enough
    · cases value
      · simp [renderChars, readValue, skipGap_cons (c := 'f') rfl]
      · simp [renderChars, readValue, skipGap_cons (c := 't') rfl]
  | string text =>
    rintro (_ | steps) rest enough
    · simp [renderChars, renderString] at enough
    · have read := readString_printed text rest
      simp only [renderChars, renderString, List.cons_append, List.append_assoc, List.nil_append, readValue,
        skipGap_cons (c := '"') rfl, read, bind, Option.bind, text?_codes]
      rfl
  | array items plain ih =>
    rintro (_ | steps) rest enough
    · simp [renderChars] at enough
    cases items with
    | nil => simp [renderChars, renderItems, readValue, skipGap_cons (c := '[') rfl, skipGap_cons (c := ']') rfl]
    | cons item items =>
      have shorter : (renderItems (item :: items)).length < steps := by
        simp only [renderChars, List.length_append, List.length_cons, List.length_nil] at enough
        omega
      have read := readItems_printed plain ih shorter rest
      obtain ⟨c, tail, first, noGap, inner⟩ := renderItems_cons plain
      rw [first, List.cons_append] at read
      simp [renderChars, readValue, skipGap_cons (c := '[') rfl, first, skipGap_cons noGap, inner, read]
  | object members plain ih =>
    rintro (_ | steps) rest enough
    · simp [renderChars] at enough
    cases members with
    | nil =>
      simp [renderChars, renderMembers, readValue, skipGap_cons (c := '\x7b') rfl, skipGap_cons (c := '\x7d') rfl]
    | cons member members =>
      have shorter : (renderMembers (member :: members)).length < steps := by
        simp only [renderChars, List.length_append, List.length_cons, List.length_nil] at enough
        omega
      have read := readMembers_printed plain ih shorter rest
      obtain ⟨tail, first⟩ := renderMembers_cons member members
      rw [first, List.cons_append] at read
      simp [renderChars, readValue, skipGap_cons (c := '\x7b') rfl, first, skipGap_cons (c := '"') rfl, read]

theorem parse?_render (plain : json.Plain) : parse? json.render = some json := by
  have read := plain.reads (json.renderChars.length + 1) [] (Nat.le_succ _)
  simp only [List.append_nil] at read
  simp [parse?, render, read, skipGap]

end ClassUniverse.Json
