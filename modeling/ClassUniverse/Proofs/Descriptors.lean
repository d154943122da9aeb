import ClassUniverse.Descriptor
import ClassUniverse.Proofs.ClassPaths

/-! The grammar of descriptors. Reading accepts exactly the texts that the grammar derives, each for one list of
descriptors, and takes back what was written. -/
namespace ClassUniverse

theorem Primitive.ofLetter?_eq_some : ofLetter? c = some kind ↔ c = kind.letter := by
  constructor
  · intro found
    have same := List.find?_some found
    exact (beq_iff_eq.mp same).symm
  · rintro rfl
    cases kind <;> decide

/-- A text is cut at the first mark. -/
theorem Text.splitFirst_eq_some :
    splitFirst mark cs = some (before, after) ↔ cs = before ++ mark :: after ∧ mark ∉ before := by
  induction cs generalizing before with
  | nil => simp [splitFirst]
  | cons c cs ih =>
    by_cases same : c = mark
    · subst same
      cases before with
      | nil => simp [splitFirst, eq_comm]
      | cons b before => simpa [splitFirst] using fun first _ apart => absurd first apart
    · cases before with
      | nil => simp [splitFirst, same]
      | cons b before => simp [splitFirst, same, ih]; grind

namespace Descriptor

/-- The grammar: a letter, a class name between `L` and `;`, or `[` before a descriptor. Slashes are read as dots. -/
inductive Spells : Descriptor → List Char → Prop where
  | primitive (kind : Primitive) : Spells (.primitive kind) [kind.letter]
  | cls {name : List Char} (plain : ';' ∉ name) : Spells (.cls (dotted (String.ofList name))) ('L' :: name ++ [';'])
  | array {base : Descriptor} {text : List Char} (spells : Spells base text) : Spells (.array base) ('[' :: text)

/-- Descriptors one after the other. -/
inductive SpellsAll : List Descriptor → List Char → Prop where
  | nil : SpellsAll [] []
  | cons {d : Descriptor} {ds : List Descriptor} {text rest : List Char} (first : Spells d text)
      (others : SpellsAll ds rest) : SpellsAll (d :: ds) (text ++ rest)

variable {d : Descriptor}

theorem dims_array (base : Descriptor) (depth : Nat) : dims (.array base) depth = dims base (depth + 1) := by
  induction depth with
  | zero => rfl
  | succ depth ih => exact congrArg array ih

theorem Spells.dims (spells : Spells d text) (depth : Nat) : Spells (d.dims depth) (List.replicate depth '[' ++ text) := by
  induction depth with
  | zero => exact spells
  | succ depth ih => exact .array ih

/-- A reader of some depth has that many brackets behind it, and one in a name the letter and the characters seen. -/
theorem spellsAll_of_read (cs : List Char) :
    (∀ depth ds, readFrom depth cs = some ds → SpellsAll ds (List.replicate depth '[' ++ cs)) ∧
      ∀ depth seen ds, ';' ∉ seen → readFrom.readName depth seen cs = some ds →
        SpellsAll ds (List.replicate depth '[' ++ 'L' :: (seen.reverse ++ cs)) := by
  induction cs with
  | nil =>
    refine ⟨fun depth ds read => ?_, fun depth seen ds _ read => by simp [readFrom.readName] at read⟩
    cases depth with
    | zero =>
      cases read
      exact .nil
    | succ depth => simp [readFrom] at read
  | cons c rest ih =>
    obtain ⟨further, named⟩ := ih
    refine ⟨fun depth ds read => ?_, fun depth seen ds plain read => ?_⟩
    · rw [readFrom] at read
      split at read
      · rename_i bracket
        subst bracket
        simpa [List.replicate_succ'] using further (depth + 1) ds read
      · split at read
        · rename_i letter
          subst letter
          exact named depth [] ds (by simp) read
        · split at read
          · rename_i kind found
            obtain ⟨others, tail, rfl⟩ := Option.map_eq_some_iff.mp read
            cases Primitive.ofLetter?_eq_some.mp found
            simpa using SpellsAll.cons ((Spells.primitive kind).dims depth) (further 0 others tail)
          · cases read
    · unfold readFrom.readName at read
      split at read
      · rename_i mark
        subst mark
        obtain ⟨others, tail, rfl⟩ := Option.map_eq_some_iff.mp read
        have name : Spells _ ('L' :: seen.reverse ++ [';']) := .cls (by simpa using plain)
        simpa using SpellsAll.cons (name.dims depth) (further 0 others tail)
      · rename_i inside
        simpa using named depth (c :: seen) ds (by simp [plain, Ne.symm inside]) read

theorem readName_append (plain : ';' ∉ name) (depth : Nat) (seen rest : List Char) :
    readFrom.readName depth seen (name ++ ';' :: rest) =
      (readFrom 0 rest).map (dims (.cls (dotted (String.ofList (seen.reverse ++ name)))) depth :: ·) := by
  induction name generalizing seen with
  | nil => simp [readFrom.readName]
  | cons c name ih =>
    simp only [List.mem_cons, not_or] at plain
    obtain ⟨other, plain⟩ := plain
    simp [readFrom.readName, Ne.symm other, ih plain]

theorem Spells.read (spells : Spells d text) (depth : Nat) (rest : List Char) :
    readFrom depth (text ++ rest) = (readFrom 0 rest).map (d.dims depth :: ·) := by
  induction spells generalizing depth with
  | primitive kind =>
    have known := Primitive.ofLetter?_eq_some.mpr (rfl : kind.letter = kind.letter)
    have other : kind.letter ≠ '[' ∧ kind.letter ≠ 'L' := by cases kind <;> decide
    simp [readFrom, known, other]
  | cls plain =>
    have named := readName_append plain depth [] rest
    simpa [readFrom] using named
  | array _ ih => simpa [readFrom, dims_array] using ih (depth + 1)

theorem SpellsAll.read (spells : SpellsAll ds text) : readFrom 0 text = some ds := by
  induction spells with
  | nil => rfl
  | cons first _ ih => simp [first.read, ih, dims]

theorem readFrom_eq_some : readFrom 0 text = some ds ↔ SpellsAll ds text :=
  ⟨(spellsAll_of_read text).1 0 ds, SpellsAll.read⟩

theorem spellsAll_singleton : SpellsAll [d] text ↔ Spells d text := by
  constructor
  · rintro (_ | ⟨first, others⟩)
    cases others
    simpa using first
  · intro spells
    simpa using SpellsAll.cons spells .nil

theorem list_eq_ok {text : String} : list text = .ok ds ↔ SpellsAll ds text.toList := by
  unfold list
  rw [← readFrom_eq_some]
  cases readFrom 0 text.toList <;> simp

theorem field_eq_ok {text : String} : field text = .ok d ↔ Spells d text.toList := by
  unfold field
  rw [← spellsAll_singleton, ← readFrom_eq_some]
  split
  · simp [*]
  · rename_i several
    simpa using several d

theorem method_eq_ok {text : String} :
    method text = .ok (formals, result) ↔ ∃ inner outer, text.toList = '(' :: inner ++ ')' :: outer ∧ ')' ∉ inner ∧
      SpellsAll formals inner ∧ Spells result outer := by
  have parts (inner outer : List Char) :
      (do return (← list (String.ofList inner), ← field (String.ofList outer)) : Except String _) =
        .ok (formals, result) ↔ SpellsAll formals inner ∧ Spells result outer := by
    rw [← String.toList_ofList (l := inner), ← String.toList_ofList (l := outer), ← list_eq_ok, ← field_eq_ok]
    simp only [String.toList_ofList]
    cases list (String.ofList inner) <;> cases field (String.ofList outer) <;> simp [bind, Except.bind, pure, Except.pure]
  constructor
  · intro read
    unfold method at read
    split at read
    · rename_i rest opened
      split at read
      · rename_i inner outer cut
        obtain ⟨rfl, plain⟩ := Text.splitFirst_eq_some.mp cut
        exact ⟨inner, outer, opened, plain, (parts inner outer).mp read⟩
      · cases read
    · cases read
  · rintro ⟨inner, outer, whole, plain, spelled⟩
    have cut := Text.splitFirst_eq_some.mpr ⟨(rfl : inner ++ ')' :: outer = _), plain⟩
    simp only [method, whole, List.cons_append, cut]
    exact (parts inner outer).mpr spelled

/-- The text of a descriptor, with `separator` for the dots of class names. -/
def render (separator : Char) : Descriptor → List Char
  | .primitive kind => [kind.letter]
  | .cls name => 'L' :: Text.replaceChar '.' separator name.toList ++ [';']
  | .array base => '[' :: base.render separator

/-- No class name has the character. -/
def Avoids (c : Char) : Descriptor → Prop
  | .primitive _ => True
  | .cls name => c ∉ name.toList
  | .array base => base.Avoids c

section Written

variable (either : separator = '.' ∨ separator = '/')
include either

theorem not_mem_replaceChar (other : c ≠ '.' ∧ c ≠ '/') (absent : c ∉ cs) :
    c ∉ Text.replaceChar '.' separator cs := by
  intro member
  obtain ⟨given, listed, same⟩ := List.mem_map.mp member
  split at same
  · subst same
    rcases either with rfl | rfl <;> simp at other
  · exact absent (same ▸ listed)

theorem dotted_replaceChar (plain : '/' ∉ name.toList) :
    dotted (String.ofList (Text.replaceChar '.' separator name.toList)) = name := by
  have same (c : Char) (listed : c ∈ name.toList) :
      (if (if c = '.' then separator else c) = '/' then '.' else if c = '.' then separator else c) = c := by
    rcases either with rfl | rfl <;> grind
  have all : (name.toList.map fun c => if (if c = '.' then separator else c) = '/' then '.'
      else if c = '.' then separator else c) = name.toList := by
    rw [List.map_congr_left same, List.map_id']
  simp [dotted, Text.replaceChar, Function.comp_def, all]

theorem spells_render (closed : d.Avoids ';') (plain : d.Avoids '/') : Spells d (d.render separator) := by
  induction d with
  | primitive kind => exact .primitive kind
  | cls name =>
    have inside := not_mem_replaceChar either (c := ';') (by decide) closed
    simpa [Descriptor.render, dotted_replaceChar either plain] using Spells.cls inside
  | array base ih => exact .array (ih closed plain)

theorem spellsAll_render (named : ∀ d ∈ ds, d.Avoids ';' ∧ d.Avoids '/') :
    SpellsAll ds (ds.flatMap (render separator)) := by
  induction ds with
  | nil => exact .nil
  | cons d ds ih =>
    obtain ⟨⟨closed, plain⟩, others⟩ := List.forall_mem_cons.mp named
    exact .cons (spells_render either closed plain) (ih others)

theorem not_mem_render (open_ : d.Avoids ')') : ')' ∉ d.render separator := by
  induction d with
  | primitive kind => cases kind <;> simp [render, Primitive.letter]
  | cls name => simpa [render] using not_mem_replaceChar either (by decide) open_
  | array base ih => simpa [render] using ih open_

end Written

end Descriptor

open Descriptor

/-- Whatever the text: a list of descriptors is read from it exactly if the grammar derives it, and there is only one
such list; one descriptor, and parameters in parentheses with a result, likewise. So what was written is read back. -/
theorem descriptors_read_exactly :
    (∀ text : String,
      (∀ ds, Descriptor.list text = .ok ds ↔ SpellsAll ds text.toList) ∧
      (∀ ds others, SpellsAll ds text.toList → SpellsAll others text.toList → ds = others) ∧
      (∀ d, field text = .ok d ↔ Spells d text.toList) ∧
      ∀ formals result, method text = .ok (formals, result) ↔ ∃ inner outer,
        text.toList = '(' :: inner ++ ')' :: outer ∧ ')' ∉ inner ∧ SpellsAll formals inner ∧ Spells result outer) ∧
    ∀ separator : Char, separator = '.' ∨ separator = '/' →
      ∀ ds : List Descriptor, (∀ d ∈ ds, d.Avoids ';' ∧ d.Avoids '/') →
        Descriptor.list (String.ofList (ds.flatMap (render separator))) = .ok ds ∧
        ∀ result : Descriptor, result.Avoids ';' → result.Avoids '/' → (∀ d ∈ ds, d.Avoids ')') →
          method (String.ofList ('(' :: ds.flatMap (render separator) ++ ')' :: result.render separator)) =
            .ok (ds, result) := by
  refine ⟨fun text => ⟨fun ds => list_eq_ok, fun ds others first second => ?_, fun d => field_eq_ok,
    fun formals result => method_eq_ok⟩, fun separator either ds named => ⟨?_, fun result closed plain open_ => ?_⟩⟩
  · exact Option.some.inj (first.read.symm.trans second.read)
  · rw [list_eq_ok, String.toList_ofList]
    exact spellsAll_render either named
  · refine method_eq_ok.mpr ⟨_, _, String.toList_ofList, ?_, spellsAll_render either named,
      spells_render either closed plain⟩
    simpa using fun d listed => not_mem_render either (open_ d listed)

/-- Arrays of classes whose names have dots, and a result that has a parenthesis in its name. -/
theorem descriptors_read_exactly_arrays :
    let ds := [.array (.array (.cls "java.lang.String")), .primitive .void]
    let result := cls "p.C)"
    ((∀ d ∈ ds, d.Avoids ';' ∧ d.Avoids '/') ∧ (∀ d ∈ ds, d.Avoids ')') ∧ result.Avoids ';' ∧ result.Avoids '/') ∧
      ds.flatMap (render '/') = "[[Ljava/lang/String;V".toList ∧
      Descriptor.list "[[Ljava/lang/String;V" = .ok ds ∧ method "([[Ljava/lang/String;V)Lp/C);" = .ok (ds, result) := by
  intro ds result
  have named : ∀ d ∈ ds, d.Avoids ';' ∧ d.Avoids '/' := by simp [ds, Avoids]
  have open_ : ∀ d ∈ ds, d.Avoids ')' := by simp [ds, Avoids]
  have closed : result.Avoids ';' ∧ result.Avoids '/' := by simp [result, Avoids]
  obtain ⟨back, call⟩ := descriptors_read_exactly.2 '/' (.inr rfl) ds named
  exact ⟨⟨named, open_, closed⟩, by decide +kernel, back, call result closed.1 closed.2 open_⟩

end ClassUniverse
