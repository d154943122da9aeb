import ClassUniverse.Proofs.ClassPaths
import ClassUniverse.Proofs.Headers

/-! Binary names among the candidates of a source name. In a source name a dot stands before the name of each member class
of a nest, in the binary name a dollar sign; the candidates replace the last dots one after the other, so the binary name
comes up after as many of them as the class is deep in its nest. -/
namespace ClassUniverse

open Text

namespace ClassPath

variable {name : List Char}

/-! ## Rounds of the replacement -/

theorem length_candidatesFrom (enough : name.count '.' ≤ rounds) :
    (candidatesFrom rounds name).length = name.count '.' + 1 := by
  induction rounds generalizing name with
  | zero => simp [candidatesFrom, Nat.le_zero.mp enough]
  | succ rounds ih =>
    unfold candidatesFrom dollarLast
    cases cut : splitLast '.' name with
    | none => simp [List.count_eq_zero.mpr (splitLast_eq_none.mp cut)]
    | some parts =>
      obtain ⟨before, after⟩ := parts
      obtain ⟨rfl, last⟩ := eq_of_splitLast cut
      have dots : (before ++ '.' :: after).count '.' = (before ++ '$' :: after).count '.' + 1 := by
        simp [Nat.add_assoc]
      rw [dots] at enough ⊢
      simp [ih (Nat.le_of_succ_le_succ enough)]

/-- After as many rounds as `back` has dots, just these are replaced. -/
theorem getElem?_candidatesFrom (enough : (front ++ back).count '.' ≤ rounds) :
    (candidatesFrom rounds (front ++ back))[back.count '.']? = some (front ++ replaceChar '.' '$' back) := by
  induction dots : back.count '.' generalizing back rounds with
  | zero =>
    rw [replaceChar_absent (List.count_eq_zero.mp dots)]
    cases rounds <;> rfl
  | succ dots' ih =>
    cases cut : splitLast '.' back with
    | none => simp [List.count_eq_zero.mpr (splitLast_eq_none.mp cut)] at dots
    | some parts =>
      obtain ⟨before, after⟩ := parts
      obtain ⟨rfl, last⟩ := eq_of_splitLast cut
      obtain ⟨rounds, rfl⟩ : ∃ n, rounds = n + 1 := ⟨rounds - 1, by simp at enough; omega⟩
      have next : dollarLast (front ++ (before ++ '.' :: after)) = some (front ++ (before ++ '$' :: after)) := by
        rw [dollarLast, ← List.append_assoc, splitLast_append last]
        simp
      have same : replaceChar '.' '$' (before ++ '.' :: after) = replaceChar '.' '$' (before ++ '$' :: after) := by
        simp [replaceChar]
      rw [candidatesFrom, next, List.getElem?_cons_succ, same]
      exact ih (by simp at enough ⊢; omega) (by simp at dots ⊢; omega)

theorem exists_back (within : dots ≤ name.count '.') : ∃ front back, name = front ++ back ∧ back.count '.' = dots := by
  induction name with
  | nil => exact ⟨[], [], rfl, (Nat.le_zero.mp within).symm⟩
  | cons c name ih =>
    by_cases all : dots = (c :: name).count '.'
    · exact ⟨[], c :: name, rfl, all.symm⟩
    · obtain ⟨front, back, rfl, counted⟩ := ih (by rw [List.count_cons] at within all; split at within <;> simp_all; omega)
      exact ⟨c :: front, back, rfl, counted⟩

/-- `candidate` is `name` with its last dots, `dots` of them, replaced by dollar signs. -/
def Dollared (dots : Nat) (name candidate : List Char) : Prop :=
  ∃ front back, name = front ++ back ∧ back.count '.' = dots ∧ candidate = front ++ replaceChar '.' '$' back

theorem getElem?_candidatesFrom_iff (enough : name.count '.' ≤ rounds) :
    (candidatesFrom rounds name)[i]? = some candidate ↔ Dollared i name candidate := by
  constructor
  · intro hit
    obtain ⟨inside, _⟩ := List.getElem?_eq_some_iff.mp hit
    rw [length_candidatesFrom enough] at inside
    obtain ⟨front, back, rfl, rfl⟩ := exists_back (Nat.le_of_lt_succ inside)
    rw [getElem?_candidatesFrom enough] at hit
    exact ⟨front, back, rfl, rfl, (Option.some.inj hit).symm⟩
  · rintro ⟨front, back, rfl, rfl, rfl⟩
    exact getElem?_candidatesFrom enough

/-- The replacement stops by itself after as many rounds as there are dots. -/
theorem candidates_eq {name : String} (enough : name.toList.count '.' ≤ rounds) :
    candidates name = (candidatesFrom rounds name.toList).map String.ofList := by
  refine congrArg (List.map String.ofList) (List.ext_getElem? fun i => Option.ext fun candidate => ?_)
  rw [getElem?_candidatesFrom_iff List.count_le_length, getElem?_candidatesFrom_iff enough]

theorem getElem?_candidates {name candidate : String} :
    (candidates name)[i]? = some candidate ↔ Dollared i name.toList candidate.toList := by
  rw [← getElem?_candidatesFrom_iff List.count_le_length, candidates, List.getElem?_map, Option.map_eq_some_iff]
  constructor
  · rintro ⟨cs, hit, rfl⟩
    rwa [String.toList_ofList]
  · exact fun hit => ⟨_, hit, String.ofList_toList⟩

end ClassPath

/-! ## Names along a nest -/

namespace Arena

variable {arena : Arena}

theorem binaryNameWithin_succ (arena : Arena) (id : ClassId) (steps : Nat) : arena.binaryNameWithin (steps + 1) id =
    (arena.get id).fileName.or (match (arena.get id).kind with
      | .topLevel => some (arena.fullName id)
      | .memberOf outer => (arena.binaryNameWithin steps outer).map (· ++ "$" ++ (arena.get id).name)
      | _ => none) := by
  conv => lhs; unfold binaryNameWithin
  dsimp only
  cases (arena.get id).fileName <;> cases (arena.get id).kind <;> rfl

/-- The name of the file of a class from that of the class around it. -/
theorem Nested.binaryName?_eq (nested : arena.Nested) (id : ClassId) : arena.binaryName? id =
    (arena.get id).fileName.or (match (arena.get id).kind with
      | .topLevel => some (arena.fullName id)
      | .memberOf outer => (arena.binaryName? outer).map (· ++ "$" ++ (arena.get id).name)
      | _ => none) := by
  have enough {id : ClassId} {steps : Nat} (enough : id.index ≤ steps) :
      arena.binaryNameWithin steps id = arena.binaryName? id := by
    refine nested.enough (fun id alone => ?_) (fun steps id around => ?_) enough
    · unfold binaryNameWithin
      cases kind : (arena.get id).kind <;> simp_all [outer?, ClassKind.outer?]
    · rw [binaryNameWithin_succ, binaryNameWithin_succ]
      cases kind : (arena.get id).kind <;> simp_all [outer?, ClassKind.outer?]
  rw [← enough (Nat.le_succ id.index), binaryNameWithin_succ]
  cases kind : (arena.get id).kind with
  | memberOf outer => simp only [enough (Nat.le_of_lt (nested.outer_lt (outer?_of_kind kind rfl)))]
  | _ => rfl

/-- A member class `depth` levels below a top-level class: the names of the member classes have no dot, and no class on the
way has the name of its file recorded. -/
inductive MemberAt (arena : Arena) : (depth : Nat) → ClassId → Prop where
  | top {id : ClassId} (kind : (arena.get id).kind = .topLevel) (unfiled : (arena.get id).fileName = none) : arena.MemberAt 0 id
  | member {id outer : ClassId} {depth : Nat} (kind : (arena.get id).kind = .memberOf outer)
      (unfiled : (arena.get id).fileName = none) (simple : isShortName (arena.get id).name)
      (around : arena.MemberAt depth outer) : arena.MemberAt (depth + 1) id

theorem MemberAt.dollared {id : ClassId} (nested : arena.Nested) (at_ : arena.MemberAt depth id) : ∃ binary,
    arena.binaryName? id = some binary ∧ ClassPath.Dollared depth (arena.fullName id).toList binary.toList := by
  induction at_ with
  | @top id kind unfiled =>
    refine ⟨arena.fullName id, ?_, (arena.fullName id).toList, [], by simp, rfl, by simp [replaceChar]⟩
    rw [nested.binaryName?_eq, unfiled, kind, Option.none_or]
  | @member id outer depth kind unfiled simple around ih =>
    obtain ⟨binary, named, front, back, whole, counted, replaced⟩ := ih
    have plain : '.' ∉ (arena.get id).name.toList := not_mem_of_isShortName simple
    refine ⟨binary ++ "$" ++ (arena.get id).name, ?_, front, back ++ '.' :: (arena.get id).name.toList, ?_, ?_, ?_⟩
    · rw [nested.binaryName?_eq, unfiled, kind]
      simp only [Option.none_or, named, Option.map_some]
    · rw [fullName_memberOf nested kind, toList_qualify, whole, List.append_assoc]
    · simp [counted, List.count_eq_zero.mpr plain]
    · have same : replaceChar '.' '$' (arena.get id).name.toList = (arena.get id).name.toList := replaceChar_absent plain
      simpa [replaced, replaceChar] using same.symm

end Arena

open ClassPath in
/-- The binary name of a member class is the candidate of its source name at the depth of the class, so what is found under
the source name is the file of the class, unless a candidate with fewer dollar signs is the name of a file. -/
theorem binary_name_among_candidates {arena : Arena} (nested : arena.Nested) :
    (∀ name : String,
      (∀ rounds, name.toList.count '.' ≤ rounds →
        (candidatesFrom rounds name.toList).map String.ofList = candidates name) ∧
      (candidates name).length = name.toList.count '.' + 1 ∧ (candidates name)[0]? = some name ∧
      ∀ i candidate, (candidates name)[i]? = some candidate ↔ Dollared i name.toList candidate.toList) ∧
    ∀ depth id, arena.MemberAt depth id → ∃ binary, arena.binaryName? id = some binary ∧
      (candidates (arena.fullName id))[depth]? = some binary ∧
      ∀ (path : ClassPath) (file : ClassFile), path.files.find? binary = some file →
        path.find? (arena.fullName id) =
          (((candidates (arena.fullName id)).take depth).findSome? path.files.find?).or (some file) := by
  refine ⟨fun name => ⟨fun rounds enough => (candidates_eq enough).symm, ?_, ?_, fun _ _ => getElem?_candidates⟩,
    fun depth id at_ => ?_⟩
  · rw [candidates, List.length_map, length_candidatesFrom List.count_le_length]
  · exact getElem?_candidates.mpr ⟨name.toList, [], by simp, rfl, by simp [replaceChar]⟩
  · obtain ⟨binary, named, dollared⟩ := at_.dollared nested
    have place := getElem?_candidates.mpr dollared
    refine ⟨binary, named, place, fun path file stored => ?_⟩
    obtain ⟨inside, hit⟩ := List.getElem?_eq_some_iff.mp place
    have split : candidates (arena.fullName id) =
        (candidates (arena.fullName id)).take depth ++ binary :: (candidates (arena.fullName id)).drop (depth + 1) := by
      rw [← hit, List.getElem_cons_drop, List.take_append_drop]
    unfold find?
    conv => lhs; rw [split]
    rw [List.findSome?_append, List.findSome?_cons, stored]

/-- A class two levels below the class of its package, with a dollar sign in a name of its own. -/
theorem binary_name_among_candidates_two :
    let arena : Arena := ⟨#[{ name := "C", package := some ⟨"p"⟩ }, { name := "I$", kind := .memberOf ⟨0⟩ },
      { name := "J", kind := .memberOf ⟨1⟩ }]⟩
    let file : ClassFile := { name := "p.C$I$$J" }
    arena.Nested ∧ arena.MemberAt 2 ⟨2⟩ ∧ (ClassPath.ofList [file]).find? "p.C.I$.J" = some file := by
  intro arena file
  have nested : arena.Nested := by decide
  have at_ : arena.MemberAt 2 ⟨2⟩ := .member rfl rfl (by decide) (.member rfl rfl (by decide) (.top rfl rfl))
  have full : arena.fullName ⟨2⟩ = "p.C.I$.J" := by decide +kernel
  obtain ⟨binary, named, _, found⟩ := (binary_name_among_candidates nested).2 2 ⟨2⟩ at_
  have same : arena.binaryName? ⟨2⟩ = some file.name := by decide +kernel
  obtain rfl : file.name = binary := Option.some.inj (same.symm.trans named)
  have earlier : (((ClassPath.candidates "p.C.I$.J").take 2).findSome? (ClassPath.ofList [file]).files.find?).isNone := by
    decide +kernel
  refine ⟨nested, at_, ?_⟩
  rw [← full, found (.ofList [file]) file rfl, full, Option.isNone_iff_eq_none.mp earlier, Option.none_or]

end ClassUniverse
