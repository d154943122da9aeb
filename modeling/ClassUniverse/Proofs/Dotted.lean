import ClassUniverse.Source

/-! Names and their parts: where a qualified name is cut, and what lies below a package. -/
namespace ClassUniverse

namespace Text

theorem splitLast_eq_none : splitLast mark cs = none ↔ mark ∉ cs := by
  induction cs with
  | nil => simp [splitLast]
  | cons c cs ih =>
    unfold splitLast
    cases tail : splitLast mark cs with
    | some parts => simp_all
    | none =>
      have absent := ih.mp tail
      by_cases same : c = mark
      · simp [same]
      · simp [same, absent, Ne.symm same]

theorem splitLast_append (absent : mark ∉ after) (before : List Char) :
    splitLast mark (before ++ mark :: after) = some (before, after) := by
  induction before with
  | nil => simp [splitLast, splitLast_eq_none.mpr absent]
  | cons c before ih => simp [splitLast, ih]

theorem eq_of_splitLast (cut : splitLast mark cs = some (before, after)) :
    cs = before ++ mark :: after ∧ mark ∉ after := by
  induction cs generalizing before with
  | nil => cases cut
  | cons c cs ih =>
    unfold splitLast at cut
    cases tail : splitLast mark cs with
    | some parts =>
      simp only [tail, Option.some.injEq, Prod.mk.injEq] at cut
      obtain ⟨rfl, rfl⟩ := cut
      obtain ⟨rfl, absent⟩ := ih tail
      exact ⟨rfl, absent⟩
    | none =>
      simp only [tail] at cut
      split at cut
      · rename_i same
        obtain ⟨rfl, rfl⟩ := Prod.mk.inj (Option.some.inj cut)
        exact ⟨by rw [same]; rfl, splitLast_eq_none.mp tail⟩
      · cases cut

theorem stripStart_append (lead rest : List Char) : stripStart lead (lead ++ rest) = some rest := by
  induction lead with
  | nil => rfl
  | cons c lead ih => simp [stripStart, ih]

theorem eq_of_stripStart (stripped : stripStart lead cs = some rest) : cs = lead ++ rest := by
  induction lead generalizing cs with
  | nil => exact Option.some.inj stripped
  | cons c lead ih =>
    cases cs with
    | nil => cases stripped
    | cons d cs =>
      unfold stripStart at stripped
      split at stripped
      · rename_i same
        rw [same, ih stripped]
        rfl
      · cases stripped

end Text

theorem toList_qualify (container name : String) :
    (qualify container name).toList = container.toList ++ '.' :: name.toList := by
  simp [qualify]

theorem not_mem_of_isShortName (simple : isShortName name) : '.' ∉ name.toList := by
  simpa [isShortName] using simple

theorem splitName_qualify (simple : isShortName short) (container : String) :
    splitName '.' (qualify container short) = some (container, short) := by
  simp [splitName, toList_qualify, Text.splitLast_append (not_mem_of_isShortName simple)]

theorem toList_of_containerName (contained : containerName? name = some container) :
    ∃ rest, name.toList = container.toList ++ '.' :: rest ∧ '.' ∉ rest := by
  simp only [containerName?, splitName, Option.map_map, Option.map_eq_some_iff] at contained
  obtain ⟨⟨before, after⟩, cut, rfl⟩ := contained
  obtain ⟨whole, absent⟩ := Text.eq_of_splitLast cut
  exact ⟨after, by simpa using whole, absent⟩

theorem isBelow_iff : isBelow container name ↔ ∃ rest, name.toList = container.toList ++ '.' :: rest := by
  unfold isBelow
  constructor
  · intro below
    split at below
    · rename_i rest stripped
      exact ⟨rest, Text.eq_of_stripStart stripped⟩
    · cases below
  · rintro ⟨rest, whole⟩
    rw [whole, Text.stripStart_append]
    rfl

theorem isBelow_qualify (container name : String) : isBelow container (qualify container name) :=
  isBelow_iff.mpr ⟨name.toList, toList_qualify container name⟩

theorem isBelow_trans (first : isBelow above container) (second : isBelow container name) : isBelow above name := by
  obtain ⟨middle, inner⟩ := isBelow_iff.mp first
  obtain ⟨rest, outer⟩ := isBelow_iff.mp second
  exact isBelow_iff.mpr ⟨middle ++ '.' :: rest, by simp [outer, inner]⟩

theorem isBelow_of_containerName (contained : containerName? name = some container) : isBelow container name := by
  obtain ⟨rest, whole, _⟩ := toList_of_containerName contained
  exact isBelow_iff.mpr ⟨rest, whole⟩

/-- Two cuts of one text: the earlier one lies in front of the later one. -/
theorem append_dot_cases (same : a ++ '.' :: b = c ++ '.' :: d) (absent : '.' ∉ d) :
    c = a ∨ ∃ rest, c = a ++ '.' :: rest := by
  rcases List.append_eq_append_iff.mp same with ⟨middle, rfl, tail⟩ | ⟨middle, rfl, tail⟩
  · cases middle with
    | nil => exact .inl (by simp)
    | cons e middle =>
      obtain ⟨rfl, _⟩ := List.cons.inj tail
      exact .inr ⟨middle, rfl⟩
  · cases middle with
    | nil => exact .inl (by simp)
    | cons e middle =>
      obtain ⟨rfl, rfl⟩ := List.cons.inj tail
      exact absurd (by simp) absent

/-- The container of a name below `above` is `above` or lies below it. -/
theorem below_of_containerName (below : isBelow above name) (contained : containerName? name = some container) :
    container = above ∨ isBelow above container := by
  obtain ⟨rest, whole⟩ := isBelow_iff.mp below
  obtain ⟨after, cut, absent⟩ := toList_of_containerName contained
  rcases append_dot_cases (whole.symm.trans cut) absent with same | ⟨middle, same⟩
  · exact .inl (String.toList_inj.mp same)
  · exact .inr (isBelow_iff.mpr ⟨middle, same⟩)

theorem below_of_qualify (simple : isShortName short) (below : isBelow above (qualify container short)) :
    container = above ∨ isBelow above container := by
  refine below_of_containerName below ?_
  simp [containerName?, splitName_qualify simple]

theorem not_isBelow_short (simple : isShortName name) : ¬ isBelow above name := by
  intro below
  obtain ⟨rest, whole⟩ := isBelow_iff.mp below
  exact not_mem_of_isShortName simple (by simp [whole])

namespace SourceSet

variable {sources : List SourceFile} {set : SourceSet}

theorem packageExists_iff : set.packageExists name ↔ ∃ package ∈ set.packages, package = name ∨ isBelow name package := by
  simp [packageExists]

/-- Everything around a package is a package. -/
theorem packageExists_of_below (below : isBelow above name) (present : set.packageExists name) :
    set.packageExists above := by
  obtain ⟨package, member, rfl | deeper⟩ := packageExists_iff.mp present
  · exact packageExists_iff.mpr ⟨package, member, .inr below⟩
  · exact packageExists_iff.mpr ⟨package, member, .inr (isBelow_trans below deeper)⟩

theorem mem_packages_foldl :
    package ∈ (sources.foldl add set).packages ↔ package ∈ set.packages ∨ ∃ source ∈ sources, source.package = some package := by
  induction sources generalizing set with
  | nil => simp
  | cons source rest ih =>
    rw [List.foldl_cons, ih]
    simp [add, or_assoc, eq_comm]

theorem find_add (looked : (set.add source).find? name = some found) :
    found = source ∨ set.find? name = some found := by
  have stored (names : List String) (m : Assoc String SourceFile)
      (looked : (names.foldl (fun (m : Assoc String SourceFile) name => m.insert name source) m).find? name = some found) :
      found = source ∨ m.find? name = some found := by
    induction names generalizing m with
    | nil => exact .inr looked
    | cons first rest ih =>
      rcases ih _ looked with same | before
      · exact .inl same
      · rw [Assoc.find?_insert] at before
        split at before
        · exact .inl (Option.some.inj before).symm
        · exact .inr before
  exact stored _ _ looked

theorem find_foldl (looked : (sources.foldl add set).find? name = some found) :
    found ∈ sources ∨ set.find? name = some found := by
  induction sources generalizing set with
  | nil => exact .inr looked
  | cons source rest ih =>
    rcases ih looked with member | before
    · exact .inl (List.mem_cons_of_mem _ member)
    · rcases find_add before with rfl | before
      · exact .inl List.mem_cons_self
      · exact .inr before

end SourceSet

end ClassUniverse
