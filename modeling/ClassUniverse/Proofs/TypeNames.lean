import ClassUniverse.Proofs.FailedLoads
import ClassUniverse.Proofs.PrintedTypes

/-! The text of a type names the type. -/
namespace ClassUniverse

/-- Types without dimensions that can be told by their names: primitive types, the null type, and classes that are
found under their full names. -/
inductive Ty.Printable (l : Loader) (w : World) : Ty → World → Prop where
  | primitive (kind : Primitive) : Printable l w (.primitive kind) w
  | null : Printable l w .null w
  | cls {id : ClassId} {after : World} (plain : PlainName (w.arena.fullName id)) (other : w.arena.fullName id ≠ "null")
      (keyword : ∀ kind : Primitive, w.arena.fullName id ≠ kind.name)
      (found : (l.classForName (w.arena.fullName id)).on w = some (.ok id, after)) : Printable l w (.cls id) after

/-- The text of a type is read as the type, and its base and its dimensions are told from it, whatever white space
stands around the brackets. -/
theorem printed_types_read_back {l : Loader} {w after : World} {base : Ty} (printable : base.Printable l w after)
    (dims : Nat) :
    (l.typeForName (w.arena.typeName (.arrayOf base dims))).on w = some (.ok (.arrayOf base dims), after) ∧
      ∀ lead gaps, Text.Blank lead → (∀ gap ∈ gaps, Text.Blank gap.1 ∧ Text.Blank gap.2) → gaps.length = dims →
        splitDims (String.ofList (lead ++ Text.spaced (w.arena.typeName base).toList gaps)) =
          (w.arena.typeName base, dims) := by
  have plain : PlainName (w.arena.typeName base) := by
    cases printable with
    | primitive kind => exact kind.plainName
    | null => exact plainName_null
    | cls plain => exact plain
  refine ⟨?_, fun lead gaps leading blank count => count ▸ splitDims_spaced plain blank leading⟩
  rw [w.arena.typeName_arrayOf]
  simp only [Loader.typeForName, splitDims_bracketed plain]
  cases printable with
  | primitive kind =>
    have other : kind.name ≠ "null" := by cases kind <;> decide
    simp only [Arena.typeName, other, if_false, kind.ofName?_name]
    rfl
  | null => rfl
  | @cls id _ plain other keyword found =>
    have absent : Primitive.ofName? (w.arena.fullName id) = none := by
      refine List.find?_eq_none.mpr fun kind _ => ?_
      simpa using Ne.symm (keyword kind)
    simp only [Arena.typeName, other, if_false, absent]
    rw [Run.on_bind_ok found]
    rfl

/-- A class of the session's cache, in two dimensions. -/
theorem printed_types_read_back_class :
    let layers : Layers := { base := { cache := .ofList [("p.C", .found (.cls ⟨0⟩))] } }
    let w : World := { World.ofUniverse {} {} with
      arena := ⟨#[{ name := "C", package := some ⟨"p"⟩ }]⟩, caches := .ofList [(.session, layers)] }
    let l := Loader.ofDepth 2
    Ty.Printable l w (.cls ⟨0⟩) w ∧ (l.typeForName "p.C[][]").on w = some (.ok (.array (.array (.cls ⟨0⟩))), w) ∧
      splitDims " p.C\t[] [] " = ("p.C", 2) := by
  intro layers w l
  have full : w.arena.fullName ⟨0⟩ = "p.C" := by decide +kernel
  have printable : Ty.Printable l w (.cls ⟨0⟩) w := by
    have plain : PlainName "p.C" := .of_last (.of_ends (by decide) (by decide)) (by decide)
    refine .cls (full ▸ plain) (by simp [full]) (fun kind => ?_) ?_
    · cases kind <;> simp [full, Primitive.name]
    · rw [full]
      have held : w.system.check "p.C" = some (.cls ⟨0⟩) := by decide +kernel
      exact Run.on_bind_ok (Run.on_outcome_of (Loader.find_held held 1))
  obtain ⟨read, spaced⟩ := printed_types_read_back printable 2
  have text : w.arena.typeName (.arrayOf (.cls ⟨0⟩) 2) = "p.C[][]" := by decide +kernel
  have blank : String.ofList ([' '] ++ Text.spaced (w.arena.typeName (.cls ⟨0⟩)).toList [(['\t'], [' ']), ([], [' '])]) =
      " p.C\t[] [] " := by decide +kernel
  refine ⟨printable, text ▸ read, ?_⟩
  rw [← blank, ← full]
  refine spaced _ _ ?_ ?_ rfl
  · simp [Text.Blank, Text.isBlank, Text.blankRanges]
  · simp [Text.Blank, Text.isBlank, Text.blankRanges]

end ClassUniverse
