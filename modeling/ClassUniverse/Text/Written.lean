import ClassUniverse.Text.Blank

/-! Written types: a base and any number of `[]`, with white space around each. -/
namespace ClassUniverse

namespace Text

/-- Takes one `[]` off the end, and the white space before it. -/
def stripDim (cs : List Char) : Option (List Char) :=
  match cs.reverse with
  | ']' :: '[' :: rest => some (trimEnd rest.reverse)
  | _ => none

/-- A text of `n` characters has at most `n` dimensions. -/
def splitDimsFrom : Nat → List Char → List Char × Nat
  | 0, cs => (cs, 0)
  | n + 1, cs =>
    match stripDim cs with
    | some rest =>
      let (base, dims) := splitDimsFrom n rest
      (base, dims + 1)
    | none => (cs, 0)

end Text

def trimName (name : String) : String := String.ofList (Text.trim name.toList)

/-- The base and the number of dimensions of a written type. -/
def splitDims (written : String) : String × Nat :=
  let cs := Text.trim written.toList
  let (base, dims) := Text.splitDimsFrom cs.length cs
  (String.ofList base, dims)

end ClassUniverse
