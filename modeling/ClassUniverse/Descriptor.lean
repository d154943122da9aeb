import ClassUniverse.Primitive
import ClassUniverse.Text.Dotted

/-! Class-file descriptors: a letter for a primitive type, `L` name `;` for a class, `[` before the
element type of an array. -/
namespace ClassUniverse

inductive Descriptor where
  | primitive (kind : Primitive)
  /-- The dotted binary name of a class. -/
  | cls (name : String)
  | array (base : Descriptor)
  deriving DecidableEq, Repr, Inhabited

namespace Descriptor

def dims (base : Descriptor) : Nat → Descriptor
  | 0 => base
  | n + 1 => .array (dims base n)

/-- Reads a sequence of descriptors; `depth` counts the brackets seen since the last one. -/
def readFrom : (depth : Nat) → List Char → Option (List Descriptor)
  | 0, [] => some []
  | _ + 1, [] => none
  | depth, c :: rest =>
    if c = '[' then readFrom (depth + 1) rest
    else if c = 'L' then readName depth [] rest
    else
      match Primitive.ofLetter? c with
      | some kind => (readFrom 0 rest).map (dims (.primitive kind) depth :: ·)
      | none => none
where
  /-- The rest of a class name, whose characters so far are given last first. -/
  readName (depth : Nat) : (seen : List Char) → List Char → Option (List Descriptor)
    | _, [] => none
    | seen, c :: rest =>
      if c = ';' then
        (readFrom 0 rest).map (dims (.cls (dotted (String.ofList seen.reverse))) depth :: ·)
      else readName depth (c :: seen) rest

/-- A failed reading gives back the text that is malformed. -/
def list (text : String) : Except String (List Descriptor) :=
  match readFrom 0 text.toList with
  | some found => .ok found
  | none => .error text

def field (text : String) : Except String Descriptor :=
  match readFrom 0 text.toList with
  | some [only] => .ok only
  | _ => .error text

/-- Parameters in parentheses, then the type of the result. -/
def method (text : String) : Except String (List Descriptor × Descriptor) :=
  match text.toList with
  | '(' :: rest =>
    match Text.splitFirst ')' rest with
    | some (formals, result) => do
      return (← list (String.ofList formals), ← field (String.ofList result))
    | none => .error text
  | _ => .error text

end Descriptor

end ClassUniverse
