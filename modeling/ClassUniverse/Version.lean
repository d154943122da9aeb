import ClassUniverse.Json.Fields
import ClassUniverse.Text.Blank
import ClassUniverse.Text.Dotted

/-! The version of the compiler that writes and reads class metadata. -/
namespace ClassUniverse

structure Version where
  name : String
  major : UInt32
  minor : UInt32
  patch : UInt32
  deriving DecidableEq, Repr, Inhabited

inductive Compatibility where
  | compatible | minorIncompatible | incompatible
  deriving DecidableEq, Repr

namespace Version

def text (v : Version) : String :=
  v.major.toNat.repr ++ "." ++ v.minor.toNat.repr ++ "." ++ v.patch.toNat.repr

/-- Decimal digits after at most one plus sign. -/
def number? (cs : List Char) : Option UInt32 :=
  let digits := match cs with
    | '+' :: rest => rest
    | rest => rest
  if digits.isEmpty || !digits.all Char.isDigit then none
  else
    let value := digits.foldl (fun value c => value * 10 + (c.toNat - '0'.toNat)) 0
    if value < UInt32.size then some (UInt32.ofNat value) else none

/-- Compares a text such as `1.2` or `1.2.3`; a minor number left out is zero, and what follows the minor
number does not matter. -/
def check (v : Version) (found : String) : Compatibility :=
  match Text.parts '.' (Text.trim found.toList) with
  | [] => .incompatible
  | major :: rest =>
    match number? major, rest.head?.map number? with
    | none, _ => .incompatible
    | some _, some none => .incompatible
    | some major, minor =>
      if major ≠ v.major then .incompatible
      else if (minor.getD (some 0)).getD 0 ≠ v.minor then .minorIncompatible
      else .compatible

def toJson (v : Version) : Json :=
  .object [("name", .string v.name), ("major", .nat v.major.toNat), ("minor", .nat v.minor.toNat),
    ("patch", .nat v.patch.toNat)]

def ofJson? (json : Json) : Option Version := do
  let fields ← json.fields? ["name", "major", "minor", "patch"]
  return {
    name := ← fields.required "name" Json.string?
    major := ← fields.required "major" Json.uint32?
    minor := ← fields.required "minor" Json.uint32?
    patch := ← fields.required "patch" Json.uint32? }

end Version

end ClassUniverse
