import ClassUniverse.Json.Fields

/-! Primitive types and the widening conversions between them. -/
namespace ClassUniverse

inductive Primitive where
  | void | boolean | char | byte | short | int | long | float | double
  deriving DecidableEq, Repr, Inhabited

namespace Primitive

def all : List Primitive := [.void, .boolean, .char, .byte, .short, .int, .long, .float, .double]

def name : Primitive → String
  | .void => "void"
  | .boolean => "boolean"
  | .char => "char"
  | .byte => "byte"
  | .short => "short"
  | .int => "int"
  | .long => "long"
  | .float => "float"
  | .double => "double"

def ofName? (text : String) : Option Primitive := all.find? fun p => p.name == text

def letter : Primitive → Char
  | .void => 'V'
  | .boolean => 'Z'
  | .char => 'C'
  | .byte => 'B'
  | .short => 'S'
  | .int => 'I'
  | .long => 'J'
  | .float => 'F'
  | .double => 'D'

def ofLetter? (c : Char) : Option Primitive := all.find? fun p => p.letter == c

def isNumeric : Primitive → Bool
  | .void | .boolean => false
  | _ => true

def isIntegral : Primitive → Bool
  | .char | .byte | .short | .int | .long => true
  | _ => false

def widensTo : Primitive → List Primitive
  | .byte => [.short, .int, .long, .float, .double]
  | .short | .char => [.int, .long, .float, .double]
  | .int => [.long, .float, .double]
  | .long => [.float, .double]
  | .float => [.double]
  | .double | .void | .boolean => []

/-- Integers a literal of the type may have; empty for the types without integral literals. -/
def range : Primitive → Option (Int × Int)
  | .long => some (Int64.minValue.toInt, Int64.maxValue.toInt)
  | .int => some (Int32.minValue.toInt, Int32.maxValue.toInt)
  | .char => some (0, 0xFFFF)
  | .short => some (Int16.minValue.toInt, Int16.maxValue.toInt)
  | .byte => some (Int8.minValue.toInt, Int8.maxValue.toInt)
  | _ => none

/-- A keyword, alone or as the only key of an object with nothing under it. -/
def ofJson? : Json → Option Primitive
  | .string text => ofName? text
  | .object [(key, .null)] => ofName? key
  | _ => none

end Primitive

end ClassUniverse
