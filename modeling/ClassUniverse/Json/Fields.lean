import ClassUniverse.Json.Value

/-! Reading records and scalars from JSON values. A record is an object, or an array with its fields in
declared order; missing fields take their defaults, unknown members are ignored. -/
namespace ClassUniverse.Json

def string? : Json → Option String
  | .string text => some text
  | _ => none

def bool? : Json → Option Bool
  | .bool value => some value
  | _ => none

def natBelow? (limit : Nat) : Json → Option Nat
  | .int (.ofNat n) => if n < limit then some n else none
  | _ => none

def uint16? (json : Json) : Option UInt16 := (json.natBelow? UInt16.size).map UInt16.ofNat
def uint32? (json : Json) : Option UInt32 := (json.natBelow? UInt32.size).map UInt32.ofNat
def uint64? (json : Json) : Option UInt64 := (json.natBelow? UInt64.size).map UInt64.ofNat

def int64? : Json → Option Int
  | .int value => if Int64.minValue.toInt ≤ value ∧ value ≤ Int64.maxValue.toInt then some value else none
  | _ => none

def optional? (read : Json → Option α) : Json → Option (Option α)
  | .null => some none
  | json => (read json).map some

def list? (read : Json → Option α) : Json → Option (List α)
  | .array items => items.mapM read
  | _ => none

def strings? : Json → Option (List String) := list? string?

def stringMap? : Json → Option (List (String × String))
  | .object members => members.mapM fun (key, value) => value.string?.map (key, ·)
  | _ => none

abbrev Fields := List (String × Json)

def occurrences (key : String) (members : List (String × Json)) : Nat :=
  (members.filter fun entry => entry.1 == key).length

/-- The fields of a record named by `keys`; a known key given twice is refused, and so is an array with
more items than keys. -/
def fields? (keys : List String) : Json → Option Fields
  | .object members => if keys.all fun key => occurrences key members ≤ 1 then some members else none
  | .array items => if items.length ≤ keys.length then some (keys.zip items) else none
  | _ => none

def Fields.required (fields : Fields) (key : String) (read : Json → Option α) : Option α :=
  (fields.lookup key).bind read

def Fields.withDefault (fields : Fields) (key : String) (fallback : α) (read : Json → Option α) : Option α :=
  match fields.lookup key with
  | none => some fallback
  | some json => read json

def Fields.optional (fields : Fields) (key : String) (read : Json → Option α) : Option (Option α) :=
  fields.withDefault key none (optional? read)

def Fields.list (fields : Fields) (key : String) (read : Json → Option α) : Option (List α) :=
  fields.withDefault key [] (list? read)

end ClassUniverse.Json
