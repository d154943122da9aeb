/-! JSON values. Object members keep their written order, repeated keys included. -/
namespace ClassUniverse

/-- A number is an integer only when it is written with neither fraction nor exponent and is not `-0`;
every other number is kept as it is written. -/
inductive Json where
  | null
  | bool (value : Bool)
  | int (value : Int)
  | real (written : String)
  | string (text : String)
  /-- A string that denotes no text because a surrogate in it lacks its partner, or an object with such a
  key. It is well formed, so that it may stand where nobody reads it. -/
  | unreadable
  | array (items : List Json)
  | object (members : List (String × Json))
  deriving Repr, Inhabited

namespace Json

mutual

/-- How deep arrays and objects nest, a scalar counting one. -/
def depth : Json → Nat
  | .array items => depthOfItems items + 1
  | .object members => depthOfMembers members + 1
  | _ => 1

def depthOfItems : List Json → Nat
  | [] => 0
  | item :: rest => max item.depth (depthOfItems rest)

def depthOfMembers : List (String × Json) → Nat
  | [] => 0
  | (_, value) :: rest => max value.depth (depthOfMembers rest)

end

def nat (n : Nat) : Json := .int n

def strings (texts : List String) : Json := .array (texts.map .string)

def optional (write : α → Json) : Option α → Json
  | none => .null
  | some value => write value

def list (write : α → Json) (values : List α) : Json := .array (values.map write)

end Json

end ClassUniverse
