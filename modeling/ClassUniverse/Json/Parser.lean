import ClassUniverse.Json.Value

/-! Reading JSON text. Each reader takes one thing off the front and returns the rest. The recursive
readers are bounded by a number of steps; the length of the text is always enough. -/
namespace ClassUniverse.Json

def isGap (c : Char) : Bool := c = ' ' || c = '\n' || c = '\t' || c = '\r'

def skipGap (cs : List Char) : List Char := cs.dropWhile isGap

def hexValue? (c : Char) : Option Nat :=
  if c.isDigit then some (c.toNat - '0'.toNat)
  else if 'a' ≤ c ∧ c ≤ 'f' then some (c.toNat - 'a'.toNat + 10)
  else if 'A' ≤ c ∧ c ≤ 'F' then some (c.toNat - 'A'.toNat + 10)
  else none

def readUnit : List Char → Option (Nat × List Char)
  | a :: b :: c :: d :: rest => do
    let unit := (((← hexValue? a) * 16 + (← hexValue? b)) * 16 + (← hexValue? c)) * 16 + (← hexValue? d)
    return (unit, rest)
  | _ => none

def isHighSurrogate (unit : Nat) : Bool := 0xd800 ≤ unit && unit < 0xdc00

def isLowSurrogate (unit : Nat) : Bool := 0xdc00 ≤ unit && unit < 0xe000

/-- The characters that units denote. A high and a low surrogate together stand for a character beyond the
basic plane; neither denotes anything alone. -/
def ofUnits? : (units : List Nat) → Option (List Char)
  | [] => some []
  | unit :: rest =>
    if isLowSurrogate unit then none
    else if isHighSurrogate unit then
      match rest with
      | low :: rest =>
        if isLowSurrogate low then
          (ofUnits? rest).map (Char.ofNat (0x10000 + (unit - 0xd800) * 0x400 + (low - 0xdc00)) :: ·)
        else none
      | [] => none
    else (ofUnits? rest).map (Char.ofNat unit :: ·)

def text? (units : List Nat) : Option String := (ofUnits? units).map String.ofList

/-- The unit that an escape stands for, after its backslash. -/
def readEscape : List Char → Option (Nat × List Char)
  | '"' :: rest => some ('"'.toNat, rest)
  | '\\' :: rest => some ('\\'.toNat, rest)
  | '/' :: rest => some ('/'.toNat, rest)
  | 'b' :: rest => some (0x08, rest)
  | 'f' :: rest => some (0x0c, rest)
  | 'n' :: rest => some ('\n'.toNat, rest)
  | 'r' :: rest => some ('\r'.toNat, rest)
  | 't' :: rest => some ('\t'.toNat, rest)
  | 'u' :: rest => readUnit rest
  | _ => none

/-- The rest of a string after its opening quote, as the units of its escapes and the code points of its
other characters. -/
def readString : Nat → List Char → Option (List Nat × List Char)
  | 0, _ => none
  | _ + 1, [] => none
  | steps + 1, c :: rest =>
    if c = '"' then some ([], rest)
    else if c = '\\' then do
      let (unit, rest) ← readEscape rest
      let (units, rest) ← readString steps rest
      return (unit :: units, rest)
    else if c.toNat < 0x20 then none
    else do
      let (units, rest) ← readString steps rest
      return (c.toNat :: units, rest)

def ofDigits (digits : List Char) : Nat :=
  digits.foldl (fun value c => value * 10 + (c.toNat - '0'.toNat)) 0

def readDigits (cs : List Char) : Option (List Char × List Char) :=
  match cs.span Char.isDigit with
  | ([], _) => none
  | found => some found

def readFraction : List Char → Option (List Char × List Char)
  | '.' :: rest => (readDigits rest).map fun (digits, rest) => ('.' :: digits, rest)
  | rest => some ([], rest)

def readExponent : List Char → Option (List Char × List Char)
  | c :: rest =>
    if c = 'e' ∨ c = 'E' then
      match rest with
      | '+' :: rest => (readDigits rest).map fun (digits, rest) => (c :: '+' :: digits, rest)
      | '-' :: rest => (readDigits rest).map fun (digits, rest) => (c :: '-' :: digits, rest)
      | rest => (readDigits rest).map fun (digits, rest) => (c :: digits, rest)
    else some ([], c :: rest)
  | [] => some ([], [])

def readNumber (cs : List Char) : Option (Json × List Char) := do
  let (negative, rest) := match cs with
    | '-' :: rest => (true, rest)
    | rest => (false, rest)
  let (digits, rest) ← readDigits rest
  if digits.head? = some '0' ∧ digits.length ≠ 1 then none
  else
    let (fraction, rest) ← readFraction rest
    let (exponent, rest) ← readExponent rest
    let value := ofDigits digits
    if fraction.isEmpty && exponent.isEmpty && !(negative && value = 0) then
      return (.int (if negative then -value else value), rest)
    else
      return (.real (String.ofList ((if negative then ['-'] else []) ++ digits ++ fraction ++ exponent)), rest)

mutual

def readValue : Nat → List Char → Option (Json × List Char)
  | 0, _ => none
  | steps + 1, cs =>
    match skipGap cs with
    | 'n' :: 'u' :: 'l' :: 'l' :: rest => some (.null, rest)
    | 't' :: 'r' :: 'u' :: 'e' :: rest => some (.bool true, rest)
    | 'f' :: 'a' :: 'l' :: 's' :: 'e' :: rest => some (.bool false, rest)
    | '"' :: rest => do
      let (units, rest) ← readString (rest.length + 1) rest
      return ((text? units).elim .unreadable .string, rest)
    | '[' :: rest =>
      match skipGap rest with
      | ']' :: rest => some (.array [], rest)
      | rest => do
        let (items, rest) ← readItems steps rest
        return (.array items, rest)
    | '\x7b' :: rest =>
      match skipGap rest with
      | '\x7d' :: rest => some (.object [], rest)
      | rest => do
        let (members, rest) ← readMembers steps rest
        return (members.elim .unreadable .object, rest)
    | rest => readNumber rest

/-- One or more items and the closing bracket. -/
def readItems : Nat → List Char → Option (List Json × List Char)
  | 0, _ => none
  | steps + 1, cs => do
    let (item, rest) ← readValue steps cs
    match skipGap rest with
    | ',' :: rest =>
      let (items, rest) ← readItems steps rest
      return (item :: items, rest)
    | ']' :: rest => return ([item], rest)
    | _ => none

/-- One or more members and the closing brace; no members when one of the keys is no text. -/
def readMembers : Nat → List Char → Option (Option (List (String × Json)) × List Char)
  | 0, _ => none
  | steps + 1, cs =>
    match skipGap cs with
    | '"' :: rest => do
      let (units, rest) ← readString (rest.length + 1) rest
      match skipGap rest with
      | ':' :: rest =>
        let (value, rest) ← readValue steps rest
        let member := (text? units).map (·, value)
        match skipGap rest with
        | ',' :: rest =>
          let (members, rest) ← readMembers steps rest
          return (return (← member) :: (← members), rest)
        | '\x7d' :: rest => return (member.map ([·]), rest)
        | _ => none
      | _ => none
    | _ => none

end

def parse? (text : String) : Option Json :=
  let cs := text.toList
  match readValue (cs.length + 1) cs with
  | some (json, rest) => if (skipGap rest).isEmpty then some json else none
  | none => none

end ClassUniverse.Json
