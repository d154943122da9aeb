/-! Names made of parts. A dotted name ends in its short name; what stands before the last dot is its
container. -/
namespace ClassUniverse.Text

def splitLast (mark : Char) : List Char → Option (List Char × List Char)
  | [] => none
  | c :: cs =>
    match splitLast mark cs with
    | some (before, after) => some (c :: before, after)
    | none => if c = mark then some ([], cs) else none

def splitFirst (mark : Char) : List Char → Option (List Char × List Char)
  | [] => none
  | c :: cs =>
    if c = mark then some ([], cs)
    else (splitFirst mark cs).map fun (before, after) => (c :: before, after)

/-- The parts between the marks; there is always one more part than marks. -/
def parts (mark : Char) : List Char → List (List Char)
  | [] => [[]]
  | c :: cs =>
    if c = mark then [] :: parts mark cs
    else
      match parts mark cs with
      | [] => [[c]]
      | part :: rest => (c :: part) :: rest

/-- The rest of `cs` after `lead`, if it starts so. -/
def stripStart : (lead cs : List Char) → Option (List Char)
  | [], cs => some cs
  | _ :: _, [] => none
  | l :: lead, c :: cs => if l = c then stripStart lead cs else none

def replaceChar (old new : Char) (cs : List Char) : List Char :=
  cs.map fun c => if c = old then new else c

end ClassUniverse.Text

namespace ClassUniverse

def splitName (mark : Char) (name : String) : Option (String × String) :=
  (Text.splitLast mark name.toList).map fun (before, after) => (String.ofList before, String.ofList after)

def shortName (name : String) : String :=
  match splitName '.' name with
  | some (_, short) => short
  | none => name

def containerName? (name : String) : Option String := (splitName '.' name).map (·.1)

def isShortName (name : String) : Bool := !name.toList.contains '.'

def qualify (container name : String) : String := container ++ "." ++ name

def segments (name : String) : List String := (Text.parts '.' name.toList).map String.ofList

/-- `name` lies below `container`: the container, a dot, and anything after it. -/
def isBelow (container name : String) : Bool :=
  match Text.stripStart container.toList name.toList with
  | some ('.' :: _) => true
  | _ => false

/-- Internal names separate their parts by slashes. -/
def dotted (name : String) : String := String.ofList (Text.replaceChar '/' '.' name.toList)

end ClassUniverse
