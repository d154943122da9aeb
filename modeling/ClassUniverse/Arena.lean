import ClassUniverse.ClassRecord

/-! All classes of a session, in order of creation. A nested class comes after the class around it, so
walks outward end after at most as many steps as the class has predecessors. -/
namespace ClassUniverse

structure Arena where
  records : Array ClassRecord := #[]
  deriving Repr, Inhabited

namespace Arena

def size (arena : Arena) : Nat := arena.records.size

def ids (arena : Arena) : List ClassId := (List.range arena.size).map ClassId.mk

/-- An id that is not in use has an empty record. -/
def get (arena : Arena) (id : ClassId) : ClassRecord := arena.records[id.index]?.getD { name := "" }

def add (arena : Arena) (record : ClassRecord) : ClassId × Arena :=
  (⟨arena.size⟩, ⟨arena.records.push record⟩)

def modify (arena : Arena) (id : ClassId) (change : ClassRecord → ClassRecord) : Arena :=
  ⟨arena.records.modify id.index change⟩

def outer? (arena : Arena) (id : ClassId) : Option ClassId := (arena.get id).kind.outer?

def outersWithin (arena : Arena) : (steps : Nat) → ClassId → List ClassId
  | 0, _ => []
  | steps + 1, id =>
    match arena.outer? id with
    | some outer => outer :: outersWithin arena steps outer
    | none => []

/-- Enclosing classes, innermost first. -/
def outers (arena : Arena) (id : ClassId) : List ClassId := arena.outersWithin id.index id

/-- The class itself and the classes around it. -/
def nest (arena : Arena) (id : ClassId) : List ClassId := id :: arena.outers id

def topLevelOf (arena : Arena) (id : ClassId) : ClassId := (arena.outers id).getLast?.getD id

/-- `inner` lies inside `outer` at some depth. -/
def isEnclosed (arena : Arena) (inner outer : ClassId) : Bool := (arena.outers inner).contains outer

def fullNameWithin (arena : Arena) : (steps : Nat) → ClassId → String
  | steps, id =>
    let record := arena.get id
    match steps, record.kind with
    | _, .topLevel =>
      match record.package with
      | some package => qualify package.fullName record.name
      | none => record.name
    | _, .localTo _ => record.name
    | steps + 1, .memberOf outer => qualify (fullNameWithin arena steps outer) record.name
    | steps + 1, .anonymousIn outer => "<anonymous subclass in " ++ fullNameWithin arena steps outer ++ ">"
    | 0, _ => record.name

/-- The qualified source name: `p.C.I` for a member class, the simple name of a local class. -/
def fullName (arena : Arena) (id : ClassId) : String := arena.fullNameWithin id.index id

def binaryNameWithin (arena : Arena) : (steps : Nat) → ClassId → Option String
  | steps, id =>
    let record := arena.get id
    match record.fileName with
    | some name => some name
    | none =>
      match steps, record.kind with
      | _, .topLevel => some (arena.fullName id)
      | steps + 1, .memberOf outer => (binaryNameWithin arena steps outer).map (· ++ "$" ++ record.name)
      | _, _ => none

/-- The name of the class file: `p.C$I` for a member class; local and anonymous classes have one only if
they come from a file. -/
def binaryName? (arena : Arena) (id : ClassId) : Option String := arena.binaryNameWithin id.index id

/-- A nested class that is not a static member. -/
def isInner (arena : Arena) (id : ClassId) : Bool :=
  let record := arena.get id
  record.kind.isNested && !(record.kind.isMember && record.flags.isStatic)

/-- Along the classes of a nest, each carries an instance of the next one until `target` is found. -/
def carriesInstance (arena : Arena) (target : ClassId) : List ClassId → Bool
  | [] => false
  | id :: around =>
    id == target ||
      (arena.isInner id && !(arena.get id).inStaticContext && carriesInstance arena target around)

/-- Instances of `inner` carry an enclosing instance of `target`. -/
def hasEnclosingInstance (arena : Arena) (inner target : ClassId) : Bool :=
  arena.carriesInstance target (arena.nest inner)

def isInterface (arena : Arena) (id : ClassId) : Bool := (arena.get id).flags.isInterface

def typeName (arena : Arena) : Ty → String
  | .primitive kind => kind.name
  | .null => "null"
  | .array base => arena.typeName base ++ "[]"
  | .cls id => arena.fullName id
  | .package package => package.fullName
  | .unknown name => name

def typeNames (arena : Arena) (types : List Ty) : List String := types.map arena.typeName

def signature (arena : Arena) (p : Procedure) : String :=
  p.name ++ "(" ++ ", ".intercalate (arena.typeNames p.formals) ++ ")"

end Arena

end ClassUniverse
