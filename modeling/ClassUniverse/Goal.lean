import ClassUniverse.Ty

/-! Completion stages of a class, and the goals that bring classes about. -/
namespace ClassUniverse

inductive Stage where
  /-- Superclass and interfaces are set. -/
  | supertypesResolved
  /-- The member lists exist; their signatures may hold unresolved names. -/
  | membersAdded
  /-- Every member signature is canonical. -/
  | signaturesResolved
  /-- The members of the class and of all its supertypes are complete. -/
  | allMembersAdded
  deriving DecidableEq, Repr, Inhabited

namespace Stage

def all : List Stage := [.supertypesResolved, .membersAdded, .signaturesResolved, .allMembersAdded]

def prerequisites : Stage → List Stage
  | .supertypesResolved | .membersAdded => []
  | .signaturesResolved => [.membersAdded]
  | .allMembersAdded => [.supertypesResolved, .signaturesResolved]

def text : Stage → String
  | .supertypesResolved => "SupertypesResolved"
  | .membersAdded => "MembersAdded"
  | .signaturesResolved => "SignaturesResolved"
  | .allMembersAdded => "AllMembersAdded"

def ofText? (text : String) : Option Stage := all.find? fun stage => stage.text == text

end Stage

@[ext] structure Stages where
  has : Stage → Bool

namespace Stages

def none : Stages := ⟨fun _ => false⟩

def add (stages : Stages) (stage : Stage) : Stages :=
  ⟨fun other => stages.has other || other == stage⟩

def toList (stages : Stages) : List Stage := Stage.all.filter stages.has

def isComplete (stages : Stages) : Bool := Stage.all.all stages.has

instance : Inhabited Stages := ⟨none⟩

instance : Repr Stages := ⟨fun stages level => reprPrec stages.toList level⟩

end Stages

/-- The compilation of one source file, by its place in the list of jobs. -/
structure JobId where
  index : Nat
  deriving DecidableEq, Repr, Inhabited

def JobId.text (job : JobId) : String := "job" ++ job.index.repr

inductive Goal where
  /-- The classes of a job exist and are installed. -/
  | typesInitialized (job : JobId)
  | reach (id : ClassId) (stage : Stage)
  deriving DecidableEq, Repr, Inhabited

namespace Goal

def text : Goal → String
  | .typesInitialized job => "TypesInitialized(" ++ job.text ++ ")"
  | .reach id stage => stage.text ++ "(" ++ id.text ++ ")"

def ofText? (text : String) : Option Goal := do
  let (name, rest) ← Text.splitFirst '(' text.toList
  let (inside, after) ← Text.splitLast ')' rest
  guard after.isEmpty
  match Stage.ofText? (String.ofList name), inside with
  | some stage, '#' :: digits => return .reach ⟨← (String.ofList digits).toNat?⟩ stage
  | none, 'j' :: 'o' :: 'b' :: digits =>
    guard (String.ofList name == "TypesInitialized")
    return .typesInitialized ⟨← (String.ofList digits).toNat?⟩
  | _, _ => none

/-- Goals that precede this one whatever is recorded. -/
def prerequisites : Goal → List Goal
  | .typesInitialized _ => []
  | .reach id stage => stage.prerequisites.map (.reach id)

end Goal

end ClassUniverse
