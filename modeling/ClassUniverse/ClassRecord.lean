import ClassUniverse.ClassFile
import ClassUniverse.Goal
import ClassUniverse.Member

/-! One class as far as it is known. A record starts as a shell and fills up stage by stage. -/
namespace ClassUniverse

inductive ClassKind where
  | topLevel
  | memberOf (outer : ClassId)
  | localTo (outer : ClassId)
  | anonymousIn (outer : ClassId)
  deriving DecidableEq, Repr, Inhabited

namespace ClassKind

def outer? : ClassKind → Option ClassId
  | .topLevel => none
  | .memberOf outer | .localTo outer | .anonymousIn outer => some outer

def isTopLevel : ClassKind → Bool
  | .topLevel => true
  | _ => false

def isMember : ClassKind → Bool
  | .memberOf _ => true
  | _ => false

def isLocal : ClassKind → Bool
  | .localTo _ => true
  | _ => false

def isAnonymous : ClassKind → Bool
  | .anonymousIn _ => true
  | _ => false

def isNested (kind : ClassKind) : Bool := !kind.isTopLevel

def text : ClassKind → String
  | .topLevel => "top-level"
  | .memberOf _ => "member"
  | .localTo _ => "local"
  | .anonymousIn _ => "anonymous"

end ClassKind

/-- Who brings a class to its next stage. -/
inductive Completion where
  /-- Read from metadata, so that each stage is there when it is asked for. -/
  | decoded
  /-- Declared in a source: a goal must produce each stage. -/
  | scheduled
  /-- Built in place; the first touch completes the class and its member classes. -/
  | assembled
  /-- Derived on demand from the raw structure of a class file. -/
  | derived (file : ClassFile)
  deriving Repr, Inhabited

def Completion.isFromClassFile : Completion → Bool
  | .decoded | .derived _ => true
  | .scheduled | .assembled => false

structure ClassRecord where
  /-- Simple name; empty for anonymous classes. -/
  name : String
  package : Option Package := none
  kind : ClassKind := .topLevel
  flags : Flags := .none
  position : Option Position := none
  /-- Binary name of the class file that the class comes from. -/
  fileName : Option String := none
  /-- A local or anonymous class without an enclosing instance. -/
  inStaticContext : Bool := false
  superType : Option Ty := none
  interfaces : List Ty := []
  members : List ClassId := []
  fields : List Field := []
  methods : List Method := []
  constructors : List Constructor := []
  initializers : List InitializerBlock := []
  job : Option JobId := none
  stages : Stages := .none
  /-- Given up once all stages are complete. -/
  completion : Option Completion := none
  deriving Repr, Inhabited

namespace ClassRecord

def signaturesCanonical (record : ClassRecord) : Bool :=
  record.fields.all Field.isCanonical && record.methods.all Method.isCanonical &&
    record.constructors.all fun c => c.isCanonical

def supertypes (record : ClassRecord) : List Ty := record.superType.toList ++ record.interfaces

def markStage (record : ClassRecord) (stage : Stage) : ClassRecord :=
  let stages := record.stages.add stage
  { record with stages, completion := if stages.isComplete then none else record.completion }

def markStages (record : ClassRecord) (stages : List Stage) : ClassRecord := stages.foldl markStage record

def fieldNamed? (record : ClassRecord) (name : String) : Option Field :=
  record.fields.find? fun f => f.name == name

def methodsNamed (record : ClassRecord) (name : String) : List Method :=
  record.methods.filter fun m => m.name == name

end ClassRecord

end ClassUniverse
