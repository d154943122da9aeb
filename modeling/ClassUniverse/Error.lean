import ClassUniverse.Flags.Legality
import ClassUniverse.Goal
import ClassUniverse.Position

/-! Everything that can go wrong, by cause; the wording stands in `message`. -/
namespace ClassUniverse

inductive MemberKind where
  | field | method | constructor | memberClass
  deriving DecidableEq, Repr

def MemberKind.text : MemberKind → String
  | .field => "field"
  | .method => "method"
  | .constructor => "constructor"
  | .memberClass => "member class"

/-- Why the information in a class file cannot be used. -/
inductive EncodingFault where
  | noStructure
  | malformedDocument
  | describes (other : String)
  | notMemberOf (name outer : String)
  | noMetadata (compiler : String)
  | malformedDescriptor (text : String)
  deriving DecidableEq, Repr

def EncodingFault.message : EncodingFault → String
  | .noStructure => "no structural information"
  | .malformedDocument => "<json>"
  | .describes other => "metadata describes \"" ++ other ++ "\""
  | .notMemberOf name outer => "\"" ++ name ++ "\" is not a member of \"" ++ outer ++ "\""
  | .noMetadata compiler => "no metadata for " ++ compiler
  | .malformedDescriptor text => "malformed descriptor \"" ++ text ++ "\""

/-- Why goals wait for each other without end. -/
inductive Deadlock where
  | stillMissing (goal : Goal)
  | runsExceeded (goal : Goal) (limit : Nat)
  | mutualRequirement (goal prerequisite : Goal)
  | unreachable (goal : Goal)
  deriving DecidableEq, Repr

def Deadlock.message : Deadlock → String
  | .stillMissing goal => goal.text ++ " was reached but is still missing"
  | .runsExceeded goal limit => goal.text ++ " did not complete after " ++ limit.repr ++ " runs"
  | .mutualRequirement goal prerequisite => goal.text ++ " and " ++ prerequisite.text ++ " require each other"
  | .unreachable goal => goal.text ++ " could not be reached"

/-- Violations of the rules of the language, and misuse of scopes and layers. -/
inductive Fault where
  | packageNotClass (name : String)
  | packageNotType (name : String)
  | qualifiedName (name : String)
  | noForkedLayer
  | noSuitableDefinition (name compiler : String)
  | noneNamed (kind : MemberKind) (name : String)
  | callOnNonReference (type : String)
  | unimplemented (cls signature declaredIn : String)
  | noDeclaration (cls : String)
  | noJobOf (cls : String)
  | noSourceOf (job : JobId)
  | extendsNonClass (name : String)
  | interfaceExtendsClass
  | extendsFinal (name : String)
  | implementsNonInterface (name : String)
  | abstractInConcrete (method cls : String)
  | interfaceConstructor
  | notEncodable (cls : String)
  | outermostScope
  | noVariable (name : String)
  | noLocal (name : String)
  /-- A failure that a pass reports in its own words. -/
  | reported (text : String)
  deriving DecidableEq, Repr

def Fault.message : Fault → String
  | .packageNotClass name => "\"" ++ name ++ "\" is a package, not a class."
  | .packageNotType name => "\"" ++ name ++ "\" is a package, not a type."
  | .qualifiedName name => "Cannot lookup qualified name " ++ name
  | .noForkedLayer => "system resolver has no forked layer"
  | .noSuitableDefinition name compiler =>
    "Unable to find a suitable definition of \"" ++ name ++ "\". A class file was found, but it did not " ++
      "contain appropriate information for the " ++ compiler ++ " compiler."
  | .noneNamed kind name => "No " ++ kind.text ++ " named " ++ name
  | .callOnNonReference type => "Cannot call method in non-reference type " ++ type ++ "."
  | .unimplemented cls signature declaredIn =>
    cls ++ " should be declared abstract; it does not define " ++ signature ++ ", which is declared in " ++ declaredIn
  | .noDeclaration cls => "No declaration recorded for " ++ cls
  | .noJobOf cls => cls ++ " does not belong to a source job"
  | .noSourceOf job => "No source file for " ++ job.text
  | .extendsNonClass name => "Cannot extend non-class type " ++ name ++ "."
  | .interfaceExtendsClass => "Interfaces cannot extend classes."
  | .extendsFinal name => "Cannot extend final class " ++ name ++ "."
  | .implementsNonInterface name => "Cannot implement non-interface type " ++ name ++ "."
  | .abstractInConcrete method cls =>
    "Cannot declare abstract method " ++ method ++ " in non-abstract class " ++ cls ++ "."
  | .interfaceConstructor => "Interfaces cannot have constructors."
  | .notEncodable cls => "Cannot encode " ++ cls ++ "."
  | .outermostScope => "Cannot pop the outermost scope."
  | .noVariable name => "Variable \"" ++ name ++ "\" not found."
  | .noLocal name => "Local variable \"" ++ name ++ "\" not found."
  | .reported text => text

inductive Error where
  | notFound (name : String)
  | ambiguous (name : String) (candidates : List String) (position : Option Position)
  | notCanonical (type : String)
  | badEncoding (cls : String) (fault : EncodingFault)
  | incompatibleVersion (cls compiler found expected : String)
  | typePackageClash (name : String) (position : Option Position)
  | importConflict (name previous : String) (position : Option Position)
  /-- Not a failure yet: the goal must be reached before the question has an answer. -/
  | missingDependency (goal : Goal)
  | cyclicDependency (cause : Deadlock)
  | noSuchMember (kind : MemberKind) (name container : String)
  | noApplicableMember (kind : MemberKind) (name : String) (args : List String) (container : String)
  | ambiguousCall (kind : MemberKind) (name : String) (candidates : List String)
  | inaccessible (what accessor : String)
  | noCommonAncestor (a b : String)
  | notNumeric (type : String)
  | cyclicInheritance (cls : String) (position : Option Position)
  | invalidFlags (fault : FlagFault) (position : Option Position)
  | semantic (fault : Fault) (position : Option Position)
  | io (text : String)
  deriving DecidableEq, Repr

namespace Error

def message : Error → String
  | .notFound name => "Class \"" ++ name ++ "\" not found."
  | .ambiguous name candidates _ =>
    "Reference to " ++ name ++ " is ambiguous; it is defined in " ++ " and ".intercalate candidates ++ "."
  | .notCanonical type => "Type \"" ++ type ++ "\" is not canonical."
  | .badEncoding cls fault => "Could not decode type information for \"" ++ cls ++ "\": " ++ fault.message
  | .incompatibleVersion cls compiler found expected =>
    "Class \"" ++ cls ++ "\" was compiled by an incompatible version (" ++ found ++ ") of " ++ compiler ++
      "; expected " ++ expected ++ ". Try recompiling the class file with " ++ compiler ++ "."
  | .typePackageClash name _ => "Type \"" ++ name ++ "\" clashes with package of the same name."
  | .importConflict name previous _ => "Class \"" ++ name ++ "\" is already imported as \"" ++ previous ++ "\"."
  | .missingDependency goal => "Missing dependency: " ++ goal.text
  | .cyclicDependency cause => "Cyclic dependency: " ++ cause.message
  | .noSuchMember kind name container =>
    kind.text ++ " \"" ++ name ++ "\" not found in type \"" ++ container ++ "\"."
  | .noApplicableMember kind name args container =>
    "No valid " ++ kind.text ++ " call found for " ++ name ++ "(" ++ ", ".intercalate args ++ ") in " ++
      container ++ "."
  | .ambiguousCall kind name candidates =>
    "Reference to " ++ name ++ " is ambiguous, multiple " ++ kind.text ++ "s match: " ++
      ", ".intercalate candidates
  | .inaccessible what accessor => "Cannot access " ++ what ++ " from " ++ accessor ++ "."
  | .noCommonAncestor a b => "No least common ancestor found for types \"" ++ a ++ "\" and \"" ++ b ++ "\"."
  | .notNumeric type => "Type \"" ++ type ++ "\" is not numeric."
  | .cyclicInheritance cls _ => "Circular inheritance involving " ++ cls ++ "."
  | .invalidFlags fault _ => fault.message
  | .semantic fault _ => fault.message
  | .io text => "IO error: " ++ text

def position : Error → Option Position
  | .ambiguous _ _ position | .typePackageClash _ position | .importConflict _ _ position
  | .cyclicInheritance _ position | .invalidFlags _ position | .semantic _ position => position
  | _ => none

def isNotFound : Error → Bool
  | .notFound _ => true
  | _ => false

/-- The very name is missing, not something that it refers to. -/
def isNotFoundFor (name : String) : Error → Bool
  | .notFound missing => missing == name
  | _ => false

def isNoSuchMember : Error → Bool
  | .noSuchMember .. | .notFound _ => true
  | _ => false

def missingGoal? : Error → Option Goal
  | .missingDependency goal => some goal
  | _ => none

end Error

end ClassUniverse
