import ClassUniverse.Flags

/-! Which flags each kind of declaration may carry. -/
namespace ClassUniverse

inductive Declared where
  | topLevelClass | memberClass | localClass | field | constructor | initializerBlock | method
  | abstractMethod | localVariable
  deriving DecidableEq, Repr

def Declared.text : Declared → String
  | .topLevelClass => "a top-level class"
  | .memberClass => "a member class"
  | .localClass => "a local class"
  | .field => "a field"
  | .constructor => "a constructor"
  | .initializerBlock => "an initializer block"
  | .method => "a method"
  | .abstractMethod => "an abstract method"
  | .localVariable => "a local variable"

def Declared.legal : Declared → Flags
  | .topLevelClass => Flags.ofList [.publicAccess, .abstract, .final, .strictfp, .interface]
  | .memberClass => Flags.accessFlags.union (Flags.ofList [.abstract, .final, .static, .strictfp, .interface])
  | .localClass => Flags.ofList [.abstract, .final, .strictfp]
  | .field => Flags.accessFlags.union (Flags.ofList [.static, .final, .transient, .volatile])
  | .constructor => Flags.accessFlags
  | .initializerBlock => Flags.ofList [.static]
  | .method =>
    Flags.accessFlags.union (Flags.ofList [.abstract, .static, .final, .native, .synchronized, .strictfp])
  | .abstractMethod => Flags.accessFlags.union (Flags.ofList [.abstract])
  | .localVariable => Flags.ofList [.final]

inductive FlagFault where
  | illegal (what : Declared) (flags : Flags)
  | severalAccess
  | localInterface
  deriving DecidableEq, Repr

def FlagFault.message : FlagFault → String
  | .illegal what flags => "Cannot declare " ++ what.text ++ " with flags " ++ flags.text ++ "."
  | .severalAccess => "Only one of \"public\", \"private\" or \"protected\" may be specified."
  | .localInterface => "Cannot declare a local interface."

namespace Flags

def checkLegal (flags : Flags) (what : Declared) : Except FlagFault Unit :=
  let illegal := flags.diff what.legal
  if illegal.isEmpty then .ok () else .error (.illegal what illegal)

def checkAccess (flags : Flags) : Except FlagFault Unit :=
  if flags.access.toList.length ≤ 1 then .ok () else .error .severalAccess

/-- Illegal flags are reported before several access flags. -/
def check (flags : Flags) : Declared → Except FlagFault Unit
  | .localClass => if flags.isInterface then .error .localInterface else flags.checkLegal .localClass
  | .initializerBlock => flags.checkLegal .initializerBlock
  | .localVariable => flags.checkLegal .localVariable
  | .method => do
    flags.checkLegal .method
    if flags.isAbstract then flags.checkLegal .abstractMethod
    flags.checkAccess
  | what => do
    flags.checkLegal what
    flags.checkAccess

end Flags

end ClassUniverse
