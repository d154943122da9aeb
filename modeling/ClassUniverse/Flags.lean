import ClassUniverse.Json.Fields

/-! Modifier flags: sets over an ordered vocabulary of keywords. Each keyword has a bit in class files.
Package access is the absence of the three access flags. -/
namespace ClassUniverse

inductive Flag where
  | publicAccess | privateAccess | protectedAccess | static | final | synchronized | transient | native
  | interface | abstract | volatile | strictfp
  deriving DecidableEq, Repr, Inhabited

namespace Flag

/-- The vocabulary, in printing order. -/
def all : List Flag := [
  .publicAccess, .privateAccess, .protectedAccess, .static, .final, .synchronized, .transient, .native,
  .interface, .abstract, .volatile, .strictfp]

theorem mem_all (flag : Flag) : flag ∈ all := by cases flag <;> decide

def word : Flag → String
  | .publicAccess => "public"
  | .privateAccess => "private"
  | .protectedAccess => "protected"
  | .static => "static"
  | .final => "final"
  | .synchronized => "synchronized"
  | .transient => "transient"
  | .native => "native"
  | .interface => "interface"
  | .abstract => "abstract"
  | .volatile => "volatile"
  | .strictfp => "strictfp"

def ofWord? (text : String) : Option Flag := all.find? fun flag => flag.word == text

def bit : Flag → Nat
  | .publicAccess => 0
  | .privateAccess => 1
  | .protectedAccess => 2
  | .static => 3
  | .final => 4
  | .synchronized => 5
  | .volatile => 6
  | .transient => 7
  | .native => 8
  | .interface => 9
  | .abstract => 10
  | .strictfp => 11

end Flag

@[ext] structure Flags where
  has : Flag → Bool

namespace Flags

def none : Flags := ⟨fun _ => false⟩

def ofList (flags : List Flag) : Flags := ⟨fun flag => flags.contains flag⟩

instance : Inhabited Flags := ⟨none⟩

def toList (flags : Flags) : List Flag := Flag.all.filter flags.has

instance : DecidableEq Flags := fun a b =>
  if same : Flag.all.all fun flag => a.has flag == b.has flag then
    isTrue <| Flags.ext <| funext fun flag =>
      eq_of_beq (List.all_eq_true.mp same flag (Flag.mem_all flag))
  else
    isFalse fun equal => same <| by simp [equal]

instance : Repr Flags := ⟨fun flags level => reprPrec flags.toList level⟩

def union (a b : Flags) : Flags := ⟨fun flag => a.has flag || b.has flag⟩
def diff (a b : Flags) : Flags := ⟨fun flag => a.has flag && !b.has flag⟩
def inter (a b : Flags) : Flags := ⟨fun flag => a.has flag && b.has flag⟩

def contains (a b : Flags) : Bool := Flag.all.all fun flag => !b.has flag || a.has flag

def intersects (a b : Flags) : Bool := Flag.all.any fun flag => a.has flag && b.has flag

def isEmpty (flags : Flags) : Bool := Flag.all.all fun flag => !flags.has flag

def isPublic (flags : Flags) : Bool := flags.has .publicAccess
def isPrivate (flags : Flags) : Bool := flags.has .privateAccess
def isProtected (flags : Flags) : Bool := flags.has .protectedAccess
def isStatic (flags : Flags) : Bool := flags.has .static
def isFinal (flags : Flags) : Bool := flags.has .final
def isInterface (flags : Flags) : Bool := flags.has .interface
def isAbstract (flags : Flags) : Bool := flags.has .abstract
def isNative (flags : Flags) : Bool := flags.has .native

def accessFlags : Flags := ofList [.publicAccess, .privateAccess, .protectedAccess]

def isPackage (flags : Flags) : Bool := !flags.intersects accessFlags

def access (flags : Flags) : Flags := flags.inter accessFlags

def words (flags : Flags) : List String := flags.toList.map Flag.word

def text (flags : Flags) : String := " ".intercalate flags.words

def bits (flags : Flags) : Nat := flags.toList.foldl (fun bits flag => bits + 1 <<< flag.bit) 0

def ofBits (kept : List Flag) (bits : UInt16) : Flags :=
  ⟨fun flag => kept.contains flag && bits.toNat.testBit flag.bit⟩

/-- Bit 5 of a class does not say that it is synchronized. -/
def ofClassBits : UInt16 → Flags :=
  ofBits [.publicAccess, .privateAccess, .protectedAccess, .static, .final, .interface, .abstract]

def ofFieldBits : UInt16 → Flags :=
  ofBits [.publicAccess, .privateAccess, .protectedAccess, .static, .final, .volatile, .transient]

/-- Bits 6 and 7 of a method say neither volatile nor transient. -/
def ofMethodBits : UInt16 → Flags :=
  ofBits [.publicAccess, .privateAccess, .protectedAccess, .static, .final, .synchronized, .native,
    .abstract, .strictfp]

def ofWords? (words : List String) : Option Flags := (words.mapM Flag.ofWord?).map ofList

def toJson (flags : Flags) : Json := Json.strings flags.words

def ofJson? (json : Json) : Option Flags := json.strings?.bind ofWords?

end Flags

end ClassUniverse
