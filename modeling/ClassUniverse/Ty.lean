import ClassUniverse.Primitive
import ClassUniverse.Text.Dotted

/-! Types. Classes are known by their place in the arena, so that cyclic references need no knot. -/
namespace ClassUniverse

structure ClassId where
  index : Nat
  deriving DecidableEq, Repr, Inhabited

def ClassId.text (id : ClassId) : String := "#" ++ id.index.repr

/-- A package is its full dotted name. -/
structure Package where
  fullName : String
  deriving DecidableEq, Repr, Inhabited

namespace Package

def name (p : Package) : String := shortName p.fullName

def enclosing (p : Package) : Option Package := (containerName? p.fullName).map Package.mk

/-- A name of `n` characters has at most `n` enclosing packages. -/
def enclosingFrom : Nat → Package → List Package
  | 0, _ => []
  | n + 1, p =>
    match p.enclosing with
    | some outer => outer :: enclosingFrom n outer
    | none => []

def enclosings (p : Package) : List Package := enclosingFrom p.fullName.length p

end Package

inductive Ty where
  | primitive (kind : Primitive)
  | null
  | array (base : Ty)
  | cls (id : ClassId)
  | package (name : Package)
  /-- A written name that is not resolved yet. -/
  | unknown (name : String)
  deriving DecidableEq, Repr, Inhabited

namespace Ty

def int : Ty := .primitive .int
def void : Ty := .primitive .void
def boolean : Ty := .primitive .boolean

def arrayOf (base : Ty) : Nat → Ty
  | 0 => base
  | dims + 1 => .array (arrayOf base dims)

/-- No unresolved name anywhere inside. -/
def isCanonical : Ty → Bool
  | .unknown _ => false
  | .array base => base.isCanonical
  | _ => true

def primitive? : Ty → Option Primitive
  | .primitive kind => some kind
  | _ => none

def isPrimitive (t : Ty) : Bool := t.primitive?.isSome

def isNumeric (t : Ty) : Bool := t.primitive?.any Primitive.isNumeric

def isVoid (t : Ty) : Bool := t == void

def isNull (t : Ty) : Bool := t == .null

/-- Classes, interfaces, arrays and the null type. -/
def isReference : Ty → Bool
  | .null | .array _ | .cls _ => true
  | _ => false

def class? : Ty → Option ClassId
  | .cls id => some id
  | _ => none

def isClass (t : Ty) : Bool := t.class?.isSome

def base? : Ty → Option Ty
  | .array base => some base
  | _ => none

def ultimateBase : Ty → Ty
  | .array base => base.ultimateBase
  | other => other

end Ty

inductive Named where
  | cls (id : ClassId)
  | package (name : Package)
  deriving DecidableEq, Repr, Inhabited

namespace Named

def class? : Named → Option ClassId
  | .cls id => some id
  | .package _ => none

end Named

end ClassUniverse
