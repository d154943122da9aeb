import ClassUniverse.Subtype

/-! Casts, widening conversions and numeric promotion. -/
namespace ClassUniverse

namespace Loader

/-- Interfaces convert freely unless a final class is on the other side. -/
def classCast (l : Loader) (a b : ClassId) : Run Bool := do
  let arena ← Run.arena
  let (flags, target) := ((arena.get a).flags, (arena.get b).flags)
  let down := l.isSubtype (.cls a) (.cls b)
  let up := l.isSubtype (.cls b) (.cls a)
  match flags.isInterface, target.isInterface with
  | false, false => if ← down then return true else up
  | false, true => if flags.isFinal then down else return true
  | true, false => if target.isFinal then up else return true
  | true, true => return true

def castBetween (l : Loader) : (a b : Ty) → Run Bool
  | .primitive p, .primitive q => return p ≠ .void && q ≠ .void && (p = q || (p.isNumeric && q.isNumeric))
  | .null, b => return b.isReference
  | .array base, .array other =>
    if base.isPrimitive then return base = other
    else if other.isPrimitive || base.isNull || other.isNull then return false
    else l.castBetween base other
  | .array base, .cls id => l.isSubtype (.array base) (.cls id)
  | .cls id, .array base => l.isSubtype (.array base) (.cls id)
  | .cls a, .cls b => l.classCast a b
  | _, _ => return false

def isCastValid (l : Loader) (a b : Ty) : Run Bool := do
  Run.requireCanonical a
  Run.requireCanonical b
  l.castBetween a b

def widensBetween (l : Loader) : (a b : Ty) → Run Bool
  | .primitive p, .primitive q => return p = q || p.widensTo.contains q
  | .null, b => return b.isReference
  | .array base, .array other =>
    if base.isPrimitive || other.isPrimitive then return base = other else l.widensBetween base other
  | .array base, b => l.isSubtype (.array base) b
  | .cls a, .cls b => l.isSubtype (.cls a) (.cls b)
  | _, _ => return false

def isImplicitCastValid (l : Loader) (a b : Ty) : Run Bool := do
  Run.requireCanonical a
  Run.requireCanonical b
  l.widensBetween a b

end Loader

namespace Primitive

def promote? : Primitive → Option Primitive
  | .byte | .short | .char => some .int
  | .void | .boolean => none
  | kind => some kind

def widest (p q : Primitive) : Primitive :=
  ([.double, .float, .long].find? fun kind => p = kind || q = kind).getD .int

/-- The least numeric type that both widen to. -/
def join? (p q : Primitive) : Option Primitive :=
  if !p.isNumeric || !q.isNumeric then none
  else if p = q || p.widensTo.contains q then some q
  else if q.widensTo.contains p then some p
  else
    match p, q with
    | .char, .byte | .byte, .char | .char, .short | .short, .char => some .int
    | _, _ => none

def fits (kind : Primitive) (value : Int) : Bool :=
  kind.range.any fun (least, greatest) => least ≤ value && value ≤ greatest

end Primitive

namespace Run

def promotePrimitive (type : Ty) : Run Primitive := do
  match type.primitive?.bind Primitive.promote? with
  | some kind => return kind
  | none => throw (.notNumeric (← typeName type))

def promote (type : Ty) : Run Ty := Ty.primitive <$> promotePrimitive type

def promoteBinary (a b : Ty) : Run Ty := do
  let p ← promotePrimitive a
  let q ← promotePrimitive b
  return .primitive (p.widest q)

end Run

end ClassUniverse
