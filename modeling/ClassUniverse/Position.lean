import ClassUniverse.Json.Fields

/-! Where a declaration stands: a file, and a line and column that are zero when unknown. -/
namespace ClassUniverse

structure Position where
  file : String
  line : UInt32 := 0
  column : UInt32 := 0
  deriving DecidableEq, Repr, Inhabited

namespace Position

def hasLine (p : Position) : Bool := 0 < p.line

/-- Stands for no particular place. -/
def unplaced : Position := ⟨"<dummy>", 0, 0⟩

def text (p : Position) : String :=
  if p.hasLine then p.file ++ ":" ++ p.line.toNat.repr ++ ":" ++ p.column.toNat.repr else p.file

def toJson (p : Position) : Json :=
  .object [("file", .string p.file), ("line", .nat p.line.toNat), ("column", .nat p.column.toNat)]

def ofJson? (json : Json) : Option Position := do
  let fields ← json.fields? ["file", "line", "column"]
  return {
    file := ← fields.required "file" Json.string?
    line := ← fields.withDefault "line" 0 Json.uint32?
    column := ← fields.withDefault "column" 0 Json.uint32? }

end Position

end ClassUniverse
