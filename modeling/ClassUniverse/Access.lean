import ClassUniverse.Subtype

/-! Which members and classes may be named from where. Whatever is declared inside one outermost class is
visible throughout it. -/
namespace ClassUniverse

/-- What access control looks at in a member. -/
structure Protection where
  container : Ty
  flags : Flags

def Field.protection (f : Field) : Protection := ⟨f.container, f.flags⟩

def Procedure.protection (p : Procedure) : Protection := ⟨p.container, p.flags⟩

def Member.protection? : Member → Option Protection
  | .field f => some f.protection
  | .method m => some m.protection
  | .constructor c => some c.protection
  | _ => none

def accessibleFromPackage (flags : Flags) (declared accessor : Option Package) : Bool :=
  flags.isPublic || ((flags.isPackage || flags.isProtected) && declared == accessor)

namespace Arena

/-- A member class is visible only where the classes around it are, local and anonymous classes nowhere. -/
def nestVisible (arena : Arena) (package : Option Package) : (nest : List ClassId) → Bool
  | [] => false
  | id :: around =>
    let record := arena.get id
    match record.kind with
    | .topLevel => accessibleFromPackage record.flags record.package package
    | .memberOf _ =>
      nestVisible arena package around && accessibleFromPackage record.flags record.package package
    | _ => false

def classVisible (arena : Arena) (target : ClassId) (package : Option Package) : Bool :=
  arena.nestVisible package (arena.nest target)

end Arena

namespace Loader

/-- Access to what a class declares under `flags`, given that the class itself is visible or not. -/
def declarationAccessible (l : Loader) (visible : Run Bool) (flags : Flags) (target accessor : ClassId) :
    Run Bool := do
  if !(← visible) then return false
  let arena ← Run.arena
  if target = accessor || arena.isEnclosed target accessor || arena.isEnclosed accessor target then return true
  if (arena.outers accessor).any (arena.isEnclosed target) then return true
  if flags.isProtected then
    if ← Run.anyOf (fun id => l.descendsFrom (.cls id) (.cls target)) (arena.nest accessor) then return true
  let arena ← Run.arena
  return accessibleFromPackage flags (arena.get target).package (arena.get accessor).package

def nestAccessible (l : Loader) (accessor : ClassId) : (nest : List ClassId) → Run Bool
  | [] => return true
  | target :: around => do
    let arena ← Run.arena
    let record := arena.get target
    match record.kind with
    | .memberOf outer => l.declarationAccessible (nestAccessible l accessor around) record.flags outer accessor
    | .topLevel =>
      return target = accessor || arena.isEnclosed accessor target ||
        arena.classVisible target (arena.get accessor).package
    | _ => return true

def classAccessible (l : Loader) (target accessor : ClassId) : Run Bool := do
  l.nestAccessible accessor ((← Run.arena).nest target)

/-- A public member reached through a subtype counts as a member of that subtype. Members of arrays are
accessible if they are public. -/
def isAccessibleIn (l : Loader) (member : Protection) (container : Ty) (accessor : ClassId) : Run Bool := do
  let inherited ←
    if member.container.isClass && member.flags.isPublic then l.descendsFrom container member.container
    else pure false
  match if inherited then container else member.container with
  | .cls target => l.declarationAccessible (l.classAccessible target accessor) member.flags target accessor
  | _ => return member.flags.isPublic

def isAccessible (l : Loader) (member : Protection) (accessor : ClassId) : Run Bool :=
  l.isAccessibleIn member member.container accessor

end Loader

end ClassUniverse
