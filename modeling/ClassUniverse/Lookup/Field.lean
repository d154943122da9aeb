import ClassUniverse.Lookup.Declared

/-! Fields by name. A look-up without an accessor skips access control. -/
namespace ClassUniverse.Loader

/-- The first fields of that name on each way up, depth first. -/
def fieldsWithin (l : Loader) (name : String) : (steps : Nat) → (seen : List Ty) → (found : List Field) →
    (pending : List Ty) → Run (List Field)
  | 0, _, _, _ => Run.exhausted
  | _ + 1, _, found, [] => return found
  | steps + 1, seen, found, type :: pending => do
    if seen.contains type then fieldsWithin l name steps seen found pending
    else
      match ← l.declaredField name type with
      | some field =>
        let found := if found.any field.same then found else found ++ [field]
        fieldsWithin l name steps (type :: seen) found pending
      | none => fieldsWithin l name steps (type :: seen) found ((← l.directSupertypes type) ++ pending)

/-- Ambiguity is noticed before a lack of access. -/
def findField (l : Loader) (container : Ty) (name : String) (accessor : Option ClassId) : Run Field := do
  match ← l.fieldsWithin name l.depth [] [] [container] with
  | [] => throw (.noSuchMember .field name (← Run.typeName container))
  | [field] =>
    if let some accessor := accessor then
      unless ← l.isAccessibleIn field.protection container accessor do
        throw (.inaccessible ("field " ++ field.name) (← Run.fullName accessor))
    return field
  | first :: second :: _ =>
    let arena ← Run.arena
    throw (.ambiguous ("field " ++ name) (arena.typeNames [first.container, second.container]) none)

end ClassUniverse.Loader
