import ClassUniverse.MemberClass
import ClassUniverse.Text.Written

/-! Classes and types by their written names. -/
namespace ClassUniverse.Loader

def memberByName (l : Loader) (container name : String) : Run ClassId := do
  match ← l.find container with
  | .cls outer => l.findMemberClass outer name none
  | .package _ => throw (.notFound name)

/-- A full name such as `p.C.I` that is not known is tried as the member class `I` of `p.C`. If that
fails too, the name itself counts as not found. -/
def classForName (l : Loader) (name : String) : Run ClassId := do
  match ← (l.find name).outcome with
  | .ok (.cls id) => return id
  | .ok (.package _) => Run.fault (.packageNotClass name)
  | .error e =>
    match e.isNotFoundFor name, splitName '.' name with
    | true, some (container, short) =>
      match ← (l.memberByName container short).outcome with
      | .ok id => return id
      | .error inner => throw (if inner.missingGoal?.isSome then inner else e)
    | _, _ => throw e

/-- Reads `int`, `null`, `p.C` and arrays of them. -/
def typeForName (l : Loader) (written : String) : Run Ty := do
  let (base, dims) := splitDims written
  if base = "null" then return .arrayOf .null dims
  match Primitive.ofName? base with
  | some kind => return .arrayOf (.primitive kind) dims
  | none => return .arrayOf (.cls (← l.classForName base)) dims

def object (l : Loader) : Run ClassId := do
  let w ← get
  match w.root with
  | some id => return id
  | none =>
    let id ← l.classForName w.config.rootClass
    modify fun w => { w with root := some id }
    return id

def objectType (l : Loader) : Run Ty := return .cls (← l.object)

end ClassUniverse.Loader
