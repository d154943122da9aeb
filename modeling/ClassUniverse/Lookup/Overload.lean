import ClassUniverse.Access
import ClassUniverse.Conversion

/-! Which of several procedures a call means. -/
namespace ClassUniverse.Loader

/-- As many arguments as formal types, and each argument widens to its formal type. -/
def callValid (l : Loader) (p : Procedure) (args : List Ty) : Run Bool := do
  if p.formals.length ≠ args.length then return false
  Run.allOf (fun (arg, formal) => l.isImplicitCastValid arg formal) (args.zip p.formals)

def methodCallValid (l : Loader) (m : Method) (name : String) (args : List Ty) : Run Bool := do
  if m.name = name then l.callValid m.toProcedure args else return false

def containerRelated (l : Loader) (a b : Ty) : Run Bool := do
  if ← l.isSubtype a b then return true
  match a, b with
  | .cls inner, .cls outer => return (← Run.arena).isEnclosed inner outer
  | _, _ => return false

/-- `p` is declared in a subtype of the container of `q`, or inside it, and could pass its own arguments on
to `q`. -/
def moreSpecific (l : Loader) (p q : Procedure) : Run Bool := do
  if ← l.containerRelated p.container q.container then l.callValid q p.formals else return false

def strictlyMoreSpecific (l : Loader) (p q : Procedure) : Run Bool := do
  if ← l.moreSpecific p q then return !(← l.moreSpecific q p) else return false

/-- Candidates that no other one strictly outdoes. -/
def maximal (l : Loader) (view : α → Procedure) (candidates : List α) : Run (List α) := do
  let numbered := candidates.zipIdx
  let outdone := fun (p, i) =>
    Run.anyOf (fun (q, j) => if i = j then return false else l.strictlyMoreSpecific (view q) (view p)) numbered
  let kept ← Run.keep (fun candidate => return !(← outdone candidate)) numbered
  return kept.map (·.1)

/-- Among several maximal candidates a single concrete one wins, and if all are abstract with the same
formal types, the first. -/
def preferred (view : α → Procedure) (candidates : List α) : List α :=
  match candidates.filter fun p => !(view p).flags.isAbstract, candidates with
  | [only], _ => [only]
  | [], first :: rest => if rest.all fun p => (view p).formals == (view first).formals then [first] else candidates
  | _, _ => candidates

def select (l : Loader) (kind : MemberKind) (view : α → Procedure) (name : String) (candidates : List α) :
    Run α := do
  match preferred view (← l.maximal view candidates) with
  | [] => Run.fault (.noneNamed kind name)
  | [only] => return only
  | several =>
    let arena ← Run.arena
    throw (.ambiguousCall kind name
      (several.map fun p => qualify (arena.typeName (view p).container) (arena.signature (view p))))

def noApplicable (kind : MemberKind) (name : String) (args : List Ty) (container : Ty) : Run α := do
  let arena ← Run.arena
  throw (.noApplicableMember kind name (arena.typeNames args) (arena.typeName container))

end ClassUniverse.Loader
