import ClassUniverse.Lookup.Declared

/-! Overriding: what a method overrides, who implements it, what it may throw. -/
namespace ClassUniverse.Loader

/-- Methods of one signature from a type along its superclasses. -/
def overridesWithin (l : Loader) (m : Method) : (steps : Nat) → (seen : List Ty) → Option Ty → Run (List Method)
  | 0, _, _ => Run.exhausted
  | _ + 1, _, none => return []
  | steps + 1, seen, some type => do
    if seen.contains type then return []
    let found := (← l.declaredMethods m.name type).filter fun other => other.formals == m.formals
    let above ←
      match type with
      | .cls id => l.superType id
      | .array _ => some <$> l.objectType
      | _ => pure none
    return found ++ (← overridesWithin l m steps (type :: seen) above)

/-- Methods with the name and the formal types of `m` along the superclasses, `m` itself included. -/
def overrides (l : Loader) (m : Method) : Run (List Method) := l.overridesWithin m l.depth [] (some m.container)

/-- Errors and runtime exceptions need not be declared. -/
def isUnchecked (l : Loader) (type : Ty) : Run Bool :=
  Run.anyOf (fun name => do
    match ← l.knownClass name with
    | some id => l.isSubtype type (.cls id)
    | none => return false) ["java.lang.Error", "java.lang.RuntimeException"]

/-- Every checked exception of `p` is covered by one of `q`. -/
def throwsSubset (l : Loader) (p q : Procedure) : Run Bool :=
  Run.allOf (fun thrown => do
    if ← l.isUnchecked thrown then return true
    else Run.anyOf (fun allowed => l.isSubtype thrown allowed) q.throws) p.throws

/-- Both are visible from the class, or `m` is visible where the other one is declared. -/
def mayImplement (l : Loader) (id : ClassId) (m other : Method) : Run Bool := do
  let visible ← do
    if ← l.isAccessible m.protection id then l.isAccessible other.protection id else pure false
  if visible then return true
  l.isAccessible m.protection (other.container.class?.getD id)

def firstImplementing (l : Loader) (id : ClassId) (m : Method) : List Method → Run (Option Method)
  | [] => return none
  | other :: rest => do
    if other.formals == m.formals && !other.flags.isAbstract then
      if ← l.mayImplement id m other then return some other
    firstImplementing l id m rest

/-- Nothing above the class that declares `m` can implement it. -/
def implementingWithin (l : Loader) (id : ClassId) (m : Method) : (steps : Nat) → (seen : List ClassId) →
    Option ClassId → Run (Option Method)
  | 0, _, _ => Run.exhausted
  | _ + 1, _, none => return none
  | steps + 1, seen, some current => do
    if seen.contains current then return none
    match ← l.firstImplementing id m (← l.methodsNamed current m.name) with
    | some found => return some found
    | none =>
      if m.container = .cls current then return none
      let above := (← l.superType current).bind Ty.class?
      implementingWithin l id m steps (current :: seen) above

/-- A concrete method of the class or its superclasses that implements `m`. -/
def findImplementing (l : Loader) (id : ClassId) (m : Method) : Run (Option Method) :=
  l.implementingWithin id m l.depth [] (some id)

/-- The pending classes, their interfaces, and their abstract superclasses with theirs, depth first. -/
def abstractSourcesWithin (l : Loader) : (steps : Nat) → (found pending : List ClassId) → Run (List ClassId)
  | 0, _, _ => Run.exhausted
  | _ + 1, found, [] => return found
  | steps + 1, found, id :: pending => do
    if found.contains id then abstractSourcesWithin l steps found pending
    else
      let interfaces := (← l.interfaces id).filterMap Ty.class?
      let superclass := (← l.superType id).bind Ty.class?
      let arena ← Run.arena
      let above := superclass.filter fun id => (arena.get id).flags.isAbstract
      abstractSourcesWithin l steps (found ++ [id]) (interfaces ++ above.toList ++ pending)

def checkImplemented (l : Loader) (id declaredIn : ClassId) (m : Method) : Run Unit := do
  if m.flags.isAbstract then
    if (← l.findImplementing id m).isNone then
      let arena ← Run.arena
      Run.fault (.unimplemented (arena.fullName id) (arena.signature m.toProcedure) (arena.fullName declaredIn))
        (arena.get id).position

/-- A class that is not abstract implements every abstract method it inherits. -/
def checkConformance (l : Loader) (id : ClassId) : Run Unit := do
  unless (← Run.record id).flags.isAbstract do
    (← l.abstractSourcesWithin l.depth [] [id]).forM fun declaredIn => do
      (← l.methods declaredIn).forM (l.checkImplemented id declaredIn)

end ClassUniverse.Loader
