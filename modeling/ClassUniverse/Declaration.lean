import ClassUniverse.Inheritance
import ClassUniverse.Resolver
import ClassUniverse.Scheduling
import ClassUniverse.Scope.Lookup

/-! The passes that make classes out of declarations, one for each goal. A pass stores what it has found
only when all of it is found. -/
namespace ClassUniverse

namespace Scoped

/-- Repeats a look-up in a scope while the goals that it misses can be reached. -/
def driveWithin (attempt : Attempt) (x : Scoped α) : (steps : Nat) → (attempted : List Goal) → Scoped α
  | 0, _ => (Run.exhausted : Run α)
  | steps + 1, attempted => do
    match ← x.outcome with
    | .ok a => return a
    | .error (.missingDependency goal) =>
      if ← Run.pursue attempt attempted goal then driveWithin attempt x steps (goal :: attempted)
      else throw (.missingDependency goal)
    | .error e => throw e

end Scoped

def Engine.requireScoped (engine : Engine) (x : Scoped α) : Scoped α :=
  x.driveWithin engine.attempt engine.loader.depth []

namespace Run

def checkFlags (flags : Flags) (what : Declared) (position : Option Position) : Run Unit :=
  match flags.check what with
  | .ok () => return ()
  | .error fault => throw (.invalidFlags fault position)

def declarationOf (id : ClassId) : Run ClassDecl := do
  let w ← get
  match w.declarations.find? id with
  | some decl => return decl
  | none => fault (.noDeclaration (w.arena.fullName id))

end Run

namespace Flags

/-- Interfaces are abstract, and member classes of interfaces are public and static. -/
def impliedForClass (flags : Flags) (inInterface : Bool) : Flags :=
  let flags := if flags.isInterface then flags.union (.ofList [.abstract]) else flags
  if inInterface then flags.union (.ofList [.publicAccess, .static]) else flags

def impliedForField (flags : Flags) (inInterface : Bool) : Flags :=
  if inInterface then flags.union (.ofList [.publicAccess, .static, .final]) else flags

def impliedForMethod (flags : Flags) (inInterface : Bool) : Flags :=
  if inInterface then flags.union (.ofList [.publicAccess, .abstract]) else flags

end Flags

namespace ClassDecl

/-- The shell of a declared class, recorded and installed under its full name. -/
def declareShell (job : JobId) (path : String) (kind : ClassKind) (package : Option Package) (full : String)
    (decl : ClassDecl) : Run ClassId := do
  let position := some { file := path, line := decl.line }
  let inInterface := kind.outer?.any (← Run.arena).isInterface
  let flags := decl.flags.impliedForClass inInterface
  Run.checkFlags flags (if kind.isMember then .memberClass else .topLevelClass) position
  let id ← Run.addClass
    { name := decl.name, package, kind, flags, position, job := some job, completion := some .scheduled }
  modify fun w => { w with declarations := w.declarations.insert id decl }
  Run.modifyTable .session (·.insert full (.cls id))
  System.addNamed full (.cls id)
  return id

mutual

/-- Member classes follow their class and are listed in it. -/
def declare (job : JobId) (path : String) (kind : ClassKind) (package : Option Package) (full : String) :
    ClassDecl → Run ClassId
  | ⟨name, flags, superclass, interfaces, fields, methods, constructors, members, line⟩ => do
    let id ← declareShell job path kind package full
      ⟨name, flags, superclass, interfaces, fields, methods, constructors, members, line⟩
    declareMembers job path id package full members
    return id

def declareMembers (job : JobId) (path : String) (outer : ClassId) (package : Option Package) (full : String) :
    List ClassDecl → Run Unit
  | [] => return ()
  | member :: rest => do
    let id ← declare job path (.memberOf outer) package (qualify full member.name) member
    Run.update outer fun record => { record with members := record.members ++ [id] }
    declareMembers job path outer package full rest

end

end ClassDecl

namespace SourceFile

def importTable (source : SourceFile) (config : Config) : ImportTable :=
  source.imports.foldl ImportTable.add
    { package := source.package.map Package.mk, position := some source.position, defaults := config.defaultImports }

/-- A class that the job has declared before is left as it is. -/
def declareClass (source : SourceFile) (job : JobId) (decl : ClassDecl) : Run Unit := do
  let full := match source.package with
    | some package => qualify package decl.name
    | none => decl.name
  let w ← get
  let existing := (w.system.check full).bind Named.class?
  unless existing.any fun id => (w.arena.get id).job = some job do
    discard (decl.declare job source.path .topLevel (source.package.map Package.mk) full)

def declareAll (source : SourceFile) (job : JobId) : Run Unit := do
  let table := source.importTable (← get).config
  Run.modifyImports (.unit job) fun _ => table
  source.classes.forM (source.declareClass job)

end SourceFile

/-- A written type before it is resolved: only primitive types are known. -/
def writtenType (written : String) : Ty :=
  let (base, dims) := splitDims written
  match Primitive.ofName? base with
  | some kind => .arrayOf (.primitive kind) dims
  | none => .unknown (trimName written)

def FieldDecl.toField (id : ClassId) (owner : ClassRecord) (d : FieldDecl) : Run Field := do
  let flags := d.flags.impliedForField owner.flags.isInterface
  Run.checkFlags flags .field owner.position
  return { container := .cls id, flags, type := writtenType d.type, name := d.name, position := owner.position }

def MethodDecl.toMethod (id : ClassId) (owner : ClassRecord) (d : MethodDecl) : Run Method := do
  let flags := d.flags.impliedForMethod owner.flags.isInterface
  Run.checkFlags flags .method owner.position
  if flags.isAbstract && !owner.flags.isAbstract then
    Run.fault (.abstractInConcrete d.name (← Run.fullName id)) owner.position
  return {
    container := .cls id, flags, name := d.name, formals := d.params.map writtenType,
    throws := d.throws.map writtenType, returns := writtenType d.returns, position := owner.position }

def ConstructorDecl.toConstructor (id : ClassId) (owner : ClassRecord) (d : ConstructorDecl) :
    Run Constructor := do
  if owner.flags.isInterface then Run.fault .interfaceConstructor owner.position
  Run.checkFlags d.flags .constructor owner.position
  return {
    container := .cls id, flags := d.flags, name := owner.name, formals := d.params.map writtenType,
    throws := d.throws.map writtenType, position := owner.position }

/-- A class that declares no constructor has one with the access of the class. -/
def ClassRecord.defaultConstructors (owner : ClassRecord) (id : ClassId) : List Constructor :=
  if owner.flags.isInterface then [] else [{ container := .cls id, flags := owner.flags.access, name := owner.name }]

namespace Loader

def initializeTypes (job : JobId) : Run Unit := do
  match (← get).schedule.source? job with
  | some source => source.declareAll job
  | none => Run.fault (.noSourceOf job)

/-- The scope of the header of a class: its source file and the classes around it. -/
def headerScope (id : ClassId) : Run Scope := do
  let w ← get
  match (w.arena.get id).job.filter fun job => w.imports.contains (.unit job) with
  | none => Run.fault (.noJobOf (w.arena.fullName id))
  | some job =>
    return (w.arena.outers id).foldr (fun outer (s : Scope) => s.pushClass w.arena outer)
      (({} : Scope).pushSource (.unit job))

def bodyScope (id : ClassId) : Run Scope := return (← headerScope id).pushClass (← Run.arena) id

/-- The declared superclass, or the root class. Interfaces and the root class itself have none. -/
def declaredSuper (l : Loader) (id : ClassId) (written : Option String) : Scoped (Option Ty) := do
  let record ← Run.record id
  match written with
  | some name =>
    let type ← Scope.resolveType l name
    let arena ← Run.arena
    match type.class?.filter fun superclass => !arena.isInterface superclass with
    | none => (Run.fault (.extendsNonClass name) record.position : Run _)
    | some superclass =>
      if record.flags.isInterface then (Run.fault .interfaceExtendsClass record.position : Run _)
      else if (arena.get superclass).flags.isFinal then (Run.fault (.extendsFinal name) record.position : Run _)
      else return some type
  | none =>
    if record.flags.isInterface then return none
    else if ← Run.isRoot id then return none
    else return some (← l.objectType)

def declaredInterface (l : Loader) (position : Option Position) (name : String) : Scoped Ty := do
  let type ← Scope.resolveType l name
  let arena ← Run.arena
  if type.class?.any arena.isInterface then return type
  else (Run.fault (.implementsNonInterface name) position : Run Ty)

def declaredSupertypes (l : Loader) (id : ClassId) (decl : ClassDecl) : Scoped (Option Ty × List Ty) := do
  let superType ← l.declaredSuper id decl.superclass
  let position := (← Run.record id).position
  let interfaces ← decl.interfaces.mapM (l.declaredInterface position)
  return (superType, interfaces)

/-- Supertypes that would close a cycle are taken back. -/
def resolveSupertypes (l : Loader) (id : ClassId) : Run Unit := do
  let decl ← Run.declarationOf id
  let scope ← headerScope id
  let (superType, interfaces) ← (l.declaredSupertypes id decl).within scope
  let previous ← Run.record id
  Run.update id fun record => { record with superType, interfaces }
  match (← Run.arena).checkCycles id with
  | .ok () => Run.mark id .supertypesResolved
  | .error e =>
    Run.update id fun record =>
      { record with superType := previous.superType, interfaces := previous.interfaces }
    throw e

def addMembers (id : ClassId) : Run Unit := do
  let decl ← Run.declarationOf id
  let owner ← Run.record id
  let fields ← decl.fields.mapM (FieldDecl.toField id owner)
  let methods ← decl.methods.mapM (MethodDecl.toMethod id owner)
  let constructors ← decl.constructors.mapM (ConstructorDecl.toConstructor id owner)
  let constructors := if constructors.isEmpty then owner.defaultConstructors id else constructors
  Run.update id fun record => { record with fields, methods, constructors }.markStage .membersAdded

def resolveWritten (l : Loader) : Ty → Scoped Ty
  | .unknown name => Scope.resolveType l name
  | type => return type

def resolveField (l : Loader) (f : Field) : Scoped Field := return { f with type := ← l.resolveWritten f.type }

def resolveProcedure (l : Loader) (p : Procedure) : Scoped Procedure := do
  let formals ← p.formals.mapM l.resolveWritten
  return { p with formals, throws := ← p.throws.mapM l.resolveWritten }

def resolveMethod (l : Loader) (m : Method) : Scoped Method := do
  let returns ← l.resolveWritten m.returns
  return { toProcedure := ← l.resolveProcedure m.toProcedure, returns }

def resolveMembers (l : Loader) (record : ClassRecord) : Scoped ClassRecord := do
  let fields ← record.fields.mapM l.resolveField
  let methods ← record.methods.mapM l.resolveMethod
  let constructors ← record.constructors.mapM fun c => Constructor.mk <$> l.resolveProcedure c.toProcedure
  return { record with fields, methods, constructors }

/-- Names in signatures are resolved in the body of the class. -/
def resolveSignatures (l : Loader) (id : ClassId) : Run Unit := do
  let scope ← bodyScope id
  let resolved ← (l.resolveMembers (← Run.record id)).within scope
  Run.update id fun record =>
    { record with
      fields := resolved.fields, methods := resolved.methods,
      constructors := resolved.constructors }.markStage .signaturesResolved

/-- The supertypes come first, except those that wait for this very class. -/
def checkAllMembers (l : Loader) (attempt : Attempt) (id : ClassId) : Run Unit := do
  let supers ← l.supertypes id
  (supers.filterMap Ty.class?).forM fun above =>
    Engine.requireOrStale ⟨l, attempt⟩ () (l.ensureAllMembers above)
  l.checkConformance id
  Run.mark id .allMembersAdded

def reachStage (l : Loader) (attempt : Attempt) (id : ClassId) : Stage → Run Unit
  | .supertypesResolved => l.resolveSupertypes id
  | .membersAdded => addMembers id
  | .signaturesResolved => l.resolveSignatures id
  | .allMembersAdded => l.checkAllMembers attempt id

def declarationPass (l : Loader) : Pass
  | _, .typesInitialized job => do
    initializeTypes job
    return true
  | attempt, .reach id stage => do
    unless (← get).hasStage id stage do l.reachStage attempt id stage
    return true

end Loader

end ClassUniverse
