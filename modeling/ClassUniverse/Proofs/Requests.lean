import ClassUniverse.Proofs.RespectsLookup
import ClassUniverse.Session

/-! What a session can be asked for, and the worlds that come of it. Requests may fail; the world that a
failure leaves behind is the one that the next request meets. -/
namespace ClassUniverse

inductive Question where
  | find (name : String)
  | packageExists (name : String)
  | classNamed (name : String)
  | typeNamed (written : String)
  | root
  | inPackage (package : Package) (name : String) (accessor : Option ClassId)
  | imported (key : ImportKey) (name : String)
  | memberClass (id : ClassId) (name : String) (accessor : Option ClassId)
  | typeInScope (scope : Scope) (written : String)
  | variableInScope (scope : Scope) (name : String)
  | fieldInScope (scope : Scope) (name : String)
  | methodInScope (scope : Scope) (name : String) (args : List Ty)
  | ensure (id : ClassId) (stage : Stage)
  | superType (id : ClassId)
  | interfaces (id : ClassId)
  | memberClasses (id : ClassId)
  | memberClassNamed (id : ClassId) (name : String)
  | fields (id : ClassId)
  | fieldNamed (id : ClassId) (name : String)
  | methods (id : ClassId)
  | methodsNamed (id : ClassId) (name : String)
  | constructors (id : ClassId)
  | isSame (a b : Ty)
  | descendsFrom (child ancestor : Ty)
  | isSubtype (a b : Ty)
  | isCastValid (a b : Ty)
  | isImplicitCastValid (a b : Ty)
  | leastCommonAncestor (a b : Ty)
  | promote (type : Ty)
  | promoteBinary (a b : Ty)
  | classAccessible (target accessor : ClassId)
  | isAccessibleIn (member : Protection) (container : Ty) (accessor : ClassId)
  | findField (container : Ty) (name : String) (accessor : Option ClassId)
  | callValid (p : Procedure) (args : List Ty)
  | moreSpecific (p q : Procedure)
  | findMethod (container : Ty) (name : String) (args : List Ty) (accessor : Option ClassId)
  | findConstructor (id : ClassId) (args : List Ty) (accessor : Option ClassId)
  | hasMethodNamed (container : Ty) (name : String) (accessor : Option ClassId)
  | overrides (m : Method)
  | throwsSubset (p q : Procedure)
  | findImplementing (id : ClassId) (m : Method)
  | checkConformance (id : ClassId)
  | encode (id : ClassId)

namespace Question

/-- Only what becomes of the world matters here, so the answer is dropped. -/
def ask (l : Loader) : Question → Run Unit
  | find name => discard (l.find name)
  | packageExists name => discard (System.packageExists name)
  | classNamed name => discard (l.classForName name)
  | typeNamed written => discard (l.typeForName written)
  | root => discard l.object
  | inPackage package name accessor => discard (l.findInPackage package name accessor)
  | imported key name => discard (ImportTable.find l key name)
  | memberClass id name accessor => discard (l.findMemberClass id name accessor)
  | typeInScope scope written => discard ((Scope.resolveType l written).within scope)
  | variableInScope scope name => discard ((Scope.findVariable l name).within scope)
  | fieldInScope scope name => discard ((Scope.findField l name).within scope)
  | methodInScope scope name args => discard ((Scope.findMethod l name args).within scope)
  | ensure id stage => l.ensure id stage
  | superType id => discard (l.superType id)
  | interfaces id => discard (l.interfaces id)
  | memberClasses id => discard (l.memberClasses id)
  | memberClassNamed id name => discard (l.memberClassNamed id name)
  | fields id => discard (l.fields id)
  | fieldNamed id name => discard (l.fieldNamed id name)
  | methods id => discard (l.methods id)
  | methodsNamed id name => discard (l.methodsNamed id name)
  | constructors id => discard (l.constructors id)
  | isSame a b => discard (l.isSame a b)
  | descendsFrom child ancestor => discard (l.descendsFrom child ancestor)
  | isSubtype a b => discard (l.isSubtype a b)
  | isCastValid a b => discard (l.isCastValid a b)
  | isImplicitCastValid a b => discard (l.isImplicitCastValid a b)
  | leastCommonAncestor a b => discard (l.leastCommonAncestor a b)
  | promote type => discard (Run.promote type)
  | promoteBinary a b => discard (Run.promoteBinary a b)
  | classAccessible target accessor => discard (l.classAccessible target accessor)
  | isAccessibleIn member container accessor => discard (l.isAccessibleIn member container accessor)
  | findField container name accessor => discard (l.findField container name accessor)
  | callValid p args => discard (l.callValid p args)
  | moreSpecific p q => discard (l.moreSpecific p q)
  | findMethod container name args accessor => discard (l.findMethod container name args accessor)
  | findConstructor id args accessor => discard (l.findConstructor id args accessor)
  | hasMethodNamed container name accessor => discard (l.hasMethodNamed container name accessor)
  | overrides m => discard (l.overrides m)
  | throwsSubset p q => discard (l.throwsSubset p q)
  | findImplementing id m => discard (l.findImplementing id m)
  | checkConformance id => l.checkConformance id
  | encode id => discard (l.encode id)

open Loader Run in
theorem ask_within [WorldOrder R] {l : Loader} (sound : l.Respects R)
    (question : Question) : (question.ask l).Within R := by
  have here : Scoped.Composes (fun _ x => x.Within R) (fun _ x => x.Within R) fun _ => True := Scoped.within_composes
  have fields := findField_within sound
  have has := hasMethodNamed_within sound
  cases question with
  | find => exact within_discard (sound.find _)
  | packageExists => exact within_discard (sound.packages _)
  | classNamed => exact within_discard (sound.searches.classForName _)
  | typeNamed => exact within_discard (typeForName_within sound _)
  | root => exact within_discard sound.root
  | inPackage => exact within_discard (sound.climbs.findInPackage _ _ _)
  | imported => exact within_discard (sound.imported _ _)
  | memberClass => exact within_discard (sound.searches.findMemberClass _ _ _)
  | typeInScope => exact within_discard ((here.resolveType sound.resolves _).inScope _)
  | variableInScope => exact within_discard ((here.findVariable sound.resolves fields _).inScope _)
  | fieldInScope => exact within_discard ((here.findField sound.resolves fields _).inScope _)
  | methodInScope =>
    exact within_discard ((here.findMethod sound.resolves has (findMethod_within sound) _ _).inScope _)
  | ensure => exact sound.ensure _ _
  | superType => exact within_discard (sound.steps.superType _)
  | interfaces => exact within_discard (sound.steps.interfaces _)
  | memberClasses => exact within_discard (sound.steps.view _ _ (·.members))
  | memberClassNamed => exact within_discard (sound.steps.memberClassNamed _ _)
  | fields => exact within_discard (sound.steps.view _ _ (·.fields))
  | fieldNamed => exact within_discard (sound.steps.fieldNamed _ _)
  | methods => exact within_discard (sound.steps.methods _)
  | methodsNamed => exact within_discard (sound.steps.methodsNamed _ _)
  | constructors => exact within_discard (sound.steps.view _ _ (·.constructors))
  | isSame => exact within_discard (isSame_within _ _)
  | descendsFrom => exact within_discard (sound.climbs.descendsFrom _ _)
  | isSubtype => exact within_discard (isSubtype_within sound _ _)
  | isCastValid => exact within_discard (isCastValid_within sound _ _)
  | isImplicitCastValid => exact within_discard (isImplicitCastValid_within sound _ _)
  | leastCommonAncestor => exact within_discard (commonAncestorWithin_within sound _ _ _)
  | promote => exact within_discard (promote_within _)
  | promoteBinary => exact within_discard (promoteBinary_within _ _)
  | classAccessible => exact within_discard (sound.climbs.classAccessible _ _)
  | isAccessibleIn => exact within_discard (sound.climbs.isAccessibleIn _ _ _)
  | findField => exact within_discard (findField_within sound _ _ _)
  | callValid => exact within_discard (callValid_within sound _ _)
  | moreSpecific => exact within_discard (moreSpecific_within sound _ _)
  | findMethod => exact within_discard (findMethod_within sound _ _ _ _)
  | findConstructor => exact within_discard (findConstructor_within sound _ _ _)
  | hasMethodNamed => exact within_discard (hasMethodNamed_within sound _ _ _)
  | overrides => exact within_discard (overrides_within sound _)
  | throwsSubset => exact within_discard (throwsSubset_within sound _ _)
  | findImplementing => exact within_discard (findImplementing_within sound _ _)
  | checkConformance => exact checkConformance_within sound _
  | encode => exact within_discard (encode_within sound _)

end Question

inductive Request where
  | ask (question : Question)
  /-- As `ask`, but the goals that are missing are attempted. -/
  | require (question : Question)
  | compileAll
  | load (source : SourceFile)

namespace Request

def run (engine : Engine) : Request → Run Unit
  | ask question => question.ask engine.loader
  | require question => engine.require (question.ask engine.loader)
  | compileAll => engine.compileAll
  | load source => discard (Run.loadSource source)

/-- The world that a request leaves behind. -/
def next (request : Request) (depth : Nat) (w : World) : World :=
  ((request.run (.ofDepth depth)).on w).elim w (·.2)

/-- Only sources of the universe are loaded. -/
def Belongs (u : Universe) : Request → Prop
  | load source => source ∈ u.sources
  | _ => True

end Request

/-- Some requests, each answered or failed at some depth, lead from one world to another. -/
inductive Leads (u : Universe) : World → World → Prop where
  | refl (w : World) : Leads u w w
  | step {w middle after : World} {result : Except Error Unit} (request : Request) (depth : Nat)
      (earlier : Leads u w middle) (belongs : request.Belongs u)
      (ran : (request.run (.ofDepth depth)).on middle = some (result, after)) : Leads u w after

/-- The worlds of sessions over a universe. -/
def Reachable (config : Config) (u : Universe) (w : World) : Prop := Leads u (.ofUniverse config u) w

theorem Leads.next (led : Leads u w middle) (request : Request) (depth : Nat) (belongs : request.Belongs u) :
    Leads u w (request.next depth middle) := by
  unfold Request.next
  cases ran : (request.run (.ofDepth depth)).on middle with
  | none => exact led
  | some outcome => exact .step request depth led belongs ran

/-- A relation that every request respects is respected by all of them together. -/
theorem Leads.within [WorldOrder R] (led : Leads u w after)
    (kept : ∀ (request : Request) depth, request.Belongs u → (request.run (.ofDepth depth)).Within R) : R w after := by
  induction led with
  | refl => exact WorldOrder.refl _
  | step request depth _ belongs ran ih =>
    exact WorldOrder.trans ih ((kept request depth belongs).left ran)

end ClassUniverse
