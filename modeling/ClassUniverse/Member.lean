import ClassUniverse.Flags
import ClassUniverse.Position
import ClassUniverse.Ty

/-! Members of classes, and local variables. Two members are the same when container, flags and signature
agree; where they are declared does not matter. -/
namespace ClassUniverse

structure Field where
  container : Ty
  flags : Flags := .none
  type : Ty
  name : String
  position : Option Position := none
  deriving DecidableEq, Repr, Inhabited

structure Procedure where
  container : Ty
  flags : Flags := .none
  /-- A constructor has the simple name of its class. -/
  name : String
  formals : List Ty := []
  throws : List Ty := []
  position : Option Position := none
  deriving DecidableEq, Repr, Inhabited

structure Method extends Procedure where
  returns : Ty
  deriving DecidableEq, Repr, Inhabited

structure Constructor extends Procedure
  deriving DecidableEq, Repr, Inhabited

structure InitializerBlock where
  container : Ty
  flags : Flags := .none
  deriving DecidableEq, Repr, Inhabited

structure Local where
  flags : Flags := .none
  type : Ty
  name : String
  position : Option Position := none
  deriving DecidableEq, Repr, Inhabited

def Field.isCanonical (f : Field) : Bool := f.container.isCanonical && f.type.isCanonical

def Field.same (f g : Field) : Bool :=
  f.container == g.container && f.flags == g.flags && f.type == g.type && f.name == g.name

def Procedure.isCanonical (p : Procedure) : Bool :=
  p.container.isCanonical && p.formals.all Ty.isCanonical && p.throws.all Ty.isCanonical

def Method.isCanonical (m : Method) : Bool := m.toProcedure.isCanonical && m.returns.isCanonical

def Method.sameSignature (m n : Method) : Bool := m.name == n.name && m.formals == n.formals

def Method.same (m n : Method) : Bool :=
  m.container == n.container && m.flags == n.flags && m.returns == n.returns && m.name == n.name &&
    m.formals == n.formals && m.throws == n.throws

/-- The name takes no part: it is that of the container. -/
def Constructor.same (c d : Constructor) : Bool :=
  c.container == d.container && c.flags == d.flags && c.formals == d.formals && c.throws == d.throws

def Local.same (a b : Local) : Bool := a.flags == b.flags && a.type == b.type && a.name == b.name

/-- What a simple name in an expression can denote. -/
inductive Var where
  | localVar (decl : Local)
  | field (decl : Field)
  deriving DecidableEq, Repr

namespace Var

def name : Var → String
  | .localVar v => v.name
  | .field f => f.name

def type : Var → Ty
  | .localVar v => v.type
  | .field f => f.type

end Var

inductive Code where
  | method (decl : Method)
  | constructor (decl : Constructor)
  | initializer (block : InitializerBlock)
  deriving DecidableEq, Repr

namespace Code

def flags : Code → Flags
  | .method m => m.flags
  | .constructor c => c.flags
  | .initializer b => b.flags

def container : Code → Ty
  | .method m => m.container
  | .constructor c => c.container
  | .initializer b => b.container

def isStatic (code : Code) : Bool := code.flags.isStatic

end Code

/-- Whatever can be declared in a class or its code, classes apart. -/
inductive Member where
  | localVar (decl : Local)
  | field (decl : Field)
  | method (decl : Method)
  | constructor (decl : Constructor)
  | initializer (block : InitializerBlock)
  deriving DecidableEq, Repr

namespace Member

def procedure? : Member → Option Procedure
  | .method m => some m.toProcedure
  | .constructor c => some c.toProcedure
  | _ => none

def method? : Member → Option Method
  | .method m => some m
  | _ => none

def localVar? : Member → Option Local
  | .localVar v => some v
  | _ => none

def code? : Member → Option Code
  | .method m => some (.method m)
  | .constructor c => some (.constructor c)
  | .initializer b => some (.initializer b)
  | _ => none

def withContainer (container : Ty) : Member → Member
  | .localVar v => .localVar v
  | .field f => .field { f with container }
  | .method m => .method { m with container }
  | .constructor c => .constructor { c with container }
  | .initializer b => .initializer { b with container }

def withFlags (flags : Flags) : Member → Member
  | .localVar v => .localVar { v with flags }
  | .field f => .field { f with flags }
  | .method m => .method { m with flags }
  | .constructor c => .constructor { c with flags }
  | .initializer b => .initializer { b with flags }

def withPosition (position : Option Position) : Member → Member
  | .localVar v => .localVar { v with position }
  | .field f => .field { f with position }
  | .method m => .method { m with position }
  | .constructor c => .constructor { c with position }
  | .initializer b => .initializer b

def withName (name : String) : Member → Member
  | .localVar v => .localVar { v with name }
  | .field f => .field { f with name }
  | .method m => .method { m with name }
  | other => other

def withType (type : Ty) : Member → Member
  | .localVar v => .localVar { v with type }
  | .field f => .field { f with type }
  | .method m => .method { m with returns := type }
  | other => other

def withFormals (formals : List Ty) : Member → Member
  | .method m => .method { m with formals }
  | .constructor c => .constructor { c with formals }
  | other => other

def withThrows (throws : List Ty) : Member → Member
  | .method m => .method { m with throws }
  | .constructor c => .constructor { c with throws }
  | other => other

/-- Members of different kinds are never the same. -/
def same : Member → Member → Bool
  | .localVar a, .localVar b => a.same b
  | .field f, .field g => f.same g
  | .method m, .method n => m.same n
  | .constructor c, .constructor d => c.same d
  | .initializer a, .initializer b => a == b
  | _, _ => false

end Member

end ClassUniverse
