import ClassUniverse.World

/-! Scopes: a stack of frames around a place in the declarations. The outermost frame is always there. -/
namespace ClassUniverse

structure ClassNames where
  types : List String := []
  fields : List String := []
  methods : List String := []
  deriving DecidableEq, Repr, Inhabited

inductive FrameKind where
  | outermost
  | source (imports : ImportKey)
  | body (id : ClassId)
  | code (code : Code)
  | block
  deriving DecidableEq, Repr

structure Frame where
  kind : FrameKind
  /-- Identity of the frame; never used twice. -/
  number : Nat
  isStatic : Bool := false
  types : Assoc String Named := .empty
  locals : Assoc String Local := .empty
  /-- Collected when the frame of a class is first asked. -/
  names : Option ClassNames := none
  deriving Repr

structure Scope where
  outermost : Frame := { kind := .outermost, number := 0 }
  inner : List Frame := []
  next : Nat := 1
  deriving Repr

namespace Scope

def frames (s : Scope) : List Frame := s.inner ++ [s.outermost]

def depth (s : Scope) : Nat := s.inner.length + 1

def innermost (s : Scope) : Frame := s.inner.head?.getD s.outermost

def modifyInnermost (s : Scope) (change : Frame → Frame) : Scope :=
  match s.inner with
  | [] => { s with outermost := change s.outermost }
  | frame :: rest => { s with inner := change frame :: rest }

def push (s : Scope) (kind : FrameKind) (isStatic : Bool) : Scope :=
  { s with inner := { kind, number := s.next, isStatic } :: s.inner, next := s.next + 1 }

def bindType (s : Scope) (name : String) (id : ClassId) : Scope :=
  s.modifyInnermost fun frame => { frame with types := frame.types.insert name (.cls id) }

def addClass (s : Scope) (arena : Arena) (id : ClassId) : Scope := s.bindType (arena.get id).name id

def addVariable (s : Scope) (v : Local) : Scope :=
  s.modifyInnermost fun frame => { frame with locals := frame.locals.insert v.name v }

def pushSource (s : Scope) (imports : ImportKey) : Scope := s.push (.source imports) false

/-- Unless it is anonymous, a class can name itself in its body. -/
def pushClass (s : Scope) (arena : Arena) (id : ClassId) : Scope :=
  let s := s.push (.body id) false
  if (arena.get id).kind.isAnonymous then s else s.addClass arena id

def pushCode (s : Scope) (code : Code) : Scope := s.push (.code code) code.isStatic

def pushBlock (s : Scope) : Scope := s.push .block s.innermost.isStatic

/-- A block in a static context, such as the initializer of a static field. -/
def pushStatic (s : Scope) : Scope := s.push .block true

/-- A local class is visible in the enclosing frame once its body is done. -/
def pop? (s : Scope) (arena : Arena) : Option Scope :=
  match s.inner with
  | [] => none
  | frame :: rest =>
    let s := { s with inner := rest }
    match frame.kind with
    | .body id => some (if (arena.get id).kind.isLocal then s.addClass arena id else s)
    | _ => some s

def setNames (s : Scope) (number : Nat) (names : ClassNames) : Scope :=
  { s with inner := s.inner.map fun frame =>
      if frame.number = number then { frame with names := some names } else frame }

def currentClass? (s : Scope) : Option ClassId :=
  s.frames.findSome? fun frame =>
    match frame.kind with
    | .body id => some id
    | _ => none

/-- The innermost code inside the current class. -/
def currentCode? (s : Scope) : Option Code := search s.frames
where
  search : List Frame → Option Code
    | [] => none
    | frame :: rest =>
      match frame.kind with
      | .code code => some code
      | .body _ => none
      | _ => search rest

def importKeys (s : Scope) : List ImportKey :=
  s.frames.filterMap fun frame =>
    match frame.kind with
    | .source imports => some imports
    | _ => none

def package? (s : Scope) (w : World) : Option Package :=
  s.importKeys.findSome? fun key => (w.importTable key).package

def findVariable? (s : Scope) (name : String) : Option Local :=
  s.frames.findSome? fun frame => frame.locals.find? name

/-- The name is a local variable declared inside the body of the current class. -/
def isLocal (s : Scope) (name : String) : Bool := search s.frames
where
  search : List Frame → Bool
    | [] => false
    | frame :: rest =>
      frame.locals.contains name ||
        match frame.kind with
        | .body _ => false
        | _ => search rest

/-- The code around the declaration of a local variable. -/
def definingCode? (s : Scope) (name : String) : Option Code :=
  (s.frames.dropWhile fun frame => !frame.locals.contains name).findSome? fun frame =>
    match frame.kind with
    | .code code => some code
    | _ => none

def text (s : Scope) (w : World) : String :=
  match s.currentClass? with
  | some id => w.arena.fullName id
  | none =>
    match s.importKeys.head?.bind fun key => (w.importTable key).package with
    | some package => package.fullName
    | none => "the default package"

end Scope

end ClassUniverse
