import ClassUniverse.Error
import ClassUniverse.World

/-! Computations on a world. They answer or fail, and the world stays as they left it in both cases; they
have no outcome at all when they nest deeper than they are allowed to. -/
namespace ClassUniverse

abbrev Run := ExceptT Error (StateT World Option)

namespace Run

/-- Too deep: neither answer nor error. -/
def exhausted : Run α := ExceptT.mk fun _ => none

/-- The answer or the error of a computation, as a value. -/
def outcome (run : Run α) : Run (Except Error α) := ExceptT.lift (ExceptT.run run)

def fault (fault : Fault) (position : Option Position := none) : Run α := throw (.semantic fault position)

def arena : Run Arena := return (← get).arena

def record (id : ClassId) : Run ClassRecord := return (← get).arena.get id

def fullName (id : ClassId) : Run String := return (← get).arena.fullName id

def typeName (type : Ty) : Run String := return (← get).arena.typeName type

def isRoot (id : ClassId) : Run Bool := return (← get).isRoot id

def isInterface (id : ClassId) : Run Bool := return (← get).arena.isInterface id

def addClass (record : ClassRecord) : Run ClassId :=
  modifyGet fun w =>
    let (id, arena) := w.arena.add record
    (id, { w with arena })

def update (id : ClassId) (change : ClassRecord → ClassRecord) : Run Unit :=
  modify fun w => { w with arena := w.arena.modify id change }

def mark (id : ClassId) (stage : Stage) : Run Unit := update id (·.markStage stage)

def modifyTable (slot : Slot) (change : Table → Table) : Run Unit :=
  modify fun w => { w with tables := w.tables.insert slot (change (w.table slot)) }

def modifyCache (slot : Slot) (change : Layers → Layers) : Run Unit :=
  modify fun w => { w with caches := w.caches.insert slot (change (w.cache slot)) }

def modifyMemo (key : MemoKey) (change : Memo → Memo) : Run Unit :=
  modify fun w => { w with memos := w.memos.insert key (change (w.memo key)) }

def modifyImports (key : ImportKey) (change : ImportTable → ImportTable) : Run Unit :=
  modify fun w => { w with imports := w.imports.insert key (change (w.importTable key)) }

def modifySchedule (change : Schedule → Schedule) : Run Unit :=
  modify fun w => { w with schedule := change w.schedule }

def check (name : String) : Run (Option Named) := return (← get).system.check name

/-- Whether some element passes, tried in order until one does. -/
def anyOf (test : α → Run Bool) : List α → Run Bool
  | [] => return false
  | a :: rest => do if ← test a then return true else anyOf test rest

/-- Whether all elements pass, tried in order until one does not. -/
def allOf (test : α → Run Bool) : List α → Run Bool
  | [] => return true
  | a :: rest => do if ← test a then allOf test rest else return false

/-- The elements that pass, tried in order. -/
def keep (test : α → Run Bool) : List α → Run (List α)
  | [] => return []
  | a :: rest => do if ← test a then return a :: (← keep test rest) else keep test rest

end Run

/-- Finds names and completes stages. A loader of some depth relies on one of smaller depth for whatever
its work needs in turn. -/
structure Loader where
  depth : Nat
  find : String → Run Named
  ensure : ClassId → Stage → Run Unit

/-- More levels, and more steps, than any machine has room for. Work that ends at all ends within them. -/
def Loader.ampleDepth : Nat := 1 <<< 48

end ClassUniverse
