import ClassUniverse.Resolver
import ClassUniverse.Scheduling

/-! Passes given by scripts: for each goal the actions to perform, noting what happens. -/
namespace ClassUniverse

inductive Action where
  /-- Fails unless the goal is reached. -/
  | need (goal : Goal)
  /-- Asks for the goal even if it is reached. -/
  | insist (goal : Goal)
  | require (goal : Goal)
  /-- Notes whether the goal is reached, and attempts it if it can. -/
  | peek (goal : Goal)
  | mark (goal : Goal)
  | ensure (goal : Goal)
  | fail (text : String)
  | stuck
  | current
  deriving DecidableEq, Repr

namespace Action

/-- An action is an object with one member, named for it. -/
def ofJson? : Json → Option Action
  | .object [(word, value)] =>
    let goal? := value.string?.bind Goal.ofText?
    match word with
    | "need" => goal?.map need
    | "insist" => goal?.map insist
    | "require" => goal?.map require
    | "peek" => goal?.map peek
    | "mark" => goal?.map mark
    | "ensure" => goal?.map ensure
    | "fail" => value.string?.map fail
    | "stuck" => some stuck
    | "current" => some current
    | _ => none
  | _ => none

end Action

abbrev Script := Assoc Goal (List Action)

/-- A script is an object with the actions under the text of their goal. -/
def Script.ofJson? : Json → Option Script
  | .object members => do
    let entries ← members.mapM fun (key, actions) => do
      return (← Goal.ofText? key, ← actions.list? Action.ofJson?)
    return .ofList entries
  | _ => none

namespace Run

def note (text : String) : Run Unit := modify fun w => { w with notes := w.notes ++ [text] }

def demand (goal : Goal) : Run Bool := do
  if (← get).reached goal then return true else throw (.missingDependency goal)

/-- Only stages of classes can be marked. -/
def markGoal : Goal → Run Unit
  | .reach id stage => mark id stage
  | .typesInitialized _ => return ()

def currentText : Run String := return (((← get).schedule.current?).map Goal.text).getD "none"

end Run

namespace Loader

def ensureGoal (l : Loader) : Goal → Run Unit
  | .reach id stage => l.ensure id stage
  | .typesInitialized _ => return ()

end Loader

namespace Script

/-- Performs the actions in order; `false` ends the run at once. -/
def perform (engine : Engine) : List Action → Run Bool
  | [] => return true
  | action :: rest => do
    match action with
    | .need goal => discard (Run.demand goal)
    | .insist goal => throw (.missingDependency goal)
    | .require goal => discard (engine.require (Run.demand goal))
    | .peek goal =>
      let fresh ← engine.requireOrStale false (Run.demand goal)
      Run.note ((if fresh then "fresh " else "stale ") ++ goal.text)
    | .mark goal => Run.markGoal goal
    | .ensure goal => engine.loader.ensureGoal goal
    | .fail text => Run.fault (.reported text)
    | .stuck => return false
    | .current => Run.note ("current " ++ (← Run.currentText))
    perform engine rest

/-- Every run of a goal is noted first. -/
def pass (script : Script) (l : Loader) : Pass := fun attempt goal => do
  Run.note ("run " ++ goal.text)
  perform ⟨l, attempt⟩ (script.getD goal [])

end Script

def Engine.scripted (script : Script) (depth : Nat) : Engine :=
  let l := Loader.ofDepth depth
  ⟨l, Run.attemptWithin (script.pass l) depth⟩

end ClassUniverse
