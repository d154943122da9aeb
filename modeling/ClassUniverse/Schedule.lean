import ClassUniverse.Goal
import ClassUniverse.Source

/-! What is known about jobs and goals. Goals of classes are reached when the class has the stage; only
goals of jobs are recorded as reached. -/
namespace ClassUniverse

structure Schedule where
  jobs : List SourceFile := []
  prerequisites : Assoc Goal (List Goal) := .empty
  /-- Goals that complete in the same pass. -/
  concurrent : Assoc Goal (List Goal) := .empty
  /-- Goals being run, the innermost first. -/
  running : List Goal := []
  runs : Assoc Goal Nat := .empty
  initialized : List JobId := []
  deriving Repr, Inhabited

namespace Schedule

def jobIds (s : Schedule) : List JobId := (List.range s.jobs.length).map JobId.mk

def source? (s : Schedule) (job : JobId) : Option SourceFile := s.jobs[job.index]?

/-- Jobs are told apart by the path of their source. -/
def jobOf? (s : Schedule) (path : String) : Option JobId :=
  (s.jobs.findIdx? fun source => source.path == path).map JobId.mk

def load (s : Schedule) (source : SourceFile) : JobId × Schedule :=
  match s.jobOf? source.path with
  | some job => (job, s)
  | none => (⟨s.jobs.length⟩, { s with jobs := s.jobs ++ [source] })

/-- The stages that must come first, then what was recorded. -/
def prerequisitesOf (s : Schedule) (goal : Goal) : List Goal := goal.prerequisites ++ s.prerequisites.getD goal []

def concurrentWith (s : Schedule) (goal : Goal) : List Goal := s.concurrent.getD goal []

def runsOf (s : Schedule) (goal : Goal) : Nat := s.runs.getD goal 0

def isProducing (s : Schedule) (goal : Goal) : Bool := s.running.contains goal

def current? (s : Schedule) : Option Goal := s.running.head?

def addConcurrent (s : Schedule) (goal other : Goal) : Schedule :=
  let known := s.concurrentWith goal
  { s with concurrent := s.concurrent.insert goal (if known.contains other then known else known ++ [other]) }

/-- Goals that occur in recorded edges, with repetitions. -/
def edgeEnds (s : Schedule) : List Goal := s.prerequisites.entries.flatMap fun entry => entry.1 :: entry.2

/-- Follows recorded edges from the pending goals; each step takes one of them. -/
def leadsToWithin (s : Schedule) (target : Goal) : (steps : Nat) → (seen pending : List Goal) → Bool
  | 0, _, _ => false
  | _ + 1, _, [] => false
  | steps + 1, seen, goal :: pending =>
    if goal = target then true
    else if seen.contains goal then leadsToWithin s target steps seen pending
    else leadsToWithin s target steps (goal :: seen) (s.prerequisites.getD goal [] ++ pending)

/-- A chain of recorded edges leads from `goal` to `target`. -/
def leadsTo (s : Schedule) (goal target : Goal) : Bool :=
  s.leadsToWithin target (s.edgeEnds.length + 2) [] [goal]

/-- Refused if the prerequisite already needs the goal. -/
def addPrerequisite? (s : Schedule) (goal prerequisite : Goal) : Option Schedule :=
  if goal = prerequisite || s.leadsTo prerequisite goal then none
  else
    let known := s.prerequisites.getD goal []
    some { s with
      prerequisites := s.prerequisites.insert goal
        (if known.contains prerequisite then known else known ++ [prerequisite]) }

def countRun (s : Schedule) (goal : Goal) : Schedule :=
  { s with runs := s.runs.insert goal (s.runsOf goal + 1) }

def setInitialized (s : Schedule) (job : JobId) : Schedule :=
  { s with initialized := if s.initialized.contains job then s.initialized else job :: s.initialized }

end Schedule

end ClassUniverse
