import ClassUniverse.Run

/-! Goals are attempted on demand: what must come first, then the pass that produces the goal. A pass that
misses another goal is run again once that goal is reached. -/
namespace ClassUniverse

/-- Tries to reach a goal; `false` means not yet. -/
abbrev Attempt := Goal → Run Bool

/-- Produces a goal, with the means to attempt others; `false` means that no progress was possible. -/
abbrev Pass := Attempt → Goal → Run Bool

/-- Runs of one goal before it counts as stuck. -/
def maxRuns : Nat := 256

namespace Run

def addPrerequisite (goal prerequisite : Goal) : Run Unit := do
  match (← get).schedule.addPrerequisite? goal prerequisite with
  | some schedule => modifySchedule fun _ => schedule
  | none => throw (.cyclicDependency (.mutualRequirement goal prerequisite))

def addConcurrent (goal other : Goal) : Run Unit := modifySchedule (·.addConcurrent goal other)

/-- Attempts a goal that a computation misses, at most once; the goal being run then waits for it. A goal
that is being produced further out cannot be waited for, which is the answer `false`. -/
def pursue (attempt : Attempt) (attempted : List Goal) (goal : Goal) : Run Bool := do
  let schedule := (← get).schedule
  if schedule.isProducing goal then
    if let some current := schedule.current? then addConcurrent current goal
    return false
  else if attempted.contains goal then throw (.cyclicDependency (.stillMissing goal))
  else
    if let some current := schedule.current? then addPrerequisite current goal
    if ← attempt goal then return true else throw (.missingDependency goal)

/-- Repeats a computation while the goals that it misses can be reached. The stale value, if there is one,
stands in when a goal cannot be waited for. -/
def driveWithin (attempt : Attempt) (stale : Option α) (run : Run α) : (steps : Nat) → (attempted : List Goal) →
    Run α
  | 0, _ => exhausted
  | steps + 1, attempted => do
    match ← run.outcome with
    | .ok a => return a
    | .error (.missingDependency goal) =>
      if ← pursue attempt attempted goal then driveWithin attempt stale run steps (goal :: attempted)
      else
        match stale with
        | some a => return a
        | none => throw (.missingDependency goal)
    | .error e => throw e

def countRun (goal : Goal) : Run Unit := do
  modifySchedule (·.countRun goal)
  if maxRuns < (← get).schedule.runsOf goal then throw (.cyclicDependency (.runsExceeded goal maxRuns))

/-- Runs the pass until it says whether the goal is reached. -/
def runPass (pass : Pass) (attempt : Attempt) (goal : Goal) : (runs : Nat) → Run Bool
  | 0 => exhausted
  | runs + 1 => do
    match ← (do countRun goal; pass attempt goal : Run Bool).outcome with
    | .ok true =>
      if let .typesInitialized job := goal then modifySchedule (·.setInitialized job)
      return true
    | .ok false => return false
    | .error (.missingDependency need) =>
      if (← get).schedule.isProducing need then
        addConcurrent goal need
        return false
      addPrerequisite goal need
      if ← attempt need then runPass pass attempt goal runs else return false
    | .error e => throw e

def attemptAll (attempt : Attempt) (goals : List Goal) : Run Bool := allOf attempt goals

/-- Each run is counted, so that the pass is run at most once more than allowed. -/
def produce (pass : Pass) (attempt : Attempt) (goal : Goal) : Run Bool := do
  if ← attemptAll attempt ((← get).schedule.prerequisitesOf goal) then
    runPass pass attempt goal (maxRuns + 1)
  else return false

/-- The goal is marked as running meanwhile, whatever comes out. -/
def attemptWithin (pass : Pass) : (depth : Nat) → Attempt
  | 0, _ => exhausted
  | depth + 1, goal => do
    let w ← get
    if w.reached goal then return true
    if w.schedule.isProducing goal then return false
    modifySchedule fun s => { s with running := goal :: s.running }
    let result ← (produce pass (attemptWithin pass depth) goal).outcome
    modifySchedule fun s => { s with running := s.running.tail }
    match result with
    | .ok reached => return reached
    | .error e => throw e

def attemptJobs (attempt : Attempt) : Run Unit := do
  (← get).schedule.jobIds.forM fun job => discard (attempt (.typesInitialized job))

def compileClass (attempt : Attempt) (id : ClassId) : Run Unit := do
  if (← record id).job.isSome then
    Stage.all.forM fun stage => do
      unless ← attempt (.reach id stage) do throw (.cyclicDependency (.unreachable (.reach id stage)))

/-- Compiles the classes from an index on, also those that appear meanwhile, and gives the next index. -/
def compileClassesWithin (attempt : Attempt) : (steps : Nat) → (index : Nat) → Run Nat
  | 0, _ => exhausted
  | steps + 1, index => do
    if index < (← arena).size then
      compileClass attempt ⟨index⟩
      compileClassesWithin attempt steps (index + 1)
    else return index

/-- Compiling a class may load further jobs, and those bring further classes. -/
def compileWithin (attempt : Attempt) : (steps : Nat) → (index : Nat) → Run Unit
  | 0, _ => exhausted
  | steps + 1, index => do
    attemptJobs attempt
    if index < (← arena).size then
      compileWithin attempt steps (← compileClassesWithin attempt (steps + 1) index)

end Run

/-- What answers questions about a session: a loader, and a way to reach goals. -/
structure Engine where
  loader : Loader
  attempt : Attempt

namespace Engine

def require (engine : Engine) (run : Run α) : Run α :=
  Run.driveWithin engine.attempt none run engine.loader.depth []

/-- The stale value stands in when the computation waits for a goal that is being produced. -/
def requireOrStale (engine : Engine) (stale : α) (run : Run α) : Run α :=
  Run.driveWithin engine.attempt (some stale) run engine.loader.depth []

/-- Brings every job and every class of a job to completion. -/
def compileAll (engine : Engine) : Run Unit := Run.compileWithin engine.attempt engine.loader.depth 0

end Engine

end ClassUniverse
