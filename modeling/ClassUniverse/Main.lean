import ClassUniverse.Command

/-! The command line. -/
namespace ClassUniverse

def readFailure : IO.Error → String
  | .noFileOrDirectory .. => "No such file or directory (os error 2)"
  | e => toString e

def readText (path : String) : IO (Except String String) := do
  try return .ok (← IO.FS.readFile path)
  catch e => return .error (Error.message (.io (readFailure e)))

def readDocument (what path : String) (decode : Json → Option α) : IO (Except String α) := do
  match ← readText path with
  | .error message => return .error message
  | .ok text =>
    match (Json.parse? text).bind decode with
    | some value => return .ok value
    | none => return .error ("invalid " ++ what ++ " " ++ path)

def Command.report (command : Command) : IO Report := do
  let config ← match command.configPath with
    | some path => readDocument "configuration" path Config.ofJson?
    | none => pure (.ok {})
  let declared ← readDocument "universe" command.universePath Universe.ofJson?
  let report := command.report? (Engine.ofDepth Loader.ampleDepth) config declared
  return report.getD (.failure "nested too deeply")

end ClassUniverse

open ClassUniverse

def main (args : List String) : IO UInt32 := do
  match Command.ofArgs? args with
  | none =>
    IO.eprintln Command.usage
    return 2
  | some command =>
    let report ← command.report
    IO.print report.output
    IO.eprint report.errors
    return report.exitCode.toUInt32
