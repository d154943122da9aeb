import ClassUniverse.Query

/-! Command lines: which files to read, and the query to answer from them. -/
namespace ClassUniverse

structure Command where
  configPath : Option String := none
  universePath : String
  query : Query
  deriving DecidableEq, Repr

namespace Command

/-- The paths given before the query; each option counts once. -/
structure Options where
  config : Option String := none
  universe? : Option String := none
  deriving DecidableEq, Repr

namespace Options

def setConfig (options : Options) (path : String) : Option Options :=
  if options.config.isSome then none else some { options with config := some path }

def setUniverse (options : Options) (path : String) : Option Options :=
  if options.universe?.isSome then none else some { options with universe? := some path }

/-- An option whose value is part of the same word. -/
def setJoined? (options : Options) (word : String) : Option (Option Options) :=
  let value? (option : String) := (Text.stripStart option.toList word.toList).map String.ofList
  match value? "--config=", value? "--universe=", value? "-u=", value? "-u" with
  | some path, _, _, _ => some (options.setConfig path)
  | _, some path, _, _ | _, _, some path, _ => some (options.setUniverse path)
  | _, _, _, some path => some (if path.isEmpty then none else options.setUniverse path)
  | _, _, _, none => none

def split? : Options → List String → Option (Options × List String)
  | options, [] => some (options, [])
  | options, "--config" :: path :: rest => do split? (← options.setConfig (← Query.value? path)) rest
  | options, "--universe" :: path :: rest => do split? (← options.setUniverse (← Query.value? path)) rest
  | options, "-u" :: path :: rest => do split? (← options.setUniverse (← Query.value? path)) rest
  | options, word :: rest =>
    match options.setJoined? word with
    | some joined => do split? (← joined) rest
    | none => some (options, word :: rest)

end Options

def ofArgs? (args : List String) : Option Command := do
  let (options, words) ← Options.split? {} args
  return {
    configPath := options.config
    universePath := ← options.universe?
    query := ← Query.ofArgs? words }

/-- The report, given what the files hold or why they cannot be used. -/
def report? (command : Command) (engine : Engine) (config : Except String Config)
    (declared : Except String Universe) : Option Report :=
  match config, declared with
  | .error message, _ => some (.failure message)
  | .ok _, .error message => some (.failure message)
  | .ok config, .ok declared => command.query.report? engine (World.ofUniverse config declared)

def usage : String := "Usage: --universe <FILE> [--config <FILE>] <COMMAND>"

end Command

end ClassUniverse
