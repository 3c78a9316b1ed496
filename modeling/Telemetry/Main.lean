import Telemetry.CommandLine
import Telemetry.Schema.Json
import Telemetry.Settings.Toml
import Telemetry.Timeline.Run

/-!
# The program

Runs an engine over a datastore loaded from files, on the clock of the machine. Every event is
printed as a line of JSON; commands are read line by line. When the input ends the engine goes on.
-/
namespace Telemetry.Program

/-- How often the clock is looked at, in milliseconds. -/
def pace : UInt32 := 5

def orFail : Except Error α → IO α
  | .ok a => return a
  | .error e => throw (IO.userError e.message)

def readText (path : String) : IO String := do
  try IO.FS.readFile path
  catch e => orFail (.error (.fileUnreadable path (toString e)))

def readJson (path : String) : IO Json := do
  match Json.read? (← readText path) with
  | some j => return j
  | none => orFail (.error (.malformedJson s!"{path} holds no JSON"))

def settings (o : RunOptions) : IO Settings := do
  let s ← match o.config with
    | some path => orFail (Settings.ofText (← readText path))
    | none => pure .standard
  return match o.minInterval with
    | some ms => s.withMinInterval (ms * 1_000_000)
    | none => s

/-- The engine with its server, before anything has happened. -/
def assemble (schema : String) (o : RunOptions) : IO Timeline := do
  let s ← settings o
  let d ← match o.data with
    | some path => orFail (Datastore.load .empty (← readJson path))
    | none => pure .empty
  let schema ← orFail (Schema.ofText (← readText schema))
  orFail s.validate
  return (Timeline.ofEngine (s.setup schema) (.fresh d)).serve

/-- Lets a caller act, prints what was sent and hands over what it came to. -/
def act (t : Timeline) (script : Script) : IO (Timeline × Option Outcome) := do
  let (t, outcome) := t.perform script
  let (t, sent) := t.collect
  for n in sent do IO.println n.event.toJson.compact
  (← IO.getStdout).flush
  return (t, outcome.map (·.2))

/-- Lets time pass up to now. -/
def catchUp (t : Timeline) (start : Nat) : IO Timeline := do
  let now := ((← IO.monoMsNow) - start) * 1_000_000
  let (t, _) ← act t (.sleep (now - t.engine.now) (.done (.ok .null)))
  return t

def create (t : Timeline) (path : String) : IO Timeline := do
  let payload ← readJson path
  match (payload.member? "id").bind Json.nat? with
  | none =>
    IO.eprintln s!"{path} has no request id"
    return t
  | some id =>
    let m := t.setup.moduleName
    let (t, outcome) ← act t (.commit m [.creation (requestPath m id) payload])
    if let some (.error e) := outcome then
      IO.eprintln s!"subscribe-request {id} from {path} rejected: {e.message}"
    return t

def obey (t : Timeline) (line : String) : IO Timeline := do
  let (t, outcome) ← act t (.command t.setup.moduleName line)
  match outcome with
  | some (.ok (.array lines)) => for l in lines do IO.println (l.string?.getD "")
  | some (.error e) => IO.eprintln s!"{line.trimAscii}: {e.message}"
  | _ => pure ()
  (← IO.getStdout).flush
  return t

/-- Commands as they arrive, and the clock in between. -/
partial def attend (t : Timeline) (start : Nat)
    (line : Option (Task (Except IO.Error String))) : IO Unit := do
  let t ← catchUp t start
  match line with
  | none =>
    IO.sleep pace
    attend t start none
  | some task =>
    if ← IO.hasFinished task then
      match task.get with
      | .error e => throw e
      | .ok "" => attend t start none
      | .ok line =>
        let t ← obey t line
        attend t start (some (← IO.asTask (← IO.getStdin).getLine))
    else
      IO.sleep pace
      attend t start line

def run (schema : String) (o : RunOptions) : IO Unit := do
  let mut t ← assemble schema o
  let start ← IO.monoMsNow
  for path in o.requests do t ← create t path
  attend t start (some (← IO.asTask (← IO.getStdin).getLine))

end Telemetry.Program

open Telemetry in
def main (args : List String) : IO UInt32 := do
  match CommandLine.parse? args with
  | none =>
    IO.eprintln CommandLine.usage
    return 2
  | some .sampleConfig =>
    IO.print Settings.sample
    return 0
  | some .showVersion =>
    IO.println s!"telemetry {CommandLine.version}"
    return 0
  | some (.run schema o) =>
    try
      Program.run schema o
      return 0
    catch e =>
      IO.eprintln s!"Error: {e}"
      return 1
