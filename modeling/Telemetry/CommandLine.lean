import Telemetry.Text.Natural

/-!
# The command line

The program prints sample settings or its version, or runs an engine on files. An option is followed
by its value; only the request files may be several.
-/
namespace Telemetry

/-- What to run an engine with. All but the least interval are names of files. -/
structure RunOptions where
  config : Option String := none
  schema : Option String := none
  data : Option String := none
  /-- Requests to create at the start, in order. -/
  requests : List String := []
  /-- Milliseconds that replace the least interval of the settings. -/
  minInterval : Option Nat := none
  deriving DecidableEq, Repr

inductive CommandLine where
  | sampleConfig
  | showVersion
  | run (schema : String) (o : RunOptions)
  deriving DecidableEq, Repr

namespace CommandLine

/-- Sets an option that is not set yet. -/
def once (current : Option String) (value : String) : Option (Option String) :=
  if current.isSome then none else some (some value)

def option? (o : RunOptions) (name value : String) : Option RunOptions := do
  match name with
  | "-c" | "--config" => return { o with config := ← once o.config value }
  | "-s" | "--schema" => return { o with schema := ← once o.schema value }
  | "-d" | "--data" => return { o with data := ← once o.data value }
  | "-r" | "--request" => return { o with requests := o.requests ++ [value] }
  | "--min-interval-ms" =>
    if o.minInterval.isSome then none
    else return { o with minInterval := some (← Text.natural? value.toList) }
  | _ => none

def options? (o : RunOptions) : List String → Option RunOptions
  | [] => some o
  | name :: value :: rest => (option? o name value).bind fun o => options? o rest
  | [_] => none

def parse? : List String → Option CommandLine
  | ["sample-config"] => some sampleConfig
  | ["--version"] => some showVersion
  | "run" :: rest => do
    let o ← options? {} rest
    return run (← o.schema) o
  | _ => none

def version : String := "0.1.0"

def usage : String :=
"usage: telemetry run --schema FILE [--config FILE] [--data FILE] [--request FILE]...
                     [--min-interval-ms N]
       telemetry sample-config
       telemetry --version"

end CommandLine

end Telemetry
