import Telemetry.Settings
import Telemetry.Toml.Document

/-!
# Settings files

Settings are the top-level keys of a TOML document; keys that name no setting are ignored.
-/
namespace Telemetry

namespace Toml.Value

def nat? : Value → Option Nat
  | integer n => if 0 ≤ n then some n.toNat else none
  | _ => none

def string? : Value → Option String
  | string s => some s
  | _ => none

/-- A name alone, or as the only key of a table over something empty. -/
def level? : Value → Option LogLevel
  | string s => LogLevel.ofName? s
  | table [(s, table [])] => LogLevel.ofName? s
  | table [(s, array [])] => LogLevel.ofName? s
  | _ => none

end Toml.Value

def Settings.ofEntries? (entries : List (String × Toml.Value)) : Option Settings :=
  ofFields? (fun name => (entries.find? fun e => e.1 == name).map (·.2))
    Toml.Value.nat? Toml.Value.string? Toml.Value.level?

/-- Valid settings from the text of a settings file. -/
def Settings.ofText (text : String) : Except Error Settings :=
  match (Toml.document? text).bind ofEntries? with
  | none => .error (.malformedSettings "not a settings file")
  | some s =>
    match s.validate with
    | .error e => .error e
    | .ok () => .ok s

/-- A settings file that says what holds without one. -/
def Settings.sample : String :=
"# Streaming telemetry engine configuration

# Minimum sample/heartbeat interval and ON_CHANGE polling tick (milliseconds)
min_interval_ms = 5000

# Revert a configuration change if the datastore sends neither done nor abort
revert_timeout_secs = 6

# Bound on a single operational read (milliseconds)
read_timeout_ms = 5000

# Bound on waiting for sampling loops to finish when a request is removed
stop_timeout_ms = 3000

module = \"telemetry\"
notification_namespace = \"telemetry-notify-event\"
log_level = \"Info\"
"

end Telemetry
