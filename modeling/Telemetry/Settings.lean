import Telemetry.Error
import Telemetry.Json.Record

/-!
# Engine settings

Settings are loaded once. Timeouts and the least interval are given in milliseconds or seconds and
used in nanoseconds; the least interval must not be zero, and neither may a read or a stop have no
time at all.
-/
namespace Telemetry

inductive LogLevel where
  | error
  | warn
  | info
  | debug
  | trace
  deriving DecidableEq, Repr

def LogLevel.name : LogLevel → String
  | .error => "Error"
  | .warn => "Warn"
  | .info => "Info"
  | .debug => "Debug"
  | .trace => "Trace"

def LogLevel.ofName? : String → Option LogLevel
  | "Error" => some .error
  | "Warn" => some .warn
  | "Info" => some .info
  | "Debug" => some .debug
  | "Trace" => some .trace
  | _ => none

/-- The name of the filter that lets messages of this level through. -/
def LogLevel.filterName : LogLevel → String
  | .error => "ERROR"
  | .warn => "WARN"
  | .info => "INFO"
  | .debug => "DEBUG"
  | .trace => "TRACE"

structure Settings where
  /-- Least sample and heartbeat interval, and the interval of ON_CHANGE subscriptions. -/
  minIntervalMs : Nat
  /-- How long a transaction waits to be done or aborted. -/
  revertTimeoutSecs : Nat
  readTimeoutMs : Nat
  /-- How long stopping a request waits for each of its sampling loops. -/
  stopTimeoutMs : Nat
  /-- The module of the subscribe-request model. -/
  moduleName : String
  /-- Where notifications are sent. -/
  topic : String
  logLevel : LogLevel
  deriving DecidableEq, Repr

namespace Settings

def standard : Settings where
  minIntervalMs := 5000
  revertTimeoutSecs := 6
  readTimeoutMs := 5000
  stopTimeoutMs := 3000
  moduleName := "telemetry"
  topic := "telemetry-notify-event"
  logLevel := .info

instance : Inhabited Settings := ⟨standard⟩

def validate (s : Settings) : Except Error Unit :=
  if s.minIntervalMs = 0 then .error (.settingZero "min_interval_ms")
  else if s.readTimeoutMs = 0 then .error (.settingZero "read_timeout_ms")
  else if s.stopTimeoutMs = 0 then .error (.settingZero "stop_timeout_ms")
  else .ok ()

/-- Settings with a least interval of so many nanoseconds, cut to milliseconds but kept above
zero. -/
def withMinInterval (s : Settings) (ns : Nat) : Settings :=
  let ms := min (ns / 1_000_000) (Nat.pow 2 64 - 1)
  { s with minIntervalMs := if ms = 0 ∧ ns ≠ 0 then 1 else ms }

/-- The least interval in the unit of subscriptions, as far as 64 bits go. -/
def minIntervalNs (s : Settings) : Nat := min (s.minIntervalMs * 1_000_000) (Nat.pow 2 64 - 1)

/-! ## Reading and writing -/

def fieldNames : List String :=
  ["min_interval_ms", "revert_timeout_secs", "read_timeout_ms", "stop_timeout_ms", "module",
    "notification_namespace", "log_level"]

/-- A field that may be left out. -/
def fieldOr (given : Option τ) (read : τ → Option α) (value : α) : Option α :=
  match given with
  | some j => read j
  | none => some value

/-- Settings from a document of any format; what is left out is standard. -/
def ofFields? (given : String → Option τ) (nat? : τ → Option Nat) (text? : τ → Option String)
    (level? : τ → Option LogLevel) : Option Settings := do
  return {
    minIntervalMs := ← fieldOr (given "min_interval_ms") nat? standard.minIntervalMs
    revertTimeoutSecs := ← fieldOr (given "revert_timeout_secs") nat? standard.revertTimeoutSecs
    readTimeoutMs := ← fieldOr (given "read_timeout_ms") nat? standard.readTimeoutMs
    stopTimeoutMs := ← fieldOr (given "stop_timeout_ms") nat? standard.stopTimeoutMs
    moduleName := ← fieldOr (given "module") text? standard.moduleName
    topic := ← fieldOr (given "notification_namespace") text? standard.topic
    logLevel := ← fieldOr (given "log_level") level? standard.logLevel }

def ofJson? (j : Json) : Option Settings := do
  let slots ← Json.slots? fieldNames j
  let given (name : String) : Option Json :=
    (fieldNames.zip slots).findSome? fun
      | (n, .given j) => if n = name then some j else none
      | _ => none
  ofFields? given Json.nat? Json.string? (Json.variant? LogLevel.ofName?)

def toJson (s : Settings) : Json :=
  .object [("log_level", .string s.logLevel.name), ("min_interval_ms", Json.nat s.minIntervalMs),
    ("module", .string s.moduleName), ("notification_namespace", .string s.topic),
    ("read_timeout_ms", Json.nat s.readTimeoutMs),
    ("revert_timeout_secs", Json.nat s.revertTimeoutSecs),
    ("stop_timeout_ms", Json.nat s.stopTimeoutMs)]

end Settings

end Telemetry
