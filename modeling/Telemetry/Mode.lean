/-!
# Modes and status of subscribe requests
-/
namespace Telemetry

/-- What happens after the first snapshot: sampling, nothing, or a snapshot per poll. -/
inductive RequestMode where
  | stream
  | once
  | poll
  deriving DecidableEq, Repr

/-- When a subscription of a STREAM request reports. -/
inductive StreamMode where
  | onChange
  | sample
  | targetDefined
  deriving DecidableEq, Repr

/-- Where a subscribe request stands in its life. -/
inductive Status where
  | new
  | validated
  | running
  | stopped
  deriving DecidableEq, Repr

def RequestMode.name : RequestMode → String
  | .stream => "STREAM"
  | .once => "ONCE"
  | .poll => "POLL"

def RequestMode.ofName? : String → Option RequestMode
  | "STREAM" => some .stream
  | "ONCE" => some .once
  | "POLL" => some .poll
  | _ => none

def StreamMode.name : StreamMode → String
  | .onChange => "ON_CHANGE"
  | .sample => "SAMPLE"
  | .targetDefined => "TARGET_DEFINED"

def StreamMode.ofName? : String → Option StreamMode
  | "ON_CHANGE" => some .onChange
  | "SAMPLE" => some .sample
  | "TARGET_DEFINED" => some .targetDefined
  | _ => none

def Status.name : Status → String
  | .new => "NEW"
  | .validated => "VALIDATED"
  | .running => "RUNNING"
  | .stopped => "STOPPED"

def Status.ofName? : String → Option Status
  | "NEW" => some .new
  | "VALIDATED" => some .validated
  | "RUNNING" => some .running
  | "STOPPED" => some .stopped
  | _ => none

theorem RequestMode.ofName?_name (m : RequestMode) : ofName? m.name = some m := by cases m <;> rfl

theorem StreamMode.ofName?_name (m : StreamMode) : ofName? m.name = some m := by cases m <;> rfl

theorem Status.ofName?_name (s : Status) : ofName? s.name = some s := by cases s <;> rfl

theorem RequestMode.ofName?_eq_some {text : String} {m : RequestMode} :
    ofName? text = some m ↔ text = m.name := by
  constructor
  · intro h
    unfold ofName? at h
    split at h <;> cases h <;> rfl
  · rintro rfl
    exact ofName?_name m

theorem StreamMode.ofName?_eq_some {text : String} {m : StreamMode} :
    ofName? text = some m ↔ text = m.name := by
  constructor
  · intro h
    unfold ofName? at h
    split at h <;> cases h <;> rfl
  · rintro rfl
    exact ofName?_name m

theorem RequestMode.name_inj {m n : RequestMode} : m.name = n.name ↔ m = n := by
  constructor
  · intro h
    rw [← ofName?_eq_some, ofName?_name] at h
    exact Option.some.inj h
  · rintro rfl
    rfl

theorem StreamMode.name_inj {m n : StreamMode} : m.name = n.name ↔ m = n := by
  constructor
  · intro h
    rw [← ofName?_eq_some, ofName?_name] at h
    exact Option.some.inj h
  · rintro rfl
    rfl

/-- The mode that stands for TARGET_DEFINED at a path. Every path is sampled. -/
def StreamMode.forTarget (_path : String) : StreamMode := .sample

end Telemetry
