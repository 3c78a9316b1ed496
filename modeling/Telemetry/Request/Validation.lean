import Telemetry.Request.Parse
import Telemetry.Schema.Basic

/-!
# Validating requests

Every path names schema nodes. A STREAM subscription also has a mode, a heartbeat interval that is
zero or long enough and, if it is sampled, a sample interval that is long enough.
-/
namespace Telemetry

/-- The rules for intervals of a STREAM subscription. -/
def Subscription.validateIntervals (s : Subscription) (least : Nat) : Except Error Unit :=
  match s.mode with
  | none => .error .entryModeMissing
  | some mode =>
    let heartbeat := s.heartbeatInterval.getD noHeartbeat
    if heartbeat ≠ noHeartbeat ∧ heartbeat < least then .error (.heartbeatTooShort least)
    else if mode = .sample ∧ s.sampleInterval.getD 0 < least then .error (.sampleTooShort least)
    else .ok ()

def Subscription.validate (s : Subscription) (schema : Schema) (mode : RequestMode) (least : Nat) :
    Except Error Unit :=
  if !schema.accepts s.path then .error (.pathInvalid s.path)
  else if mode ≠ .stream then .ok ()
  else s.validateIntervals least

namespace Request

def validateAll (schema : Schema) (mode : RequestMode) (least : Nat) :
    List Subscription → Except Error Unit
  | [] => .ok ()
  | s :: rest =>
    match s.validate schema mode least with
    | .error e => .error e
    | .ok () => validateAll schema mode least rest

/-- Checks paths against the schema and intervals against the least interval in nanoseconds. -/
def validate (r : Request) (schema : Schema) (least : Nat) : Except Error Unit :=
  validateAll schema r.mode least r.subscriptions

end Request

end Telemetry
