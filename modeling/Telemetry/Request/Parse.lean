import Telemetry.Error
import Telemetry.Request.Payload

/-!
# From payload to request

A request needs a mode and at least one subscription with an id; subscriptions without one do not
count. The subscriptions of a STREAM request get every option they leave open.
-/
namespace Telemetry

/-- The subscription of a STREAM request with its options filled in: sampling at twice the least
interval, no suppression, no heartbeat, and a concrete mode. -/
def Subscription.withStreamDefaults (s : Subscription) (least : Nat) : Subscription :=
  { s with
    sampleInterval := some (s.sampleInterval.getD (min (2 * least) maxInterval))
    suppressRedundant := some (s.suppressRedundant.getD false)
    heartbeatInterval := some (s.heartbeatInterval.getD noHeartbeat)
    mode := if s.mode = some .targetDefined then some (.forTarget s.path) else s.mode }

namespace Request

/-- The mode of a subscription, if it has one. -/
def streamMode : Option String → Except Error (Option StreamMode)
  | none => .ok none
  | some text =>
    match StreamMode.ofName? text with
    | some m => .ok (some m)
    | none => .error (.entryModeUnknown text)

/-- A subscription with an id, for a request of that mode. -/
def subscription (mode : RequestMode) (least id : Nat) (p : SubscriptionPayload) :
    Except Error Subscription :=
  match p.path with
  | none => .error .pathMissing
  | some path =>
    match streamMode p.mode with
    | .error e => .error e
    | .ok m =>
      let s : Subscription :=
        ⟨id, path, m, p.sampleInterval, p.suppressRedundant, p.heartbeatInterval⟩
      .ok (if mode = .stream then s.withStreamDefaults least else s)

/-- The subscriptions with an id, which must differ from each other and from the ids seen. -/
def subscriptionsOf (mode : RequestMode) (least : Nat) (seen : List Nat) :
    List SubscriptionPayload → Except Error (List Subscription)
  | [] => .ok []
  | p :: ps =>
    match p.id with
    | none => subscriptionsOf mode least seen ps
    | some id =>
      if id ∈ seen then .error (.entryRepeated id)
      else
        match subscription mode least id p with
        | .error e => .error e
        | .ok s =>
          match subscriptionsOf mode least (id :: seen) ps with
          | .error e => .error e
          | .ok rest => .ok (s :: rest)

/-- The request of a payload, under a least interval in nanoseconds. -/
def ofPayload (id : Nat) (p : Payload) (least : Nat) : Except Error Request :=
  match p.mode with
  | none => .error .modeMissing
  | some text =>
    match RequestMode.ofName? text with
    | none => .error (.modeUnknown text)
    | some mode =>
      match subscriptionsOf mode least [] p.subscriptions with
      | .error e => .error e
      | .ok [] => .error (.noEntries id)
      | .ok (s :: rest) => .ok ⟨id, mode, p.updatesOnly.getD false, s :: rest⟩

def parse (id : Nat) (payload : Json) (least : Nat) : Except Error Request :=
  match Payload.ofJson? payload with
  | none => .error (.malformedRequest id "not a subscribe-request")
  | some p => ofPayload id p least

end Request

end Telemetry
