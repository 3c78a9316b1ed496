import Telemetry.Json.Record
import Telemetry.Request.Basic

/-!
# The operational view of requests

What the engine shows about its requests: per request its id, a `state` record and the `state`
records of its subscriptions. Options that are not set are left out.
-/
namespace Telemetry

open Json (slots? list? variant? member)

structure RequestState where
  id : Nat
  mode : RequestMode
  updatesOnly : Bool
  status : Status
  deriving DecidableEq, Repr

/-- A subscription as shown; its options are those of the request. -/
abbrev SubscriptionState := Subscription

structure SubscriptionView where
  id : Nat
  state : SubscriptionState
  deriving DecidableEq, Repr

/-- A request as shown. Without subscriptions the list is left out. -/
structure RequestView where
  id : Nat
  state : RequestState
  subscriptions : Option (List SubscriptionView)
  deriving DecidableEq, Repr

/-- Every request as shown. Without requests the list is left out. -/
structure View where
  requests : Option (List RequestView)
  deriving DecidableEq, Repr

namespace RequestView

/-- The view of a request with that state and those subscriptions. -/
def ofStates (state : RequestState) (subscriptions : List SubscriptionState) : RequestView where
  id := state.id
  state := state
  subscriptions :=
    if subscriptions.isEmpty then none else some (subscriptions.map fun s => ⟨s.id, s⟩)

end RequestView

/-- The view of one request in the given status. -/
def Request.view (r : Request) (status : Status) : RequestView :=
  .ofStates ⟨r.id, r.mode, r.updatesOnly, status⟩ r.subscriptions

def View.ofRequests (requests : List RequestView) : View :=
  ⟨if requests.isEmpty then none else some requests⟩

/-! ## Written form -/

def RequestState.toJson (s : RequestState) : Json :=
  .object [("id", Json.nat s.id), ("mode", .string s.mode.name),
    ("status", .string s.status.name), ("updates-only", .bool s.updatesOnly)]

def Subscription.toJson (s : Subscription) : Json :=
  .object <|
    member "heartbeat-interval" (s.heartbeatInterval.map Json.nat)
    ++ [("id", Json.nat s.id)]
    ++ member "mode" (s.mode.map (.string ·.name))
    ++ [("path", .string s.path)]
    ++ member "sample-interval" (s.sampleInterval.map Json.nat)
    ++ member "suppress-redundant" (s.suppressRedundant.map .bool)

def SubscriptionView.toJson (v : SubscriptionView) : Json :=
  .object [("id", Json.nat v.id), ("state", v.state.toJson)]

/-- A list under a name of its own. -/
def listUnder (name : String) (items : List Json) : Json := .object [(name, .array items)]

def RequestView.toJson (v : RequestView) : Json :=
  .object <| [("id", Json.nat v.id), ("state", v.state.toJson)]
    ++ member "subscriptions" (v.subscriptions.map fun ss =>
      listUnder "subscription" (ss.map (·.toJson)))

def View.toJson (v : View) : Json :=
  .object <| member "subscribe-requests" (v.requests.map fun rs =>
    listUnder "subscribe-request" (rs.map (·.toJson)))

/-! ## Reading it back -/

def RequestState.ofJson? (j : Json) : Option RequestState := do
  let [id, mode, updatesOnly, status] ← slots? ["id", "mode", "updates-only", "status"] j | none
  return {
    id := ← id.required Json.nat?
    mode := ← mode.required (variant? RequestMode.ofName?)
    updatesOnly := ← updatesOnly.required Json.bool?
    status := ← status.required (variant? Status.ofName?) }

def Subscription.ofJson? (j : Json) : Option Subscription := do
  let [id, path, mode, sample, suppress, heartbeat] ←
    slots? ["id", "path", "mode", "sample-interval", "suppress-redundant", "heartbeat-interval"] j
    | none
  return {
    id := ← id.required Json.nat?
    path := ← path.required Json.string?
    mode := ← mode.free (variant? StreamMode.ofName?)
    sampleInterval := ← sample.free Json.nat?
    suppressRedundant := ← suppress.free Json.bool?
    heartbeatInterval := ← heartbeat.free Json.nat? }

def SubscriptionView.ofJson? (j : Json) : Option SubscriptionView := do
  let [id, state] ← slots? ["id", "state"] j | none
  return ⟨← id.required Json.nat?, ← state.required Subscription.ofJson?⟩

/-- The list under a name. -/
def listUnder? (name : String) (read : Json → Option α) (j : Json) : Option (List α) := do
  let [items] ← slots? [name] j | none
  items.required (list? read)

def RequestView.ofJson? (j : Json) : Option RequestView := do
  let [id, state, subscriptions] ← slots? ["id", "state", "subscriptions"] j | none
  return {
    id := ← id.required Json.nat?
    state := ← state.required RequestState.ofJson?
    subscriptions := ← subscriptions.free (listUnder? "subscription" SubscriptionView.ofJson?) }

def View.ofJson? (j : Json) : Option View := do
  let [requests] ← slots? ["subscribe-requests"] j | none
  return ⟨← requests.free (listUnder? "subscribe-request" RequestView.ofJson?)⟩

end Telemetry
