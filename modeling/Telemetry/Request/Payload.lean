import Telemetry.Json.Record
import Telemetry.Request.Basic

/-!
# Request payloads

The shape of the data under a subscribe request: nearly everything may be missing, so that what is
missing can be named, but what is there has to be of the right type.
-/
namespace Telemetry

open Json (Slot slots? list?)

structure SubscriptionPayload where
  id : Option Nat
  path : Option String
  mode : Option String
  sampleInterval : Option Nat
  suppressRedundant : Option Bool
  heartbeatInterval : Option Nat
  deriving DecidableEq, Repr

structure Payload where
  mode : Option String
  updatesOnly : Option Bool
  subscriptions : List SubscriptionPayload
  deriving DecidableEq, Repr

/-- The `config` of a subscription, for the subscription with that id. -/
def SubscriptionPayload.ofConfig? (id : Option Nat) (j : Json) : Option SubscriptionPayload := do
  let [path, mode, sample, suppress, heartbeat] ←
    slots? ["path", "mode", "sample-interval", "suppress-redundant", "heartbeat-interval"] j
    | none
  return {
    id
    path := ← path.optional Json.string?
    mode := ← mode.optional Json.string?
    sampleInterval := ← sample.optional Json.nat?
    suppressRedundant := ← suppress.optional Json.bool?
    heartbeatInterval := ← heartbeat.optional Json.nat? }

def SubscriptionPayload.ofJson? (j : Json) : Option SubscriptionPayload := do
  let [id, config] ← slots? ["id", "config"] j | none
  let id ← id.optional Json.nat?
  config.withDefault (ofConfig? id) ⟨id, none, none, none, none, none⟩

/-- The `config` of a request: mode and updates-only. -/
def Payload.configOfJson? (j : Json) : Option (Option String × Option Bool) := do
  let [mode, updatesOnly] ← slots? ["mode", "updates-only"] j | none
  return (← mode.optional Json.string?, ← updatesOnly.optional Json.bool?)

/-- The `subscriptions` of a request: a list under `subscription`. -/
def Payload.subscriptionsOfJson? (j : Json) : Option (List SubscriptionPayload) := do
  let [subscription] ← slots? ["subscription"] j | none
  subscription.withDefault (list? SubscriptionPayload.ofJson?) []

def Payload.ofJson? (j : Json) : Option Payload := do
  let [config, subscriptions] ← slots? ["config", "subscriptions"] j | none
  let (mode, updatesOnly) := (← config.optional configOfJson?).getD (none, none)
  let subscriptions := (← subscriptions.optional subscriptionsOfJson?).getD []
  return { mode, updatesOnly, subscriptions }

end Telemetry
