import Telemetry.Cache
import Telemetry.Event
import Telemetry.Leaves
import Telemetry.Request.Basic

/-!
# One sample of a subscription

A sample reports every leaf that is due and then, in path order, the leaves that are gone. Without
suppression every leaf is due. With it a leaf is due when it is new, when its value differs from
the one last reported, and when that report is a heartbeat interval old. The cache holds what was
last reported.
-/
namespace Telemetry

/-- How one subscription is sampled. -/
structure Sampling where
  request : Nat
  subscription : Nat
  path : String
  period : Nat
  suppress : Bool
  heartbeat : Option Nat
  deriving DecidableEq, Repr

namespace Sampling

/-- The shortest period a sampling loop runs at. -/
def shortestPeriod : Nat := 1_000_000

/-- ON_CHANGE is sampling at the least interval with suppression. -/
def ofSubscription (request : Nat) (s : Subscription) (least : Nat) : Sampling :=
  let onChange := s.mode = some .onChange
  let period := if onChange then least else s.sampleInterval.getD (least * 2)
  let heartbeat := s.heartbeatInterval.getD noHeartbeat
  { request
    subscription := s.id
    path := s.path
    period := max period shortestPeriod
    suppress := onChange || s.suppressRedundant.getD false
    heartbeat := if heartbeat = noHeartbeat then none else some heartbeat }

/-- Whether a leaf is to be reported, given what was last reported of it. -/
def isDue (p : Sampling) (now : Nat) (last : Option Observed) (value : Json) : Bool :=
  !p.suppress ||
    match last with
    | none => true
    | some o => !o.value.same value || p.heartbeat.any fun h => o.time + h ≤ now

/-- Reports the leaves that are due. -/
def report (p : Sampling) (now : Nat) : List (String × Json) → Cache → Cache × List Event
  | [], c => (c, [])
  | (path, value) :: rest, c =>
    if p.isDue now (c.get? p.request p.subscription path) value then
      let (c, es) := report p now rest (c.set now p.request p.subscription path value)
      (c, .ofLeaf p.request p.subscription path value :: es)
    else report p now rest c

/-- Reports the leaves that are gone. -/
def retract (request subscription : Nat) : List String → Cache → Cache × List Event
  | [], c => (c, [])
  | path :: rest, c =>
    let (c, es) := retract request subscription rest (c.drop request subscription path)
    (c, .delete request subscription path :: es)

/-- The cached leaves that a sample does not have. -/
def vanished (cached : List String) (leaves : Leaves) : List String :=
  cached.filter fun path => !leaves.contains path

/-- What a sample does to the cache, and what it reports. -/
def observe (p : Sampling) (now : Nat) (leaves : Leaves) (c : Cache) : Cache × List Event :=
  let gone := vanished (c.list p.request p.subscription) leaves
  let (c, updates) := p.report now leaves.entries c
  let (c, deletes) := retract p.request p.subscription gone c
  (c, updates ++ deletes)

end Sampling

end Telemetry
