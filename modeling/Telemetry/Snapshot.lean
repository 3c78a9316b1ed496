import Telemetry.Sampling

/-!
# Snapshots

A snapshot puts the leaves read for every subscription of a request into the cache and reports
them, subscription by subscription. The snapshot of a poll also drops and reports what has vanished
since the last one.
-/
namespace Telemetry.Snapshot

/-- What was read for a subscription. -/
abbrev Reading := Nat × Leaves

/-- Which parts of a snapshot are reported. -/
structure Scope where
  updates : Bool
  deletes : Bool
  deriving DecidableEq, Repr

def store (now request subscription : Nat) (leaves : List (String × Json)) (c : Cache) : Cache :=
  leaves.foldl (fun c l => c.set now request subscription l.1 l.2) c

/-- The snapshot of one subscription. -/
def take (scope : Scope) (now request : Nat) (reading : Reading) (c : Cache) :
    Cache × List Event :=
  let (subscription, leaves) := reading
  let gone := Sampling.vanished (c.list request subscription) leaves
  let c := store now request subscription leaves.entries c
  let updates :=
    if scope.updates then
      leaves.entries.map fun l => Event.ofLeaf request subscription l.1 l.2
    else []
  if scope.deletes then
    let (c, deletes) := Sampling.retract request subscription gone c
    (c, updates ++ deletes)
  else (c, updates)

/-- The snapshot of all subscriptions, in the order of the request. -/
def takeAll (scope : Scope) (now request : Nat) : List Reading → Cache → Cache × List Event
  | [], c => (c, [])
  | reading :: rest, c =>
    let (c, es) := take scope now request reading c
    let (c, es') := takeAll scope now request rest c
    (c, es ++ es')

end Telemetry.Snapshot
