import Telemetry.Mode

/-!
# Subscribe requests

A request asks for the leaves under one path per subscription. Intervals are nanoseconds that fit
64 bits; an option that is not set is `none`.
-/
namespace Telemetry

/-- One subscription of a request. -/
structure Subscription where
  id : Nat
  path : String
  mode : Option StreamMode
  sampleInterval : Option Nat
  suppressRedundant : Option Bool
  heartbeatInterval : Option Nat
  deriving DecidableEq, Repr

structure Request where
  id : Nat
  mode : RequestMode
  updatesOnly : Bool
  subscriptions : List Subscription
  deriving DecidableEq, Repr

/-- The greatest value of 64 bits, where intervals stop growing. -/
def maxInterval : Nat := Nat.pow 2 64 - 1

/-- The heartbeat interval that means no heartbeat. -/
def noHeartbeat : Nat := 0

end Telemetry
