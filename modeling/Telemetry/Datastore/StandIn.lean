import Telemetry.Datastore.Exchange

/-!
# Stand-ins for servers

A stand-in answers every message at an endpoint in one fixed way, to try out a datastore without a
server.
-/
namespace Telemetry

inductive StandIn where
  /-- Accepts every phase; a call or a read comes back with its input or with the tag. -/
  | echo (tag : String)
  /-- Accepts no phase of a transaction. -/
  | reject
  /-- Accepts the announcement of a transaction and nothing after it. -/
  | rejectLater
  /-- Answers nothing. -/
  | silent
  deriving DecidableEq, Repr

namespace StandIn

/-- The answer to a message. -/
def answer : StandIn → Message → Except Error Json
  | echo _, .phase .. => .ok .null
  | echo _, .call name input => .ok (.array [.string name, input])
  | echo tag, .read path => .ok (.array [.string tag, .string path])
  | reject, .phase _ p => .error (.transactionRejected p.txn)
  | rejectLater, .phase _ (.change ..) => .ok .null
  | rejectLater, .phase _ p => .error (.transactionRejected p.txn)
  | _, m => .error (.replyDropped m.channel)

end StandIn

namespace Datastore

/-- Sends a message to whoever stands in at its endpoint. -/
def ask (d : Datastore ε) (standIns : SortedMap Endpoint StandIn) (m : Message) :
    Except Error Json :=
  match d.deliver m with
  | .error e => .error e
  | .ok endpoint => ((standIns.find? endpoint).getD .silent).answer m

end Datastore

end Telemetry
