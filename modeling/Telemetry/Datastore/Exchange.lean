import Telemetry.Change
import Telemetry.Datastore.Basic

/-!
# Messages to servers

A server subscribes to the changes of a module, registers operations and registers as reader of the
paths below its own. The newest subscription and the newest registration of an operation replace
those before them; of the readers for a path the first one registered is asked. An endpoint holds a
fixed number of messages that nobody has received yet.
-/
namespace Telemetry

/-- What a client asks of a server. -/
inductive Message where
  | phase (moduleName : String) (p : Phase)
  | call (name : String) (input : Json)
  | read (path : String)
  deriving Repr

def Message.channel : Message → Channel
  | phase .. => .change
  | call .. => .operation
  | read .. => .operationalRead

namespace Datastore

/-- The number of messages an endpoint holds. -/
def capacity : Nat := 32

variable {ε : Type}

/-- A new endpoint for the changes of a module. -/
def subscribe (d : Datastore ε) (moduleName : String) : Endpoint × Datastore ε :=
  (d.endpoints, { d with
    endpoints := d.endpoints + 1, subscribers := d.subscribers.insert moduleName d.endpoints })

/-- A new endpoint for the calls of an operation. -/
def registerOperation (d : Datastore ε) (name : String) : Endpoint × Datastore ε :=
  (d.endpoints, { d with
    endpoints := d.endpoints + 1, operations := d.operations.insert name d.endpoints })

/-- A new endpoint for the reads of every path that begins with `path`. -/
def registerReader (d : Datastore ε) (path : String) : Endpoint × Datastore ε :=
  (d.endpoints, { d with
    endpoints := d.endpoints + 1, readers := d.readers ++ [(path, d.endpoints)] })

/-- Nobody receives at these endpoints any more. -/
def close (d : Datastore ε) (es : List Endpoint) : Datastore ε :=
  { d with closed := es ++ d.closed }

/-- The endpoint a message is addressed to. -/
def addressee (d : Datastore ε) : Message → Except Error Endpoint
  | .phase moduleName _ =>
    match d.subscribers.find? moduleName with
    | some e => .ok e
    | none => .error (.subscriberUnknown moduleName)
  | .call name _ =>
    match d.operations.find? name with
    | some e => .ok e
    | none => .error (.operationUnknown name)
  | .read path =>
    match d.readers.find? fun r => r.1.toList.isPrefixOf path.toList with
    | some (_, e) => .ok e
    | none => .error (.readerUnknown path)

/-- The endpoint a message arrives at. -/
def deliver (d : Datastore ε) (m : Message) : Except Error Endpoint :=
  match d.addressee m with
  | .error e => .error e
  | .ok e => if e ∈ d.closed then .error (.receiverGone m.channel) else .ok e

/-- The number of a new transaction. -/
def nextTransaction (d : Datastore ε) : Nat × Datastore ε :=
  (d.transactions + 1, { d with transactions := d.transactions + 1 })

end Datastore

end Telemetry
