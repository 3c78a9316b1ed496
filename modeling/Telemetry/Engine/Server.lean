import Telemetry.Engine.Transaction

/-!
# The engine as a server

It answers three kinds of message: phases of transactions, calls of the poll operation, and reads
of the operational view, which lists every registered request by id.
-/
namespace Telemetry.Engine

variable (s : Setup)

/-- A fresh snapshot of the registered request with that id. -/
def pollId (id : Nat) : Work (Except Error Unit) :=
  .look fun e =>
    match e.registry.get id with
    | .error err => .done (.error err)
    | .ok h => poll s h

/-- Calls an operation: there is one, and it wants an id. -/
def call (name : String) (input : Json) : Work (Except Error Json) :=
  if name ≠ pollOperation s.moduleName then .done (.error (.operationUnknown name))
  else
    match (input.member? "id").bind Json.nat? with
    | none => .done (.error .pollWithoutId)
    | some id => do
      match ← pollId s id with
      | .error err => return .error err
      | .ok () => return .ok (.object [])

/-- The view of every registered request. -/
def view (e : Engine) : View := .ofRequests (e.registry.entries.entries.map fun r => e.viewOf r.2)

/-- Answers a message. -/
def serve : Message → Work (Except Error Json)
  | .phase _ p => do
    match ← handle s p with
    | .error err => return .error err
    | .ok () => return .ok .null
  | .call name input => call s name input
  | .read _ => .look fun e => .done (.ok e.view.toJson)

/-- Stops the registered requests with those ids. -/
def stopIds : List Nat → Work Unit
  | [] => .done ()
  | id :: rest => .look fun e => do
    match e.registry.find? id with
    | none => pure ()
    | some h => stop h
    stopIds rest

/-- Shuts down: the pending transaction is dropped as it is, every request is stopped, and the
registry is emptied. -/
def shutdown : Work Unit := do
  .lock .pending (.done ())
  .change fun e => { e with pending := none }
  .unlock .pending
  .look fun e => do
    stopIds e.registry.ids
    .change fun e => { e with registry := .empty }

end Telemetry.Engine
