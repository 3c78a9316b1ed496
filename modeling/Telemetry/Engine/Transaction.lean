import Telemetry.Engine.Lifecycle
import Telemetry.Routing

/-!
# Transactions

A transaction is applied as soon as it is announced: every change is checked against the schema and
the registry, and then the changes are made one after the other. If one of them fails, those made
before it are undone, the last one first. An applied transaction waits; it is undone when it is
aborted and when nobody has said in time that it is done. One transaction waits at a time.
-/
namespace Telemetry.Engine

variable (s : Setup)

/-- What a checked change is about to do. -/
inductive Planned where
  | create (r : Request)
  | delete (h : Handle)
  | nothing
  deriving DecidableEq, Repr

/-- Checks one change against schema and registry. -/
def plan (e : Engine) : Intent → Except Error Planned
  | .create id payload =>
    if e.registry.contains id then .error (.requestExists id)
    else
      match payload with
      | none => .error (.requestWithoutData id)
      | some payload =>
        match Request.parse id payload s.leastInterval with
        | .error err => .error err
        | .ok r =>
          match r.validate s.schema s.leastInterval with
          | .error err => .error err
          | .ok () => .ok (.create r)
  | .delete id =>
    match e.registry.find? id with
    | none => .error (.requestInvalid id)
    | some h => .ok (.delete h)
  | .nothing => .ok .nothing

def planAll (e : Engine) : List Intent → Except Error (List Planned)
  | [] => .ok []
  | i :: is =>
    match plan s e i with
    | .error err => .error err
    | .ok p =>
      match planAll e is with
      | .error err => .error err
      | .ok ps => .ok (p :: ps)

/-- The plan of a transaction: its changes are routed, then checked. -/
def planChanges (e : Engine) (changes : List Change) : Except Error (List Planned) :=
  match Intent.ofChanges s.moduleName changes with
  | .error err => .error err
  | .ok is => planAll s e is

/-- Registers a handle under its id. -/
def register (h : Handle) (e : Engine) : Except Error Engine :=
  match e.registry.add h.id h with
  | .error err => .error err
  | .ok registry => .ok { e with registry }

/-- Whatever is registered under the id of a handle is so no longer. -/
def unregister (h : Handle) (e : Engine) : Except Error Engine :=
  match e.registry.delete h.id with
  | .error err => .error err
  | .ok (_, registry) => .ok { e with registry }

/-- As `unregister`, if there is something registered. -/
def forget (h : Handle) (e : Engine) : Engine :=
  match unregister h e with
  | .error _ => e
  | .ok e => e

/-- Registers a new request and starts it. A request that does not start is not registered. -/
def create (r : Request) : Work (Except Error Applied) :=
  .look fun e =>
    let (h, made) := e.make r
    match register h (made.setStatus h .validated) with
    | .error err => .done (.error err)
    | .ok registered => do
      .change fun _ => registered
      match ← start s h with
      | .error err =>
        .change (forget h)
        return .error err
      | .ok () => return .ok (.created h)

/-- Stops a request and takes it out of the registry. -/
def delete (h : Handle) : Work (Except Error Applied) := do
  stop h
  .look fun e =>
    match unregister h e with
    | .error err => .done (.error err)
    | .ok e => do
      .change fun _ => e
      return .ok (.deleted h)

def apply : Planned → Work (Except Error Applied)
  | .create r => create s r
  | .delete h => delete h
  | .nothing => .done (.ok .nothing)

/-- Undoes one change. A deleted request is registered again first and then started; what goes
wrong on the way stays as it is. -/
def revert : Applied → Work Unit
  | .created h => do
    stop h
    .change (forget h)
  | .deleted h => .look fun e =>
    match register h e with
    | .error _ => .done ()
    | .ok e => do
      .change fun _ => e
      let _ ← start s h
      return ()
  | .nothing => .done ()

/-- Undoes changes in the order given. -/
def revertAll : List Applied → Work Unit
  | [] => .done ()
  | a :: rest => do
    revert s a
    revertAll rest

/-- Makes the changes of a plan. `before` is what was done so far, the last change first. -/
def applyAll (before : List Applied) : List Planned → Work (Except Error (List Applied))
  | [] => .done (.ok before)
  | p :: ps => do
    match ← apply s p with
    | .error err =>
      revertAll s before
      return .error err
    | .ok a => applyAll (a :: before) ps

/-- Applies a transaction while nothing is pending. -/
def applyChanges (changes : List Change) : Work (Except Error (List Applied)) :=
  .look fun e =>
    match planChanges s e changes with
    | .error err => .done (.error err)
    | .ok ps => applyAll s [] ps

/-- What a phase of a transaction comes to while the pending transaction is locked. -/
def handleLocked : Phase → Work (Except Error Unit)
  | .change txn changes => .look fun e =>
    match e.pending with
    | some p => .done (.error (.transactionPending txn p.txn))
    | none => do
      match ← applyChanges s changes with
      | .error err => return .error err
      | .ok applied =>
        .change fun e => { e with pending := some ⟨txn, applied, e.now + s.revertTimeout⟩ }
        return .ok ()
  | .done txn => do
    .change fun e =>
      if e.pending.any (·.txn = txn) then { e with pending := none } else e
    return .ok ()
  | .abort txn => .look fun e =>
    match e.pending with
    | none => .done (.ok ())
    | some p =>
      if p.txn = txn then do
        .change fun e => { e with pending := none }
        revertAll s p.applied
        return .ok ()
      else .done (.ok ())

/-- Handles one phase of a transaction. -/
def handle (p : Phase) : Work (Except Error Unit) := do
  .lock .pending (.done ())
  let r ← handleLocked s p
  .unlock .pending
  return r

/-- Undoes the pending transaction if its time is up. -/
def expire : Work Unit := do
  .lock .pending (.done ())
  .look fun e =>
    match e.pending with
    | none => .unlock .pending
    | some p =>
      if p.deadline ≤ e.now then do
        .change fun e => { e with pending := none }
        revertAll s p.applied
        .unlock .pending
      else .unlock .pending

end Telemetry.Engine
