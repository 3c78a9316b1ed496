import Telemetry.Engine.Work

/-!
# Starting, polling and stopping a request

Starting reads everything, then takes the first snapshot and says so; nothing has happened before
the last read succeeded. A poll is a further snapshot that reports deletions too. Polls of a request
exclude each other and its stop. Stopping a STREAM request ends its loops; stopping any request
drops its cached leaves.
-/
namespace Telemetry.Engine

variable (s : Setup)

/-- Checks a new request. -/
def validate (h : Handle) (e : Engine) : Engine × Except Error Unit :=
  match h.request.validate s.schema s.leastInterval with
  | .error err => (e, .error err)
  | .ok () => (if e.status h = .new then e.setStatus h .validated else e, .ok ())

/-- Reads the leaves of every subscription, up to the first failure. -/
def readAll : List Subscription → Work (Except Error (List Snapshot.Reading))
  | [] => .done (.ok [])
  | sub :: rest => .read sub.path fun
    | .error err => .done (.error err)
    | .ok leaves => do
      match ← readAll rest with
      | .error err => return .error err
      | .ok readings => return .ok ((sub.id, leaves) :: readings)

/-- What a start comes to once everything was read. -/
def begin (h : Handle) (readings : List Snapshot.Reading) (e : Engine) : Engine :=
  let e := e.snapshot s ⟨!h.request.updatesOnly, false⟩ h readings
  let e := e.sync s h
  let e := if h.request.mode = .stream then e.startLoops s h else e
  e.setStatus h .running

/-- Starts a request, for the first time or after it was stopped. -/
def start (h : Handle) : Work (Except Error Unit) :=
  .look fun e =>
    if e.status h = .running then .done (.error (.alreadyRunning h.id))
    else do
      match ← readAll h.request.subscriptions with
      | .error err => return .error err
      | .ok readings =>
        .change (begin s h readings)
        return .ok ()

/-- Waits for loops one after the other and gives up on those that do not end. -/
def joinAll : List Nat → Work Unit
  | [] => .done ()
  | ref :: rest => .join ref fun ended => do
    unless ended do .change (abortLoop ref)
    joinAll rest

/-- Stops a request. -/
def stop (h : Handle) : Work Unit :=
  match h.request.mode with
  | .once => .change fun e => (e.release h).setStatus h .stopped
  | .poll => do
    .lock (.poll h.key) (.done ())
    .change fun e => (e.setStatus h .stopped).release h
    .unlock (.poll h.key)
  | .stream => .look fun e => do
    .change (cancelLoops h)
    joinAll (e.life h).loops
    .change fun e => (e.release h).setStatus h .stopped

/-- What a poll comes to once everything was read. -/
def burst (h : Handle) (readings : List Snapshot.Reading) (e : Engine) : Engine :=
  (e.snapshot s ⟨true, true⟩ h readings).sync s h

/-- Polls a request while its lock is held. -/
def pollLocked (h : Handle) : Work (Except Error Unit) :=
  .look fun e =>
    if e.status h ≠ .running then .done (.error (.notRunning h.id))
    else do
      match ← readAll h.request.subscriptions with
      | .error err => return .error err
      | .ok readings =>
        .change (burst s h readings)
        return .ok ()

/-- A fresh snapshot of a POLL request. -/
def poll (h : Handle) : Work (Except Error Unit) :=
  match h.request.mode with
  | .poll => do
    .lock (.poll h.key) (.done ())
    let r ← pollLocked s h
    .unlock (.poll h.key)
    return r
  | mode => .done (.error (.notPollable mode h.id))

/-- One sample of a loop. A failed read does nothing. -/
def sample (p : Sampling) : Work Unit :=
  .read p.path fun
    | .error _ => .done ()
    | .ok leaves => .change (observe s p leaves)

/-- How a request is shown. -/
def viewOf (e : Engine) (h : Handle) : RequestView := h.request.view (e.status h)

end Telemetry.Engine
