import Telemetry.Timeline.Script

/-!
# Many callers on one clock

A timeline holds an engine together with everything that is under way on it: the calls, the
sampling loops and the server that answers messages. Each of them takes its turn when what it waits
for has come, in the order in which that happened, and goes on until it has to wait again or has
used up the budget of a turn. This module has the state of a timeline and says what is waited for
and in which order turns come; `Telemetry.Timeline.Turn` says what is done in a turn.
-/
namespace Telemetry

/-- Whose turn it is. -/
inductive Turn where
  | call (i : Nat)
  | loop (ref : Nat)
  | server
  deriving DecidableEq, Repr

/-- What a turn waits for. -/
inductive Timeline.Wait where
  | ready
  | time (t : Nat)
  | work (w : Work.Wait)
  /-- Room for a message at an endpoint. -/
  | room (e : Endpoint)
  /-- The answer to a message. -/
  | answer
  /-- Something for the server to do. -/
  | message
  /-- The end of the server. -/
  | halted
  deriving DecidableEq, Repr

structure Parked where
  turn : Turn
  wait : Timeline.Wait
  deriving DecidableEq, Repr

/-- How far a call has come. -/
inductive Progress where
  | script (s : Script)
  | working (w : Work Outcome) (next : Outcome → Script)
  /-- A message waits for room at an endpoint. -/
  | sending (e : Endpoint) (m : Message) (next : Outcome → Script)
  | asking (e : Endpoint) (next : Outcome → Script)
  /-- The answer has come, but no turn since. -/
  | answered (e : Endpoint) (s : Script)
  | finished (time : Nat) (o : Outcome)

/-- Whether a call is still connected to an endpoint. -/
def Progress.uses (e : Endpoint) : Progress → Bool
  | .sending e' .. | .asking e' .. | .answered e' .. => e' == e
  | _ => false

/-- What the server is at. -/
inductive Serving where
  /-- There is no server. -/
  | absent
  | idle
  /-- Looking when the pending transaction is due. -/
  | looking (w : Work Outcome)
  /-- Open for anything that may come. -/
  | attending
  /-- Answering a message of a call. -/
  | handling (call : Nat) (w : Work Outcome)
  | expiring (w : Work Outcome)
  | stopping (w : Work Outcome)
  | finished

/-- A message that has arrived and was not received yet. -/
structure Arrival where
  endpoint : Endpoint
  message : Message
  /-- The call that waits for the answer. -/
  call : Nat
  deriving Repr

structure Timeline where
  setup : Setup
  engine : Engine
  calls : List Progress
  /-- Samples under way, by loop. -/
  samples : SortedMap Nat (Work Unit)
  serving : Serving
  /-- Where the server receives, and what has arrived there. -/
  endpoints : List Endpoint
  inbox : List Arrival
  shutdown : Bool
  /-- The turn under way, and how many things it may still get without waiting. -/
  current : Option Parked
  budget : Nat
  /-- Whether there is one call only, which is then in the foreground. -/
  alone : Bool
  /-- The turn of the call in the foreground, when it has one to take. -/
  foreground : Option Parked
  /-- The other turns to take, in the order they came to be so. -/
  queue : List Parked
  /-- How many of them are taken before those below and the foreground are looked at. -/
  batch : Nat
  /-- Turns broken off because their budget was used up, the last one first. -/
  yielded : List Parked
  /-- Turns that wait, in the order they came to be so. -/
  parked : List Parked
  /-- Loops started up to this one have had a turn. -/
  loopsSeen : Nat

namespace Timeline

/-- How many things a turn may get without waiting. -/
def turnBudget : Nat := 128

/-- How many turns are taken in a row. -/
def batchSize : Nat := 61

def ofEngine (setup : Setup) (engine : Engine) : Timeline where
  setup := setup
  engine := engine
  calls := []
  samples := .empty
  serving := .absent
  endpoints := []
  inbox := []
  shutdown := false
  current := none
  budget := turnBudget
  alone := false
  foreground := none
  queue := []
  batch := batchSize
  yielded := []
  parked := []
  loopsSeen := 0

/-- Starts a server on the engine: it receives the changes of its module, the calls of its poll
operation and the reads of its operational view. -/
def serve (t : Timeline) : Timeline :=
  let m := t.setup.moduleName
  let (c, d) := t.engine.datastore.subscribe m
  let (o, d) := d.registerOperation (pollOperation m)
  let (r, d) := d.registerReader (requestsPath m)
  { t with
    engine := { t.engine with datastore := d }
    serving := .idle
    endpoints := [c, o, r]
    queue := t.queue ++ [⟨.server, .ready⟩] }

/-- The change stream of the server has ended: someone else subscribed to its module, and no call
is connected to the server any more. -/
def streamEnded (t : Timeline) : Bool :=
  match t.endpoints with
  | c :: _ =>
    t.engine.datastore.subscribers.find? t.setup.moduleName != some c
      && !t.calls.any (Progress.uses c)
  | [] => false

/-! ## Waiting -/

/-- Turns that can be taken, because what they waited for has come. -/
def woken (t : Timeline) : List Parked := t.foreground.toList ++ t.queue

/-- Whether a loop has been told to end, or has ended already. -/
def loopOver (t : Timeline) (ref : Nat) : Bool :=
  match t.engine.loops.find? ref with
  | some l => l.cancelled
  | none => true

def waitsFor (l : Lock) (p : Parked) : Bool := p.wait == .work (.lock l)

/-- Whether somebody else has been waiting for a lock. -/
def contended (t : Timeline) (l : Lock) : Bool :=
  t.woken.any (waitsFor l) || t.parked.any (waitsFor l)

/-- Whether a turn that does not wait yet may take a lock. -/
def canTake (t : Timeline) (e : Engine) (l : Lock) : Bool :=
  l ∉ e.held && !t.contended l

/-- Whether a turn is the one to get a free lock: nobody has waited longer. -/
def isFirst (t : Timeline) (l : Lock) (p : Parked) : Bool :=
  !t.woken.any (waitsFor l) && (t.parked.find? (waitsFor l)) == some p

/-- Whether an endpoint takes one more message. Room is kept for the calls that were given it and
have not had their turn yet. -/
def hasRoom (t : Timeline) (e : Endpoint) : Bool :=
  t.inbox.countP (·.endpoint == e) + t.woken.countP (·.wait == .room e) < Datastore.capacity

/-- Whether a turn is the one to get room at an endpoint, or finds out that nobody receives there
any more. -/
def roomOver (t : Timeline) (e : Endpoint) (p : Parked) : Bool :=
  e ∈ t.engine.datastore.closed
    || t.hasRoom e && (t.parked.find? (·.wait == .room e)) == some p

def serverBusy (t : Timeline) : Bool :=
  t.shutdown || t.streamEnded || !t.inbox.isEmpty
    || t.engine.pending.any fun p => Cadence.firing p.deadline ≤ t.engine.now

def isFinished (t : Timeline) : Bool :=
  match t.serving with
  | .absent | .finished => true
  | _ => false

/-- Whether what a turn waits for has come. -/
def isOver (t : Timeline) (p : Parked) : Bool :=
  let loopOver := match p.turn with
    | .loop ref => t.loopOver ref
    | _ => false
  loopOver ||
    match p.wait with
    | .ready => true
    | .time u => u ≤ t.engine.now
    | .work (.reading u _) => u ≤ t.engine.now
    | .work (.lock l) => l ∉ t.engine.held && t.isFirst l p
    | .work (.loop ref u) => !t.engine.loops.contains ref || u ≤ t.engine.now
    | .room e => t.roomOver e p
    | .answer =>
      match p.turn with
      | .call i =>
        match t.calls[i]? with
        | some (.asking ..) => false
        | _ => true
      | _ => true
    | .message => t.serverBusy
    | .halted => t.isFinished

/-- The time at which a wait ends at the latest, if nothing else ends it. -/
def alarm? (t : Timeline) (p : Parked) : Option Nat :=
  match p.wait with
  | .time u => some u
  | .work (.reading u _) => some u
  | .work (.loop _ u) => some u
  | .message => t.engine.pending.map fun p => Cadence.firing p.deadline
  | _ => none

/-! ## The order of turns -/

/-- Whether a turn belongs to the call in the foreground. -/
def isForeground (t : Timeline) (p : Parked) : Bool := t.alone && p.turn == .call 0

/-- Queues turns that can be taken. -/
def enqueue (t : Timeline) (ps : List Parked) : Timeline :=
  let (mine, others) := ps.partition t.isForeground
  { t with queue := t.queue ++ others, foreground := t.foreground <|> mine.head? }

/-- Queues the turns whose wait is over, and the first turns of new loops. -/
def wake (t : Timeline) : Timeline :=
  let (ready, waiting) := t.parked.partition t.isOver
  let fresh := (List.range (t.engine.loopsStarted - t.loopsSeen)).map fun i =>
    (⟨.loop (t.loopsSeen + i), .ready⟩ : Parked)
  { t with parked := waiting, loopsSeen := t.engine.loopsStarted }.enqueue (ready ++ fresh)

def park (t : Timeline) (turn : Turn) (wait : Wait) : Timeline :=
  { t with parked := t.parked ++ [⟨turn, wait⟩] }

/-- Breaks a turn off; the next one of its kind begins with what is waited for. -/
def makeWay (t : Timeline) (turn : Turn) (wait : Wait) : Timeline :=
  { t with yielded := ⟨turn, wait⟩ :: t.yielded }

/-- The same turn goes on at once. -/
def again (t : Timeline) (turn : Turn) : Timeline := { t with current := some ⟨turn, .ready⟩ }

/-- A turn begins. -/
def beginTurn (t : Timeline) (p : Parked) : Timeline :=
  { t with current := some p, budget := turnBudget }

/-- One thing was there when it was needed. -/
def spend (t : Timeline) : Timeline := { t with budget := t.budget - 1 }

/-- Between two batches: turns that were broken off can be taken again, the last one first, and the
foreground has its turn. -/
def regroup (t : Timeline) : Timeline :=
  let t := { t with yielded := [], batch := batchSize }.enqueue t.yielded
  match t.foreground with
  | some p => { t with foreground := none }.beginTurn p
  | none => t

end Timeline

end Telemetry
