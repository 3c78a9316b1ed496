import Telemetry.Cadence
import Telemetry.Datastore.Exchange
import Telemetry.Registry
import Telemetry.Request.Validation
import Telemetry.Request.View
import Telemetry.Settings
import Telemetry.Snapshot

/-!
# The state of an engine

An engine owns the cache of reported leaves, the subscribe requests it was given and their sampling
loops, the registry of requests and the transaction that waits to be done or aborted. A subscribe
request is made once and may be started and stopped again; its handle never changes, and what does
change about it is its `Life`. A loop is live as long as it is listed.
-/
namespace Telemetry

/-- What an engine is set up with. Times are in nanoseconds. -/
structure Setup where
  schema : Schema
  least : Nat
  readTimeout : Nat
  stopTimeout : Nat
  revertTimeout : Nat
  moduleName : String
  topic : String
  deriving Repr

/-- The least interval as requests state it. -/
def Setup.leastInterval (s : Setup) : Nat := min s.least maxInterval

def Settings.setup (s : Settings) (schema : Schema) : Setup where
  schema := schema
  least := s.minIntervalMs * 1_000_000
  readTimeout := s.readTimeoutMs * 1_000_000
  stopTimeout := s.stopTimeoutMs * 1_000_000
  revertTimeout := s.revertTimeoutSecs * 1_000_000_000
  moduleName := s.moduleName
  topic := s.topic

/-- A subscribe request that was made. No two of them have the same key. -/
structure Handle where
  key : Nat
  request : Request
  deriving DecidableEq, Repr

def Handle.id (h : Handle) : Nat := h.request.id

/-- What changes about a subscribe request. -/
structure Life where
  status : Status
  /-- How many times loops were started; the loops of the last time are the ones to be cancelled. -/
  generation : Nat
  /-- Loops that stopping has to wait for. -/
  loops : List Nat
  deriving DecidableEq, Repr

def Life.start : Life := ⟨.new, 0, []⟩

/-- A sampling loop: it belongs to the request with key `owner`. -/
structure SamplingLoop where
  owner : Nat
  generation : Nat
  plan : Sampling
  /-- When the next sample is due. -/
  deadline : Nat
  cancelled : Bool
  deriving DecidableEq, Repr

/-- What one change of a transaction did, as far as it can be undone. -/
inductive Applied where
  | created (h : Handle)
  | deleted (h : Handle)
  | nothing
  deriving DecidableEq, Repr

/-- A transaction that was applied and waits to be done or aborted. -/
structure Pending where
  txn : Nat
  /-- What it did, the last change first. -/
  applied : List Applied
  deadline : Nat
  deriving DecidableEq, Repr

/-- What work may hold against other work: the pending transaction, or the polls of a request. -/
inductive Lock where
  | pending
  | poll (key : Nat)
  deriving DecidableEq, Repr

structure Engine where
  now : Nat
  datastore : Datastore Event
  cache : Cache
  registry : Registry Handle
  lives : SortedMap Nat Life
  handles : Nat
  loops : SortedMap Nat SamplingLoop
  loopsStarted : Nat
  pending : Option Pending
  held : List Lock

namespace Engine

def fresh (datastore : Datastore Event) : Engine where
  now := 0
  datastore := datastore
  cache := .empty
  registry := .empty
  lives := .empty
  handles := 0
  loops := .empty
  loopsStarted := 0
  pending := none
  held := []

instance : Inhabited Engine := ⟨fresh .empty⟩

/-! ## Events -/

/-- Sends an event; one that cannot be sent is lost. -/
def emit (s : Setup) (e : Engine) (event : Event) : Engine :=
  match e.datastore.send e.now s.topic event with
  | .ok d => { e with datastore := d }
  | .error _ => e

def emitAll (s : Setup) (e : Engine) (events : List Event) : Engine := events.foldl (emit s) e

/-- Sends one event on a topic and tells whether it arrived. -/
def tryEmit (topic : String) (e : Engine) (event : Event) : Engine × Except Error Unit :=
  match e.datastore.send e.now topic event with
  | .ok d => ({ e with datastore := d }, .ok ())
  | .error err =>
    (e, .error (if err.kind = .emit then err else .undelivered err.message))

/-! ## Reads -/

/-- What a read of the leaves under a path gives now. -/
def leaves (s : Setup) (e : Engine) (path : String) : Except Error Leaves :=
  match e.datastore.read path with
  | .error err => .error err
  | .ok none => .ok .empty
  | .ok (some tree) => Leaves.flatten s.schema tree path

/-- The answer to a read that was started earlier and may have run out of time. -/
def answer (s : Setup) (e : Engine) (path : String) (expired : Bool) : Except Error Leaves :=
  if expired then .error (.readTimedOut path s.readTimeout) else e.leaves s path

/-! ## Subscribe requests -/

def life (e : Engine) (h : Handle) : Life := (e.lives.find? h.key).getD .start

def status (e : Engine) (h : Handle) : Status := (e.life h).status

def setLife (e : Engine) (h : Handle) (l : Life) : Engine :=
  { e with lives := e.lives.insert h.key l }

def setStatus (e : Engine) (h : Handle) (status : Status) : Engine :=
  e.setLife h { e.life h with status }

/-- Makes a subscribe request. -/
def make (e : Engine) (r : Request) : Handle × Engine :=
  (⟨e.handles, r⟩, { e with handles := e.handles + 1 })

/-- Drops the cached leaves of a request. -/
def release (e : Engine) (h : Handle) : Engine := { e with cache := e.cache.removeRequest h.id }

/-- Takes a snapshot from what was read. -/
def snapshot (s : Setup) (scope : Snapshot.Scope) (h : Handle) (readings : List Snapshot.Reading)
    (e : Engine) : Engine :=
  let (cache, events) := Snapshot.takeAll scope e.now h.id readings e.cache
  emitAll s { e with cache } events

def sync (s : Setup) (h : Handle) (e : Engine) : Engine := emit s e (.sync h.id)

/-! ## Sampling loops -/

/-- A loop that starts now. -/
def newLoop (s : Setup) (h : Handle) (generation : Nat) (e : Engine) (sub : Subscription) :
    SamplingLoop :=
  let plan := Sampling.ofSubscription h.id sub s.least
  ⟨h.key, generation, plan, e.now + plan.period, false⟩

/-- Starts loops one after the other. -/
def addLoops (ls : List SamplingLoop) (e : Engine) : Engine :=
  ls.foldl (fun e l => { e with
    loops := e.loops.insert e.loopsStarted l, loopsStarted := e.loopsStarted + 1 }) e

/-- Starts a loop for every subscription of a request. -/
def startLoops (s : Setup) (h : Handle) (e : Engine) : Engine :=
  let l := e.life h
  let ls := h.request.subscriptions.map (newLoop s h (l.generation + 1) e)
  let refs := (List.range ls.length).map (e.loopsStarted + ·)
  (addLoops ls e).setLife h { l with generation := l.generation + 1, loops := l.loops ++ refs }

/-- Tells the loops started last to end, and hands over every loop there is to wait for. -/
def cancelLoops (h : Handle) (e : Engine) : Engine :=
  let l := e.life h
  let cancel (_ : Nat) (x : SamplingLoop) : SamplingLoop :=
    if x.owner = h.key ∧ x.generation = l.generation then { x with cancelled := true } else x
  { e with loops := e.loops.map cancel }.setLife h { l with loops := [] }

/-- A cancelled loop ends: its leaves leave the cache. -/
def endLoop (ref : Nat) (e : Engine) : Engine :=
  match e.loops.find? ref with
  | none => e
  | some l => { e with
      loops := e.loops.erase ref
      cache := e.cache.removeSubscription l.plan.request l.plan.subscription }

/-- Ends a loop that did not end in time, with nothing done about its leaves. -/
def abortLoop (ref : Nat) (e : Engine) : Engine := { e with loops := e.loops.erase ref }

/-- How many of its loops a request has running. -/
def runningLoops (h : Handle) (e : Engine) : Nat :=
  ((e.life h).loops.filter e.loops.contains).length

/-- What a sample does: reports, and a cache that knows of them. -/
def observe (s : Setup) (p : Sampling) (leaves : Leaves) (e : Engine) : Engine :=
  let (cache, events) := p.observe e.now leaves e.cache
  emitAll s { e with cache } events

/-! ## Locks -/

def hold (l : Lock) (e : Engine) : Engine := { e with held := l :: e.held }

def free (l : Lock) (e : Engine) : Engine := { e with held := e.held.erase l }

end Engine

end Telemetry
