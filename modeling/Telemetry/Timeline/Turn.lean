import Telemetry.Timeline.Basic

/-!
# Taking turns

What a call, a sampling loop and the server do when it is their turn. A turn is taken in pieces:
after each change of the state the turns whose wait that has ended are queued before it goes on.
-/
namespace Telemetry.Timeline

/-- Takes work past the wait that is over, or on from where it is. -/
def step (t : Timeline) (wait : Wait) (w : Work α) : Timeline × Work.Reached α :=
  let resume (expired : Bool) : Timeline × Work.Reached α :=
    let (e, w) := w.resume t.setup expired t.engine
    ({ t with engine := e }.spend, .going w)
  match wait with
  | .work (.reading u expired) =>
    if t.engine.now < u then (t, .waiting w (.reading u expired)) else resume expired
  | .work _ => resume false
  | _ =>
    let (e, budget, reached) := w.advance t.setup t.canTake t.budget t.engine
    ({ t with engine := e, budget }, reached)

/-- Goes on with work as far as it has come. `keep` notes the rest of it. -/
def follow (t : Timeline) (turn : Turn) (keep : Timeline → Work α → Timeline)
    (finish : Timeline → α → Timeline) : Work.Reached α → Timeline
  | .done a => finish t a
  | .going w => (keep t w).again turn
  | .waiting w wait => (keep t w).park turn (.work wait)
  | .yielding w wait => (keep t w).makeWay turn (wait.elim .ready .work)

/-! ## Calls -/

def setCall (t : Timeline) (i : Nat) (p : Progress) : Timeline :=
  { t with calls := t.calls.set i p }

/-- Gives a call the answer it waits for. -/
def reply (t : Timeline) (i : Nat) (o : Outcome) : Timeline :=
  match t.calls[i]? with
  | some (.asking e next) => t.setCall i (.answered e (next o))
  | _ => t

/-- A call goes on with its script. -/
def proceed (t : Timeline) (i : Nat) (s : Script) : Timeline :=
  (t.setCall i (.script s)).again (.call i)

/-- A call works on the engine. -/
def workCall (t : Timeline) (i : Nat) (wait : Wait) (w : Work Outcome)
    (next : Outcome → Script) : Timeline :=
  let (t, reached) := t.step wait w
  t.follow (.call i) (fun t w => t.setCall i (.working w next)) (fun t o => t.proceed i (next o))
    reached

/-- A call waits for the answer to its message. -/
def awaitAnswer (t : Timeline) (i : Nat) : Timeline :=
  if t.budget = 0 then t.makeWay (.call i) .answer else t.park (.call i) .answer

/-- A call sends a message to an endpoint, as soon as there is room. -/
def offer (t : Timeline) (i : Nat) (e : Endpoint) (m : Message) (next : Outcome → Script) :
    Timeline :=
  if t.budget = 0 then (t.setCall i (.sending e m next)).makeWay (.call i) .ready
  else if e ∈ t.engine.datastore.closed then
    t.spend.proceed i (next (.error (.receiverGone m.channel)))
  else if t.hasRoom e then
    let t := { t.spend with inbox := t.inbox ++ [Arrival.mk e m i] }
    (t.setCall i (.asking e next)).awaitAnswer i
  else (t.setCall i (.sending e m next)).park (.call i) (.room e)

/-- A call does the next thing in its script. -/
def scriptCall (t : Timeline) (i : Nat) : Script → Timeline
  | .done o => t.setCall i (.finished t.engine.now o)
  | .sleep ns next =>
    if ns = 0 then t.proceed i next
    else
      (t.setCall i (.script next)).park (.call i)
        (.time (Cadence.firing (t.engine.now + Cadence.bounded ns)))
  | .work w next => t.workCall i .ready w next
  | .number next =>
    let (txn, d) := t.engine.datastore.nextTransaction
    { t with engine := { t.engine with datastore := d } }.proceed i (next txn)
  | .ask m next =>
    match t.engine.datastore.deliver m with
    | .error e => t.proceed i (next (.error e))
    | .ok e => t.offer i e m next
  | .halt next =>
    { t.setCall i (.script next) with shutdown := true }.park (.call i) .halted

def takeCall (t : Timeline) (i : Nat) (wait : Wait) : Timeline :=
  match t.calls[i]? with
  | some (.script s) => (if wait = .ready then t else t.spend).scriptCall i s
  | some (.working w next) => t.workCall i wait w next
  | some (.sending e m next) => t.offer i e m next
  | some (.asking ..) => t.awaitAnswer i
  | some (.answered _ s) => t.spend.scriptCall i s
  | _ => t

/-! ## Sampling loops -/

/-- A loop samples. -/
def workLoop (t : Timeline) (ref : Nat) (wait : Wait) (w : Work Unit) : Timeline :=
  let (t, reached) := t.step wait w
  t.follow (.loop ref) (fun t w => { t with samples := t.samples.insert ref w })
    (fun t () => { t with samples := t.samples.erase ref }.again (.loop ref)) reached

/-- A loop takes the sample that is due. -/
def startSample (t : Timeline) (ref : Nat) (l : SamplingLoop) : Timeline :=
  let l := { l with deadline := Cadence.next l.plan.period l.deadline t.engine.now }
  let e := { t.engine with loops := t.engine.loops.insert ref l }
  { t with engine := e }.spend.workLoop ref .ready (Engine.sample t.setup l.plan)

/-- A loop ends if it was told to, goes on with its sample, takes the next one if it is due, or
waits for that. -/
def takeLoop (t : Timeline) (ref : Nat) (wait : Wait) : Timeline :=
  match t.engine.loops.find? ref with
  | none => { t with samples := t.samples.erase ref }
  | some l =>
    if l.cancelled then
      { t with engine := t.engine.endLoop ref, samples := t.samples.erase ref }
    else
      match t.samples.find? ref with
      | some w => t.workLoop ref wait w
      | none =>
        if t.budget = 0 then t.makeWay (.loop ref) .ready
        else if Cadence.firing l.deadline ≤ t.engine.now then t.startSample ref l
        else t.park (.loop ref) (.time (Cadence.firing l.deadline))

/-! ## The server -/

/-- The server has stopped: nobody receives at its endpoints, and messages that wait there are
dropped. -/
def finish (t : Timeline) : Timeline :=
  let t := { t with
    serving := .finished
    engine := { t.engine with datastore := t.engine.datastore.close t.endpoints } }
  let t := t.inbox.foldl (fun t a => t.reply a.call (.error (.replyDropped a.message.channel))) t
  { t with inbox := [] }

/-- The server works on the engine. -/
def workServer (t : Timeline) (wait : Wait) (w : Work Outcome)
    (serving : Work Outcome → Serving) (finish : Timeline → Outcome → Timeline) : Timeline :=
  let (t, reached) := t.step wait w
  t.follow .server (fun t w => { t with serving := serving w }) finish reached

def goOn (t : Timeline) (serving : Serving) : Timeline := { t with serving }.again .server

def quietly (w : Work Unit) : Work Outcome := w.bind fun () => .done (.ok .null)

/-- A look at the pending transaction, which nobody may be working on meanwhile. -/
def look : Work Outcome := quietly do
  .lock .pending (.done ())
  .unlock .pending

def workLooking (t : Timeline) (wait : Wait) (w : Work Outcome) : Timeline :=
  t.workServer wait w .looking fun t _ => t.goOn .attending

def workHandling (t : Timeline) (wait : Wait) (i : Nat) (w : Work Outcome) : Timeline :=
  t.workServer wait w (.handling i) fun t o => (t.reply i o).goOn .idle

def workExpiring (t : Timeline) (wait : Wait) (w : Work Outcome) : Timeline :=
  t.workServer wait w .expiring fun t _ => t.goOn .idle

def workStopping (t : Timeline) (wait : Wait) (w : Work Outcome) : Timeline :=
  t.workServer wait w .stopping fun t _ => t.finish

/-- The server finds something to do: a shutdown comes first, then messages in the order they
arrived, then the end of the change stream, then a transaction whose time is up. A message is
received before it is handled, so that the next call gets its room first. -/
def attend (t : Timeline) : Timeline :=
  if t.budget = 0 then t.makeWay .server .ready
  else if t.shutdown then t.workStopping .ready (quietly Engine.shutdown)
  else
    match t.inbox with
    | a :: rest =>
      { t.spend with inbox := rest }.goOn (.handling a.call (Engine.serve t.setup a.message))
    | [] =>
      if t.streamEnded then t.spend.workStopping .ready (quietly Engine.shutdown)
      else if t.engine.pending.any fun p => Cadence.firing p.deadline ≤ t.engine.now then
        t.spend.workExpiring .ready (quietly (Engine.expire t.setup))
      else t.park .server .message

def takeServer (t : Timeline) (wait : Wait) : Timeline :=
  match t.serving with
  | .absent | .finished => t
  | .idle => t.workLooking .ready look
  | .looking w => t.workLooking wait w
  | .attending => t.attend
  | .handling i w => t.workHandling wait i w
  | .expiring w => t.workExpiring wait w
  | .stopping w => t.workStopping wait w

def take (t : Timeline) (p : Parked) : Timeline :=
  match p.turn with
  | .call i => t.takeCall i p.wait
  | .loop ref => t.takeLoop ref p.wait
  | .server => t.takeServer p.wait

end Telemetry.Timeline
