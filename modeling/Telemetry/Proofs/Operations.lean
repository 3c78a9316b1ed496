import Telemetry.Engine.Server
import Telemetry.Proofs.Reports

/-!
# Operations on an engine, field by field

What the operations that calls and loops are made of do to each part of an engine. `Cache` and
events come from `Telemetry.Proofs.Reports`; here are the datastore, the lives of requests and the
sampling loops.

* `Engine.emitAll_eq`: sending changes the datastore only, and there only what was sent
  (`Datastore.sendAll_sent`).
* `Engine.find?_addLoops`: loops are started under the next numbers in order.
* `Engine.life_begin`, `Engine.loops_begin`: a start makes a request run, with one loop for every
  subscription if it is a STREAM request.
-/
namespace Telemetry

/-! ## Sending -/

namespace Datastore

/-- Sends events one after the other; those that cannot be sent are lost. -/
def sendAll (d : Datastore Event) (now : Nat) (topic : String) (events : List Event) :
    Datastore Event :=
  events.foldl (fun d ev =>
    match d.send now topic ev with
    | .ok d => d
    | .error _ => d) d

/-- Whatever is sent arrives. -/
def Delivers (d : Datastore Event) : Prop := d.refusal = none ∧ d.failSends = false

instance (d : Datastore Event) : Decidable d.Delivers :=
  inferInstanceAs (Decidable (d.refusal = none ∧ d.failSends = false))

theorem sendAll_nil (d : Datastore Event) (now : Nat) (topic : String) :
    d.sendAll now topic [] = d := rfl

theorem sendAll_cons (d : Datastore Event) (now : Nat) (topic : String) (ev : Event)
    (events : List Event) :
    d.sendAll now topic (ev :: events) =
      (match d.send now topic ev with
        | .ok d => d
        | .error _ => d).sendAll now topic events := rfl

theorem sendAll_append (d : Datastore Event) (now : Nat) (topic : String)
    (events events' : List Event) :
    d.sendAll now topic (events ++ events') =
      (d.sendAll now topic events).sendAll now topic events' :=
  List.foldl_append ..

theorem send_eq_ok {d d' : Datastore Event} {now : Nat} {topic : String} {ev : Event}
    (h : d.send now topic ev = .ok d') :
    d' = { d with
      sent := d.sent ++ [⟨now, topic, ev⟩], watchers := d.watchers.map (· ++ [⟨now, topic, ev⟩]) } := by
  unfold send at h
  split at h
  · cases h
  · split at h
    · cases h
    · simpa using h.symm

/-- Sending adds to what was sent, in order, those of the events that arrive. -/
theorem sendAll_arrived (now : Nat) (topic : String) :
    ∀ (events : List Event) (d : Datastore Event), ∃ arrived : List Event,
      arrived.Sublist events ∧ (d.Delivers → arrived = events) ∧
        (d.sendAll now topic events).sent = d.sent ++ arrived.map (⟨now, topic, ·⟩)
  | [], d => ⟨[], List.nil_sublist _, fun _ => rfl, by simp [sendAll_nil]⟩
  | ev :: events, d => by
    rw [sendAll_cons]
    cases h : d.send now topic ev with
    | error err =>
      obtain ⟨arrived, hsub, -, hs⟩ := sendAll_arrived now topic events d
      exact ⟨arrived, hsub.cons ev, fun hd => by simp [send, hd.1, hd.2] at h, hs⟩
    | ok d' =>
      obtain ⟨arrived, hsub, hall, hs⟩ := sendAll_arrived now topic events d'
      refine ⟨ev :: arrived, hsub.cons_cons ev, fun hd => ?_, ?_⟩
      · have hd' : d'.Delivers := by rw [send_eq_ok h]; exact hd
        rw [hall hd']
      · rw [hs, send_eq_ok h]
        simp

theorem sendAll_sent (now : Nat) (topic : String) (events : List Event) (d : Datastore Event) :
    ∃ ns : List (Notification Event),
      (d.sendAll now topic events).sent = d.sent ++ ns ∧ ∀ n ∈ ns, n.event ∈ events := by
  obtain ⟨arrived, hsub, -, hs⟩ := sendAll_arrived now topic events d
  refine ⟨_, hs, fun n hn => ?_⟩
  obtain ⟨ev, hev, rfl⟩ := List.mem_map.1 hn
  exact hsub.subset hev

/-- When everything arrives, all of the events are added. -/
theorem Delivers.sendAll_sent {now : Nat} {topic : String} (events : List Event)
    {d : Datastore Event} (hd : d.Delivers) : (d.sendAll now topic events).sent =
      d.sent ++ events.map fun ev => (⟨now, topic, ev⟩ : Notification Event) := by
  obtain ⟨arrived, -, hall, hs⟩ := sendAll_arrived now topic events d
  rw [hs, hall hd]

/-- The notifications of events carry these events. -/
theorem map_event (now : Nat) (topic : String) (events : List Event) :
    (events.map fun ev => (⟨now, topic, ev⟩ : Notification Event)).map (·.event) = events := by
  simp [Function.comp_def]

/-- Sending changes nothing that reads depend on. -/
theorem read_sendAll (now : Nat) (topic : String) (path : String) :
    ∀ (events : List Event) (d : Datastore Event),
      (d.sendAll now topic events).read path = d.read path ∧
        (d.sendAll now topic events).readDelay = d.readDelay
  | [], _ => ⟨rfl, rfl⟩
  | ev :: events, d => by
    rw [sendAll_cons]
    cases h : d.send now topic ev with
    | error err => exact read_sendAll now topic path events d
    | ok d' =>
      simp only
      obtain ⟨hr, hd⟩ := read_sendAll now topic path events d'
      rw [hr, hd, send_eq_ok h]
      exact ⟨rfl, rfl⟩

end Datastore

namespace Engine

variable (s : Setup)

theorem emit_eq (e : Engine) (ev : Event) :
    emit s e ev = { e with datastore := e.datastore.sendAll e.now s.topic [ev] } := by
  unfold emit
  simp only [Datastore.sendAll_cons, Datastore.sendAll_nil]
  cases e.datastore.send e.now s.topic ev <;> rfl

theorem emitAll_eq (e : Engine) (events : List Event) :
    emitAll s e events = { e with datastore := e.datastore.sendAll e.now s.topic events } := by
  unfold emitAll
  induction events generalizing e with
  | nil => rfl
  | cons ev events ih =>
    rw [List.foldl_cons, ih, emit_eq]
    rfl

theorem observe_eq (p : Sampling) (leaves : Leaves) (e : Engine) :
    observe s p leaves e = { e with
      cache := (p.observe e.now leaves e.cache).1
      datastore := e.datastore.sendAll e.now s.topic (p.observe e.now leaves e.cache).2 } :=
  emitAll_eq s _ _

theorem snapshot_eq (scope : Snapshot.Scope) (h : Handle) (readings : List Snapshot.Reading)
    (e : Engine) :
    snapshot s scope h readings e = { e with
      cache := (Snapshot.takeAll scope e.now h.id readings e.cache).1
      datastore := e.datastore.sendAll e.now s.topic
        (Snapshot.takeAll scope e.now h.id readings e.cache).2 } :=
  emitAll_eq s _ _

/-- The events of a snapshot and of the SYNC_RESPONSE after it. -/
def snapshotEvents (scope : Snapshot.Scope) (h : Handle) (readings : List Snapshot.Reading)
    (e : Engine) : List Event :=
  (Snapshot.takeAll scope e.now h.id readings e.cache).2 ++ [.sync h.id]

theorem request_snapshotEvents {scope : Snapshot.Scope} {h : Handle}
    {readings : List Snapshot.Reading} {e : Engine} {ev : Event}
    (hm : ev ∈ snapshotEvents scope h readings e) : ev.request = h.id := by
  rcases List.mem_append.1 hm with hm | hm
  · exact Snapshot.request_takeAll scope _ _ readings _ hm
  · rw [List.mem_singleton.1 hm]; rfl

theorem burst_eq (h : Handle) (readings : List Snapshot.Reading) (e : Engine) :
    burst s h readings e = { e with
      cache := (Snapshot.takeAll ⟨true, true⟩ e.now h.id readings e.cache).1
      datastore := e.datastore.sendAll e.now s.topic
        (snapshotEvents ⟨true, true⟩ h readings e) } := by
  unfold burst sync snapshotEvents
  rw [emit_eq, snapshot_eq, Datastore.sendAll_append]

/-! ## Lives -/

theorem life_setLife (e : Engine) (h h' : Handle) (l : Life) :
    (e.setLife h l).life h' = if h'.key = h.key then l else e.life h' := by
  simp only [life, setLife, SortedMap.find?_insert]
  split <;> rfl

theorem life_setLife_self (e : Engine) (h : Handle) (l : Life) : (e.setLife h l).life h = l :=
  (life_setLife ..).trans (if_pos rfl)

theorem find?_setLife (e : Engine) (h : Handle) (l : Life) (k : Nat) :
    (e.setLife h l).lives.find? k = if k = h.key then some l else e.lives.find? k :=
  SortedMap.find?_insert ..

theorem life_eq_of_find? {e e' : Engine} {h : Handle}
    (hl : e'.lives.find? h.key = e.lives.find? h.key) : e'.life h = e.life h := by
  simp only [life, hl]

/-! ## Sampling loops -/

/-- The numbers of loops have been given. -/
def Numbered (e : Engine) : Prop := ∀ ref l, e.loops.find? ref = some l → ref < e.loopsStarted

theorem addLoops_eq (ls : List SamplingLoop) (e : Engine) :
    addLoops ls e = { e with
      loops := (addLoops ls e).loops, loopsStarted := e.loopsStarted + ls.length } := by
  unfold addLoops
  induction ls generalizing e with
  | nil => rfl
  | cons l ls ih =>
    rw [List.foldl_cons, ih]
    simp only [List.length_cons, Nat.add_assoc, Nat.add_comm 1]

theorem find?_addLoops (ls : List SamplingLoop) (e : Engine) (ref : Nat) :
    (addLoops ls e).loops.find? ref =
      if e.loopsStarted ≤ ref ∧ ref < e.loopsStarted + ls.length then ls[ref - e.loopsStarted]?
      else e.loops.find? ref := by
  induction ls generalizing e with
  | nil => exact (if_neg fun hc => Nat.not_lt.2 hc.1 hc.2).symm
  | cons l ls ih =>
    change (addLoops ls { e with
      loops := e.loops.insert e.loopsStarted l, loopsStarted := e.loopsStarted + 1 }).loops.find? ref
        = _
    rw [ih]
    simp only [SortedMap.find?_insert, List.length_cons]
    by_cases hlt : ref < e.loopsStarted
    · rw [if_neg (by omega), if_neg (by omega), if_neg (by omega)]
    · by_cases heq : ref = e.loopsStarted
      · subst heq
        rw [if_neg (by omega), if_pos rfl, if_pos (by omega), Nat.sub_self, List.getElem?_cons_zero]
      · by_cases hin : ref < e.loopsStarted + 1 + ls.length
        · rw [if_pos (by omega), if_pos (by omega),
            show ref - e.loopsStarted = (ref - (e.loopsStarted + 1)) + 1 by omega,
            List.getElem?_cons_succ]
        · rw [if_neg (by omega), if_neg heq, if_neg (by omega)]

/-- The numbers that the loops of a request get when they are started. -/
def nextLoops (h : Handle) (e : Engine) : List Nat :=
  (List.range h.request.subscriptions.length).map (e.loopsStarted + ·)

theorem startLoops_eq (h : Handle) (e : Engine) :
    startLoops s h e =
      (addLoops (h.request.subscriptions.map (newLoop s h ((e.life h).generation + 1) e)) e).setLife h
        { e.life h with
          generation := (e.life h).generation + 1, loops := (e.life h).loops ++ nextLoops h e } := by
  unfold startLoops nextLoops
  simp only [List.length_map]

/-- Telling loops to end. -/
def toldToEnd (h : Handle) (e : Engine) (l : SamplingLoop) : SamplingLoop :=
  if l.owner = h.key ∧ l.generation = (e.life h).generation then { l with cancelled := true } else l

@[simp] theorem owner_toldToEnd (h : Handle) (e : Engine) (l : SamplingLoop) :
    (toldToEnd h e l).owner = l.owner := by
  unfold toldToEnd
  split <;> rfl

@[simp] theorem plan_toldToEnd (h : Handle) (e : Engine) (l : SamplingLoop) :
    (toldToEnd h e l).plan = l.plan := by
  unfold toldToEnd
  split <;> rfl

/-- Nothing takes back that a loop was told to end. -/
theorem cancelled_toldToEnd {h : Handle} {e : Engine} {l : SamplingLoop}
    (told : l.cancelled = true ∨ l.owner = h.key ∧ l.generation = (e.life h).generation) :
    (toldToEnd h e l).cancelled = true := by
  unfold toldToEnd
  split
  · rfl
  · next hnot => exact told.resolve_right hnot

theorem life_cancelLoops (h : Handle) (e : Engine) :
    (cancelLoops h e).life h = { e.life h with loops := [] } := life_setLife_self ..

theorem find?_cancelLoops (h : Handle) (e : Engine) (ref : Nat) :
    (cancelLoops h e).loops.find? ref = (e.loops.find? ref).map (toldToEnd h e) :=
  SortedMap.find?_map ..

/-! ## Starts -/

section

variable (h : Handle) (readings : List Snapshot.Reading) (e : Engine)

/-- An engine after the first snapshot of a request. -/
def informed (e : Engine) : Engine :=
  { e with
    cache := (Snapshot.takeAll ⟨!h.request.updatesOnly, false⟩ e.now h.id readings e.cache).1
    datastore := e.datastore.sendAll e.now s.topic
      (snapshotEvents ⟨!h.request.updatesOnly, false⟩ h readings e) }

theorem begin_eq :
    begin s h readings e =
      (if h.request.mode = .stream then startLoops s h (informed s h readings e)
        else informed s h readings e).setStatus h .running := by
  unfold begin sync informed snapshotEvents
  simp only [emit_eq, snapshot_eq, Datastore.sendAll_append]

/-- A start changes cache, datastore, lives and loops. -/
theorem begin_frame :
    begin s h readings e = { informed s h readings e with
      lives := (begin s h readings e).lives
      loops := (begin s h readings e).loops
      loopsStarted := (begin s h readings e).loopsStarted } := by
  rw [begin_eq]
  split
  · rw [startLoops_eq, addLoops_eq]; rfl
  · rfl

theorem find?_lives_begin (k : Nat) :
    (begin s h readings e).lives.find? k =
      if k = h.key then some
        (if h.request.mode = .stream then
          ⟨.running, (e.life h).generation + 1, (e.life h).loops ++ nextLoops h e⟩
        else { e.life h with status := .running })
      else e.lives.find? k := by
  have hinf : (informed s h readings e).life h = e.life h := rfl
  rw [begin_eq]
  by_cases hm : h.request.mode = .stream
  · simp only [hm, if_true, startLoops_eq, setStatus, find?_setLife, life_setLife, hinf]
    split
    · rfl
    · rw [addLoops_eq]; rfl
  · simp only [hm, if_false, setStatus, find?_setLife, hinf]
    rfl

theorem life_begin :
    (begin s h readings e).life h =
      if h.request.mode = .stream then
        ⟨.running, (e.life h).generation + 1, (e.life h).loops ++ nextLoops h e⟩
      else { e.life h with status := .running } := by
  simp only [life, find?_lives_begin, if_true, Option.getD_some]

theorem loops_begin (ref : Nat) :
    (begin s h readings e).loops.find? ref =
      if h.request.mode = .stream ∧ e.loopsStarted ≤ ref ∧
          ref < e.loopsStarted + h.request.subscriptions.length then
        (h.request.subscriptions[ref - e.loopsStarted]?).map
          (newLoop s h ((e.life h).generation + 1) e)
      else e.loops.find? ref := by
  rw [begin_eq]
  by_cases hm : h.request.mode = .stream
  · simp only [hm, if_true, true_and, startLoops_eq]
    change (addLoops _ (informed s h readings e)).loops.find? ref = _
    rw [find?_addLoops]
    simp only [List.length_map, List.getElem?_map]
    rfl
  · simp only [hm, if_false, false_and]
    rfl

theorem loopsStarted_begin :
    (begin s h readings e).loopsStarted =
      e.loopsStarted + if h.request.mode = .stream then h.request.subscriptions.length else 0 := by
  rw [begin_eq]
  by_cases hm : h.request.mode = .stream
  · simp only [hm, if_true]
    rw [startLoops_eq, addLoops_eq]
    exact congrArg (e.loopsStarted + ·) (List.length_map ..)
  · simp only [hm, if_false]
    rfl

end

end Engine

end Telemetry
