import Telemetry.Proofs.Crew
import Telemetry.Proofs.Rounds

/-!
# Subscriptions are independent

All subscriptions share one cache and one datastore, and any number of calls may be at work while
their loops sample. What happens to cached leaves is then an interleaving of moments: a loop samples,
a request takes a snapshot when it starts or is polled, a loop ends, a request stops. Every moment
comes with the answers that it was given and with whether what it tells arrives. A subscription sees
of all that only what it has a part in.

* `Act.perform_own`, `Act.perform_other`: a moment does to a subscription what the part of it does
  that is its own, and nothing if it has none.
* `Moment.replay_own`: so does a sequence of moments.
* `Engine.Trail`: the moments on the way from one engine to another.
* `Engine.Passes.diamond`: moments of different subscriptions can change places.
* `Crew.Run.trail`: whatever calls are at work, what happens to cached leaves is a trail of moments.
* `Crew.subscriptions_independent`: in every run, cached leaves and events of every subscription are
  those of its own moments, replayed alone.
* `Crew.small_subscriptions_independent`: two loops that are due at the same time.
-/
namespace Telemetry

open Engine (Call)
open Relation (ReflTransGen)

/-! ## Moments -/

/-- What happens to cached leaves, with the answers that it came with. -/
inductive Act where
  /-- A loop samples. -/
  | sample (p : Sampling) (answer : Except Error Leaves)
  /-- A request that starts or is polled has read all its subscriptions. -/
  | snapshot (request : Nat) (scope : Snapshot.Scope) (readings : List Snapshot.Reading)
  /-- A loop ends. -/
  | close (request subscription : Nat)
  /-- A request stops. -/
  | release (request : Nat)

/-- When something happens, and whether what it tells arrives. -/
structure Moment where
  time : Nat
  act : Act
  arrives : Bool

namespace Act

def perform (time : Nat) : Act → Cache → Cache × List Event
  | sample p answer, c => p.shoot ⟨time, answer⟩ c
  | snapshot r scope readings, c => Snapshot.takeAll scope time r readings c
  | close r sid, c => (c.removeSubscription r sid, [])
  | release r, c => (c.removeRequest r, [])

/-- The part that a subscription has in it, if any. -/
def own (r sid : Nat) : Act → Option Act
  | sample p answer =>
    if p.request = r ∧ p.subscription = sid then some (sample p answer) else none
  | snapshot r' scope readings =>
    if r' = r ∧ sid ∈ readings.map (·.1) then
      some (snapshot r' scope (readings.filter (·.1 = sid)))
    else none
  | close r' sid' => if r' = r ∧ sid' = sid then some (close r' sid') else none
  | release r' => if r' = r then some (release r') else none

end Act

/-! ## What a subscription sees of a moment -/

namespace Snapshot

variable {r : Nat} {c c' : Cache}

/-- A snapshot of a subscription depends on the leaves of that subscription alone. -/
theorem take_congr (scope : Scope) (now : Nat) {reading : Reading}
    (h : c.bucket r reading.1 = c'.bucket r reading.1) :
    (take scope now r reading c).1.bucket r reading.1 =
        (take scope now r reading c').1.bucket r reading.1 ∧
      (take scope now r reading c).2 = (take scope now r reading c').2 := by
  refine ⟨SortedMap.ext_find? fun path => ?_, ?_⟩
  · rw [find?_take, find?_take, h]
  · simp only [events_take, reported, Cache.list, h]

/-- Of a snapshot a subscription sees only what was read for it. -/
theorem takeAll_own (scope : Scope) (now : Nat) {sid : Nat} (readings : List Reading)
    (h : c.bucket r sid = c'.bucket r sid) :
    (takeAll scope now r readings c).1.bucket r sid =
        (takeAll scope now r (readings.filter (·.1 = sid)) c').1.bucket r sid ∧
      (takeAll scope now r readings c).2.filter (fun ev => ev.about r sid) =
        (takeAll scope now r (readings.filter (·.1 = sid)) c').2 := by
  induction readings generalizing c c' with
  | nil => exact ⟨h, rfl⟩
  | cons reading rest ih =>
    by_cases hsid : reading.1 = sid
    · subst hsid
      obtain ⟨hbucket, hevents⟩ := take_congr scope now h
      obtain ⟨hrest, htold⟩ := ih hbucket
      have hown : (take scope now r reading c).2.filter (fun ev => ev.about r reading.1) =
          (take scope now r reading c).2 :=
        List.filter_eq_self.2 fun ev hm => by simpa using about_take scope now r reading c hm
      rw [List.filter_cons_of_pos (by simp)]
      simp only [takeAll, List.filter_append]
      exact ⟨hrest, by rw [htold, hown, hevents]⟩
    · have hother : (take scope now r reading c).1.bucket r sid = c.bucket r sid :=
        (take_changesAt scope now r reading c).other r sid fun hc => hsid hc.2.symm
      obtain ⟨hrest, htold⟩ := ih (hother.trans h)
      have hnone : (take scope now r reading c).2.filter (fun ev => ev.about r sid) = [] :=
        List.filter_eq_nil_iff.2 fun ev hm => by
          simpa using fun habout => hsid ((about_take scope now r reading c hm).unique habout).2
      rw [List.filter_cons_of_neg (by simpa using hsid)]
      simp only [takeAll, List.filter_append]
      exact ⟨hrest, by rw [htold, hnone, List.nil_append]⟩

end Snapshot

namespace Act

variable {r sid : Nat} {a o : Act} {c c' : Cache}

/-- A subscription sees its own part of what happens, whatever the rest of the cache is. -/
theorem perform_own (time : Nat) (h : a.own r sid = some o)
    (hc : c.bucket r sid = c'.bucket r sid) :
    (a.perform time c).1.bucket r sid = (o.perform time c').1.bucket r sid ∧
      (a.perform time c).2.filter (fun ev => ev.about r sid) = (o.perform time c').2 := by
  cases a with
  | sample p answer =>
    simp only [own, Option.ite_none_right_eq_some, Option.some.injEq] at h
    obtain ⟨⟨rfl, rfl⟩, rfl⟩ := h
    obtain ⟨hbucket, hevents⟩ := p.shoot_congr ⟨time, answer⟩ hc
    refine ⟨hbucket, Eq.trans (List.filter_eq_self.2 fun ev hm => ?_) hevents⟩
    simpa using p.about_shoot _ _ hm
  | snapshot r' scope readings =>
    simp only [own, Option.ite_none_right_eq_some, Option.some.injEq] at h
    obtain ⟨⟨rfl, -⟩, rfl⟩ := h
    exact Snapshot.takeAll_own scope time readings hc
  | close r' sid' =>
    simp only [own, Option.ite_none_right_eq_some, Option.some.injEq] at h
    obtain ⟨⟨rfl, rfl⟩, rfl⟩ := h
    simp only [perform, Cache.bucket_removeSubscription, and_self, if_true, List.filter_nil]
  | release r' =>
    simp only [own, Option.ite_none_right_eq_some, Option.some.injEq] at h
    obtain ⟨rfl, rfl⟩ := h
    simp only [perform, Cache.bucket_removeRequest, if_true, List.filter_nil, and_self]

/-- It sees nothing of what it has no part in. -/
theorem perform_other (time : Nat) (h : a.own r sid = none) :
    (a.perform time c).1.bucket r sid = c.bucket r sid ∧
      (a.perform time c).2.filter (fun ev => ev.about r sid) = [] := by
  cases a with
  | sample p answer =>
    simp only [own, ite_eq_right_iff, reduceCtorEq, imp_false] at h
    have hother : ¬(r = p.request ∧ sid = p.subscription) := fun hk => h ⟨hk.1.symm, hk.2.symm⟩
    refine ⟨?_, List.filter_eq_nil_iff.2 fun ev hm => ?_⟩
    · cases answer with
      | error => rfl
      | ok leaves => exact (p.observe_changesAt time leaves c).other _ _ hother
    · simpa using fun habout => hother (habout.unique (p.about_shoot _ _ hm))
  | snapshot r' scope readings =>
    simp only [own, ite_eq_right_iff, reduceCtorEq, imp_false] at h
    have hother : ¬(r = r' ∧ sid ∈ readings.map (·.1)) := fun hk => h ⟨hk.1.symm, hk.2⟩
    refine ⟨Snapshot.bucket_takeAll_of_notMem scope time r' readings c hother, ?_⟩
    by_cases hr : r' = r
    · subst hr
      have hnone : readings.filter (·.1 = sid) = [] :=
        List.filter_eq_nil_iff.2 fun reading hm => by
          simpa using fun heq : reading.1 = sid => h ⟨rfl, heq ▸ List.mem_map_of_mem hm⟩
      exact (Snapshot.takeAll_own scope time readings (c := c) rfl).2.trans (by rw [hnone]; rfl)
    · refine List.filter_eq_nil_iff.2 fun ev hm => ?_
      simpa using fun habout =>
        hr ((Snapshot.request_takeAll scope time r' readings c hm).symm.trans habout.request)
  | close r' sid' =>
    simp only [own, ite_eq_right_iff, reduceCtorEq, imp_false] at h
    refine ⟨?_, rfl⟩
    simp only [perform, Cache.bucket_removeSubscription]
    exact if_neg fun hk => h ⟨hk.1.symm, hk.2.symm⟩
  | release r' =>
    simp only [own, ite_eq_right_iff, reduceCtorEq, imp_false] at h
    refine ⟨?_, rfl⟩
    simp only [perform, Cache.bucket_removeRequest]
    exact if_neg fun hk => h hk.symm

theorem tidy_perform (a : Act) (time : Nat) (h : c.Tidy) : (a.perform time c).1.Tidy := by
  cases a with
  | sample p answer =>
    cases answer with
    | error => exact h
    | ok leaves => exact (p.observe_changesAt time leaves c).tidy h
  | snapshot r scope readings => exact Snapshot.tidy_takeAll scope time r readings c h
  | close r sid => exact h.removeSubscription r sid
  | release r => exact h.removeRequest r

end Act

/-! ## Sequences of moments -/

namespace Moment

variable {s : Setup} {r sid : Nat} {c c' : Cache}

/-- The part that a subscription has in a moment, if any. -/
def own (r sid : Nat) (m : Moment) : Option Moment := (m.act.own r sid).map ({ m with act := · })

def cached (m : Moment) (c : Cache) : Cache := (m.act.perform m.time c).1

/-- What is sent in a moment. -/
def told (s : Setup) (m : Moment) (c : Cache) : List (Notification Event) :=
  if m.arrives then (m.act.perform m.time c).2.map (⟨m.time, s.topic, ·⟩) else []

/-- Moments one after the other, with the cache after them and what was sent. -/
def replay (s : Setup) : List Moment → Cache → Cache × List (Notification Event)
  | [], c => (c, [])
  | m :: rest, c =>
    let (c', ns) := replay s rest (m.cached c)
    (c', m.told s c ++ ns)

/-- No subscription has a part in both. -/
def Apart (m m' : Moment) : Prop := ∀ r sid, m.own r sid = none ∨ m'.own r sid = none

theorem about_told (m : Moment) (c : Cache) : Notification.about r sid (m.told s c) =
    if m.arrives then ((m.act.perform m.time c).2.filter fun ev => ev.about r sid).map
      (⟨m.time, s.topic, ·⟩) else [] := by
  unfold told Notification.about
  split
  · rw [List.filter_map]
    rfl
  · rfl

theorem perform_own {m o : Moment} (h : m.own r sid = some o)
    (hc : c.bucket r sid = c'.bucket r sid) :
    (m.cached c).bucket r sid = (o.cached c').bucket r sid ∧
      Notification.about r sid (m.told s c) = o.told s c' := by
  obtain ⟨a, ha, rfl⟩ := Option.map_eq_some_iff.1 h
  obtain ⟨hbucket, hevents⟩ := Act.perform_own m.time ha hc
  refine ⟨hbucket, ?_⟩
  rw [about_told, hevents]
  rfl

theorem perform_other {m : Moment} (h : m.own r sid = none) :
    (m.cached c).bucket r sid = c.bucket r sid ∧ Notification.about r sid (m.told s c) = [] := by
  obtain ⟨hbucket, hevents⟩ := Act.perform_other (c := c) m.time
    (Option.map_eq_none_iff.1 h)
  refine ⟨hbucket, ?_⟩
  rw [about_told, hevents]
  exact ite_self _

/-- What a moment does to a subscription depends on the leaves of that subscription alone. -/
theorem perform_congr (m : Moment) (hc : c.bucket r sid = c'.bucket r sid) :
    (m.cached c).bucket r sid = (m.cached c').bucket r sid ∧
      Notification.about r sid (m.told s c) = Notification.about r sid (m.told s c') := by
  cases ho : m.own r sid with
  | none =>
    obtain ⟨hb, ht⟩ := perform_other (s := s) (c := c) ho
    obtain ⟨hb', ht'⟩ := perform_other (s := s) (c := c') ho
    exact ⟨hb.trans (hc.trans hb'.symm), ht.trans ht'.symm⟩
  | some o =>
    obtain ⟨hb, ht⟩ := perform_own (s := s) ho hc
    obtain ⟨hb', ht'⟩ := perform_own (s := s) ho (c := c') rfl
    exact ⟨hb.trans hb'.symm, ht.trans ht'.symm⟩

theorem replay_append (ms ms' : List Moment) (c : Cache) :
    replay s (ms ++ ms') c = ((replay s ms' (replay s ms c).1).1,
      (replay s ms c).2 ++ (replay s ms' (replay s ms c).1).2) := by
  induction ms generalizing c with
  | nil => rfl
  | cons m ms ih => simp only [List.cons_append, replay, ih, List.append_assoc]

/-- A subscription sees of a sequence of moments what its own moments are when they are replayed
alone, whatever the rest of the cache is. -/
theorem replay_own (ms : List Moment) (hc : c.bucket r sid = c'.bucket r sid) :
    (replay s ms c).1.bucket r sid =
        (replay s (ms.filterMap (·.own r sid)) c').1.bucket r sid ∧
      Notification.about r sid (replay s ms c).2 =
        (replay s (ms.filterMap (·.own r sid)) c').2 := by
  induction ms generalizing c c' with
  | nil => exact ⟨hc, rfl⟩
  | cons m ms ih =>
    cases ho : m.own r sid with
    | none =>
      obtain ⟨hb, ht⟩ := perform_other (s := s) (c := c) ho
      obtain ⟨hrest, htold⟩ := ih (hb.trans hc)
      rw [List.filterMap_cons_none ho]
      simp only [replay, Notification.about_append]
      exact ⟨hrest, by rw [ht, htold, List.nil_append]⟩
    | some o =>
      obtain ⟨hb, ht⟩ := perform_own (s := s) ho hc
      obtain ⟨hrest, htold⟩ := ih hb
      rw [List.filterMap_cons_some ho]
      simp only [replay, Notification.about_append]
      exact ⟨hrest, by rw [ht, htold]⟩

theorem tidy_replay (ms : List Moment) (h : c.Tidy) : (replay s ms c).1.Tidy := by
  induction ms generalizing c with
  | nil => exact h
  | cons m ms ih => exact ih (m.act.tidy_perform m.time h)

/-- Moments that are apart can change places. -/
theorem Apart.swap {m m' : Moment} (h : m.Apart m') (hc : c.Tidy) :
    (replay s [m, m'] c).1 = (replay s [m', m] c).1 ∧ ∀ r sid,
      Notification.about r sid (replay s [m, m'] c).2 =
        Notification.about r sid (replay s [m', m] c).2 := by
  -- the one of which the subscription sees nothing may come first or last
  have same {m m' : Moment} {r sid : Nat} (ho : m'.own r sid = none) :
      (m'.cached (m.cached c)).bucket r sid = (m.cached (m'.cached c)).bucket r sid ∧
        Notification.about r sid (m.told s c ++ m'.told s (m.cached c)) =
          Notification.about r sid (m'.told s c ++ m.told s (m'.cached c)) := by
    obtain ⟨hb, ht⟩ := perform_other (s := s) (c := m.cached c) ho
    obtain ⟨hb', ht'⟩ := perform_other (s := s) (c := c) ho
    obtain ⟨hm, hmt⟩ := m.perform_congr (s := s) hb'.symm
    refine ⟨hb.trans hm, ?_⟩
    rw [Notification.about_append, Notification.about_append, ht, ht', hmt, List.append_nil,
      List.nil_append]
  have both (r sid : Nat) := (h r sid).elim (fun ho => (same (m := m') ho).imp Eq.symm Eq.symm)
    fun ho => same (m := m) ho
  refine ⟨Cache.Tidy.ext (tidy_replay _ hc) (tidy_replay _ hc) fun r sid => (both r sid).1,
    fun r sid => ?_⟩
  simpa only [replay, List.append_nil] using (both r sid).2

end Moment

/-! ## Moments of an engine -/

namespace Datastore

variable {now : Nat} {topic : String} {d : Datastore Event}

/-- Sending adds what arrives and changes nothing else that matters to sending. -/
theorem sendAll_eq (events : List Event) : (d.sendAll now topic events).sent =
      d.sent ++ (if d.Delivers then events.map (⟨now, topic, ·⟩) else []) ∧
    ((d.sendAll now topic events).Delivers ↔ d.Delivers) := by
  by_cases hd : d.Delivers
  · refine ⟨by rw [if_pos hd, hd.sendAll_sent], ?_⟩
    have keeps (ev : Event) {d d' : Datastore Event} (h : d.send now topic ev = .ok d')
        (hd : d.Delivers) : d'.Delivers := by
      rw [send_eq_ok h]
      exact hd
    refine iff_of_true ?_ hd
    induction events generalizing d with
    | nil => exact hd
    | cons ev events ih =>
      rw [sendAll_cons]
      cases h : d.send now topic ev with
      | error => exact ih hd
      | ok d' => exact ih (keeps ev h hd)
  · have hlost : d.sendAll now topic events = d := by
      induction events with
      | nil => rfl
      | cons ev events ih =>
        rw [sendAll_cons]
        cases h : d.send now topic ev with
        | error => exact ih
        | ok d' =>
          refine absurd ?_ hd
          unfold send at h
          split at h
          · cases h
          · next hrefusal =>
            split at h
            · cases h
            · next hfail => exact ⟨hrefusal, by simpa using hfail⟩
    rw [hlost, if_neg hd, List.append_nil]
    exact ⟨rfl, Iff.rfl⟩

end Datastore

namespace Engine

variable {s : Setup} {x y z : Engine} {ms ms' : List Moment} {m m' : Moment}

/-- Something happens now. -/
def moment (a : Act) (e : Engine) : Moment := ⟨e.now, a, e.datastore.Delivers⟩

/-- One step of an engine, and what happens in it. -/
inductive Passes (s : Setup) (x : Engine) : List Moment → Engine → Prop where
  | still {y : Engine} (cache : y.cache = x.cache) (sent : y.datastore.sent = x.datastore.sent) :
    Passes s x [] y
  | tick {ref : Nat} {l : SamplingLoop} (live : x.loops.find? ref = some l) (expired : Bool) :
    Passes s x [x.moment (.sample l.plan (x.answer s l.plan.path expired))]
      (x.sampled s l.plan (x.answer s l.plan.path expired))
  | begin (h : Handle) (readings : List Snapshot.Reading) :
    Passes s x [x.moment (.snapshot h.id ⟨!h.request.updatesOnly, false⟩ readings)]
      (begin s h readings x)
  | burst (h : Handle) (readings : List Snapshot.Reading) :
    Passes s x [x.moment (.snapshot h.id ⟨true, true⟩ readings)] (burst s h readings x)
  | ends {ref : Nat} {l : SamplingLoop} (live : x.loops.find? ref = some l)
    (told : l.cancelled = true) :
    Passes s x [x.moment (.close l.plan.request l.plan.subscription)] (x.endLoop ref)
  | halt (h : Handle) : Passes s x [x.moment (.release h.id)] (x.halted h)

/-- Any number of them. -/
inductive Trail (s : Setup) (x : Engine) : List Moment → Engine → Prop where
  | refl : Trail s x [] x
  | tail {y z : Engine} {ms ms' : List Moment} (before : Trail s x ms y) (p : Passes s y ms' z) :
    Trail s x (ms ++ ms') z

/-- Cached leaves and events of every subscription are those of a replay. -/
structure Replayed (s : Setup) (x : Engine) (ms : List Moment) (y : Engine) : Prop where
  cache : y.cache = (Moment.replay s ms x.cache).1
  sent : ∃ new, y.datastore.sent = x.datastore.sent ++ new ∧ ∀ r sid,
    Notification.about r sid new = Notification.about r sid (Moment.replay s ms x.cache).2

theorem Replayed.trans (h : Replayed s x ms y) (h' : Replayed s y ms' z) :
    Replayed s x (ms ++ ms') z := by
  obtain ⟨new, hnew, habout⟩ := h.sent
  obtain ⟨new', hnew', habout'⟩ := h'.sent
  refine ⟨?_, new ++ new', by rw [hnew', hnew, List.append_assoc], fun r sid => ?_⟩
  · rw [h'.cache, h.cache, Moment.replay_append]
  · rw [Moment.replay_append, Notification.about_append, Notification.about_append, habout, habout',
      h.cache]

/-- What an engine tells in a moment, and perhaps something that is about no subscription. -/
theorem replayed_of_sendAll {a : Act} (events : List Event)
    (cache : y.cache = (a.perform x.now x.cache).1)
    (sent : y.datastore.sent = (x.datastore.sendAll x.now s.topic events).sent)
    (same : ∀ r sid, events.filter (fun ev => ev.about r sid) =
      (a.perform x.now x.cache).2.filter fun ev => ev.about r sid) :
    Replayed s x [x.moment a] y := by
  refine ⟨cache, _, sent.trans (Datastore.sendAll_eq events).1, fun r sid => ?_⟩
  simp only [Moment.replay, List.append_nil, Moment.about_told]
  unfold moment
  by_cases hd : x.datastore.Delivers
  · simp only [hd, if_true, decide_true, ← same]
    unfold Notification.about
    rw [List.filter_map]
    rfl
  · simp only [hd, if_false, decide_false, Bool.false_eq_true]
    rfl

theorem filter_snapshotEvents (scope : Snapshot.Scope) (h : Handle)
    (readings : List Snapshot.Reading) (r sid : Nat) :
    (snapshotEvents scope h readings x).filter (fun ev => ev.about r sid) =
      (Snapshot.takeAll scope x.now h.id readings x.cache).2.filter fun ev => ev.about r sid := by
  have hsync : [Event.sync h.id].filter (fun ev => ev.about r sid) = [] := rfl
  rw [snapshotEvents, List.filter_append, hsync, List.append_nil]

theorem Passes.replayed (p : Passes s x ms y) : Replayed s x ms y := by
  cases p with
  | still cache sent => exact ⟨cache, [], by rw [sent, List.append_nil], fun _ _ => rfl⟩
  | tick =>
    rw [sampled_shoot]
    exact replayed_of_sendAll _ rfl rfl fun _ _ => rfl
  | begin h readings =>
    rw [begin_frame]
    exact replayed_of_sendAll _ rfl rfl (filter_snapshotEvents _ h readings)
  | burst h readings =>
    rw [burst_eq]
    exact replayed_of_sendAll _ rfl rfl (filter_snapshotEvents _ h readings)
  | ends live =>
    rw [endLoop_eq live]
    exact replayed_of_sendAll [] rfl rfl fun _ _ => rfl
  | halt h => exact replayed_of_sendAll [] rfl rfl fun _ _ => rfl

theorem Trail.replayed (t : Trail s x ms y) : Replayed s x ms y := by
  induction t with
  | refl => exact ⟨rfl, [], (List.append_nil _).symm, fun _ _ => rfl⟩
  | tail _ p ih => exact ih.trans p.replayed

/-! ### Two of them at once -/

/-- What a moment leaves as it is for others that are due. -/
structure Spares (s : Setup) (x : Engine) (m : Moment) (y : Engine) : Prop where
  moment : ∀ a, y.moment a = x.moment a
  answer : ∀ path expired, y.answer s path expired = x.answer s path expired
  live : ∀ {ref l}, x.loops.find? ref = some l →
    y.loops.find? ref = some l ∨ m.act = .close l.plan.request l.plan.subscription

theorem spares_of_sendAll (events : List Event) (hnow : y.now = x.now)
    (hdata : y.datastore = x.datastore.sendAll x.now s.topic events)
    (live : ∀ {ref l}, x.loops.find? ref = some l →
      y.loops.find? ref = some l ∨ m.act = .close l.plan.request l.plan.subscription) :
    Spares s x m y where
  moment a := by
    unfold Engine.moment
    rw [hnow, hdata]
    simp only [(Datastore.sendAll_eq events).2]
  answer path expired := by
    unfold Engine.answer Engine.leaves
    rw [hdata, (Datastore.read_sendAll ..).1]
  live := live

theorem Passes.spares (numbered : x.Numbered) (p : Passes s x [m] y) : Spares s x m y := by
  cases p with
  | tick =>
    rw [sampled_shoot]
    exact spares_of_sendAll _ rfl rfl .inl
  | begin h readings =>
    rw [begin_frame]
    refine spares_of_sendAll _ rfl rfl fun {ref l} hl => .inl ?_
    change (Engine.begin s h readings x).loops.find? ref = _
    rw [loops_begin, if_neg fun hc => Nat.not_lt.2 hc.2.1 (numbered ref l hl), hl]
  | burst h readings =>
    rw [burst_eq]
    exact spares_of_sendAll _ rfl rfl .inl
  | @ends ref l live told =>
    rw [endLoop_eq live]
    refine spares_of_sendAll [] rfl rfl fun {ref' l'} hl' => ?_
    by_cases heq : ref' = ref
    · subst heq
      rw [live] at hl'
      cases hl'
      exact .inr rfl
    · left
      rw [← hl']
      exact SortedMap.find?_erase_of_ne heq
  | halt h => exact spares_of_sendAll [] rfl rfl .inl

/-- What is due apart from a moment is still due after it. -/
theorem Passes.later (numbered : x.Numbered) (apart : m.Apart m') (p : Passes s x [m] y)
    (p' : Passes s x [m'] z) : ∃ z', Passes s y [m'] z' := by
  have hspares := p.spares numbered
  -- a loop whose subscription has no part in the moment lives on
  have alive {ref : Nat} {l : SamplingLoop} (live : x.loops.find? ref = some l)
      (part : m'.own l.plan.request l.plan.subscription ≠ none) : y.loops.find? ref = some l := by
    refine (hspares.live live).resolve_right fun hclose => ?_
    refine (apart l.plan.request l.plan.subscription).elim (fun hno => ?_) part
    simp [Moment.own, hclose, Act.own] at hno
  cases p' with
  | @tick ref l live expired =>
    rw [← hspares.moment, ← hspares.answer]
    exact ⟨_, .tick (alive live (by simp [Moment.own, Engine.moment, Act.own])) expired⟩
  | begin h readings =>
    rw [← hspares.moment]
    exact ⟨_, .begin h readings⟩
  | burst h readings =>
    rw [← hspares.moment]
    exact ⟨_, .burst h readings⟩
  | @ends ref l live told =>
    rw [← hspares.moment]
    exact ⟨_, .ends (alive live (by simp [Moment.own, Engine.moment, Act.own])) told⟩
  | halt h =>
    rw [← hspares.moment]
    exact ⟨_, .halt h⟩

/-- Of two moments that are due and apart either may come first: the cache is the same in the end, and
so are the events of every subscription. -/
theorem Passes.diamond (numbered : x.Numbered) (tidy : x.cache.Tidy) (apart : m.Apart m')
    (p : Passes s x [m] y) (p' : Passes s x [m'] z) :
    ∃ y' z', Passes s y [m'] y' ∧ Passes s z [m] z' ∧ y'.cache = z'.cache ∧ ∀ r sid,
      Notification.about r sid y'.datastore.sent = Notification.about r sid z'.datastore.sent := by
  obtain ⟨y', hy⟩ := p.later numbered apart p'
  obtain ⟨z', hz⟩ := p'.later numbered (fun r sid => (apart r sid).symm) p
  refine ⟨y', z', hy, hz, ?_⟩
  have hleft : Replayed s x [m, m'] y' := p.replayed.trans hy.replayed
  have hright : Replayed s x [m', m] z' := p'.replayed.trans hz.replayed
  obtain ⟨hcache, htold⟩ := apart.swap (s := s) tidy
  obtain ⟨new, hnew, habout⟩ := hleft.sent
  obtain ⟨new', hnew', habout'⟩ := hright.sent
  refine ⟨by rw [hleft.cache, hright.cache, hcache], fun r sid => ?_⟩
  rw [hnew, hnew', Notification.about_append, Notification.about_append, habout, habout', htold]

/-! ## Runs -/

/-- Every subscription has the cached leaves that its own moments make when they are replayed alone,
from whatever cache has the same leaves of it to begin with, and its events are those that they tell. -/
def Alone (s : Setup) (x : Engine) (ms : List Moment) (y : Engine) : Prop :=
  ∃ new, y.datastore.sent = x.datastore.sent ++ new ∧ ∀ r sid c,
    c.bucket r sid = x.cache.bucket r sid →
      y.cache.bucket r sid = (Moment.replay s (ms.filterMap (·.own r sid)) c).1.bucket r sid ∧
      Notification.about r sid new = (Moment.replay s (ms.filterMap (·.own r sid)) c).2

/-- Two moments of different subscriptions that are due now give the same cache in either order, and
the same events of every subscription. -/
def Exchanges (s : Setup) (x : Engine) : Prop :=
  ∀ {m m' : Moment} {y z : Engine}, m.Apart m' → Passes s x [m] y → Passes s x [m'] z →
    ∃ y' z', Passes s y [m'] y' ∧ Passes s z [m] z' ∧ y'.cache = z'.cache ∧ ∀ r sid,
      Notification.about r sid y'.datastore.sent = Notification.about r sid z'.datastore.sent

theorem Replayed.alone (h : Replayed s x ms y) : Alone s x ms y := by
  obtain ⟨new, hnew, habout⟩ := h.sent
  refine ⟨new, hnew, fun r sid c hc => ?_⟩
  obtain ⟨hbucket, htold⟩ := Moment.replay_own (s := s) ms hc.symm
  exact ⟨by rw [h.cache, hbucket], by rw [habout, htold]⟩

/-- A step of an engine, which keeps its loops numbered. -/
structure Goes (s : Setup) (x y : Engine) : Prop where
  passes : ∃ ms, Passes s x ms y
  numbered : x.Numbered → y.Numbered

theorem Goes.still (cache : y.cache = x.cache) (sent : y.datastore.sent = x.datastore.sent)
    (loops : ∀ ref l, y.loops.find? ref = some l → ∃ l', x.loops.find? ref = some l')
    (started : y.loopsStarted = x.loopsStarted) : Goes s x y where
  passes := ⟨[], .still cache sent⟩
  numbered hx ref l hl := by
    obtain ⟨l', hl'⟩ := loops ref l hl
    rw [started]
    exact hx ref l' hl'

theorem numbered_begin {h : Handle} {readings : List Snapshot.Reading} (hx : x.Numbered) :
    (begin s h readings x).Numbered := by
  intro ref l hl
  rw [loops_begin] at hl
  rw [loopsStarted_begin]
  split at hl
  · next hnew =>
    rw [if_pos hnew.1]
    exact hnew.2.2
  · exact Nat.lt_of_lt_of_le (hx ref l hl) (Nat.le_add_right ..)

theorem admits_goes : Admits s (Goes s) where
  enroll _ _ := .still rfl rfl (fun _ l hl => ⟨l, hl⟩) rfl
  registry _ _ := .still rfl rfl (fun _ l hl => ⟨l, hl⟩) rfl
  begin h readings _ := ⟨⟨_, .begin h readings⟩, numbered_begin⟩
  burst h readings e := ⟨⟨_, .burst h readings⟩, by rw [burst_eq]; exact id⟩
  cancel h e := .still rfl rfl (fun ref l hl => by
    rw [find?_cancelLoops, Option.map_eq_some_iff] at hl
    exact hl.imp fun _ hl => hl.1) rfl
  abort ref e := .still rfl rfl (fun ref' l hl => ⟨l, SortedMap.find?_of_erase hl⟩) rfl
  halt h _ := ⟨⟨_, .halt h⟩, id⟩
  settle _ _ := .still rfl rfl (fun _ l hl => ⟨l, hl⟩) rfl
  unlock _ _ := .still rfl rfl (fun _ l hl => ⟨l, hl⟩) rfl

theorem goes_of_stir {ns : List Note} (hst : Stir s x ns y) : Goes s x y := by
  cases hst with
  | wait => exact .still rfl rfl (fun _ l hl => ⟨l, hl⟩) rfl
  | data same => exact .still rfl same (fun _ l hl => ⟨l, hl⟩) rfl
  | @due ref l live deadline =>
    refine .still rfl rfl (fun ref' l' hl' => ?_) rfl
    rw [SortedMap.find?_insert] at hl'
    split at hl'
    · next heq => exact ⟨l, heq ▸ live⟩
    · exact ⟨l', hl'⟩
  | tick live expired => exact ⟨⟨_, .tick live expired⟩, by rw [sampled_shoot]; exact id⟩
  | ends live told =>
    refine ⟨⟨_, .ends live told⟩, fun hx ref l hl => ?_⟩
    rw [endLoop_eq live] at hl ⊢
    exact hx ref l (SortedMap.find?_of_erase hl)

end Engine

namespace Crew

open Engine (Trail Goes Alone Exchanges Sound)

variable {s : Setup} {e : Engine} {cs : List Call} {es : List Engine} {y : Crew}

theorem Run.goes (r : Run s (.of s e cs) es y) : ReflTransGen (Goes s) e y.engine := by
  refine r.only (fun w hw e' => ?_) (fun _ _ => .still rfl rfl (fun _ l hl => ⟨l, hl⟩) rfl)
    Engine.goes_of_stir
  obtain ⟨c, -, rfl⟩ := List.mem_map.1 hw
  exact Engine.admits_goes.call (fun _ => .still rfl rfl (fun _ l hl => ⟨l, hl⟩) rfl) c e'

/-- Whatever calls are at work, what happens to cached leaves is a trail of moments. -/
theorem Run.trail (r : Run s (.of s e cs) es y) : ∃ ms, Trail s e ms y.engine := by
  have hgoes := r.goes
  generalize y.engine = z at hgoes
  induction hgoes with
  | refl => exact ⟨[], .refl⟩
  | tail _ st ih =>
    obtain ⟨ms, t⟩ := ih
    obtain ⟨ms', p⟩ := st.passes
    exact ⟨_, t.tail p⟩

theorem Run.numbered (r : Run s (.of s e cs) es y) (hn : e.Numbered) : y.engine.Numbered := by
  have hgoes := r.goes
  generalize y.engine = z at hgoes
  induction hgoes with
  | refl => exact hn
  | tail _ st ih => exact st.numbered ih

/-- However calls, samples and ends of loops interleave, every subscription gets what its own moments
make alone, and moments of different subscriptions can change places. -/
theorem subscriptions_independent (sound : Sound s e) (run : Run s (.of s e cs) es y) :
    (∃ ms, Trail s e ms y.engine ∧ Alone s e ms y.engine) ∧ Exchanges s y.engine := by
  obtain ⟨ms, t⟩ := run.trail
  have htidy : y.engine.cache.Tidy := by
    rw [t.replayed.cache]
    exact Moment.tidy_replay ms sound.tidy
  exact ⟨⟨ms, t, t.replayed.alone⟩, fun apart p p' =>
    p.diamond (run.numbered fun _ _ hl => sound.numbered hl) htidy apart p'⟩

end Crew

/-! ## An example -/

namespace Small

def wide : Subscription := ⟨5, "/m:c", some .sample, some 2_000_000_000, some false, some 0⟩

def narrow : Subscription := ⟨6, "/m:c/x", some .sample, some 2_000_000_000, some false, some 0⟩

/-- A STREAM request that asks for the leaf twice. -/
def pairPayload : Json := .object [
  ("config", .object [("mode", .string "STREAM")]),
  ("subscriptions", .object [("subscription", .array [
    .object [("id", Json.nat 5),
      ("config", .object [("path", .string "/m:c"), ("mode", .string "SAMPLE")])],
    .object [("id", Json.nat 6),
      ("config", .object [("path", .string "/m:c/x"), ("mode", .string "SAMPLE")])]])])]

def pairCreation : Change :=
  .creation "/t:subscribe-requests/subscribe-request[id='1']" pairPayload

/-- The engine once that request was created. -/
def paired : Engine := after (.phase (.done 7)) (after (.phase (.change 7 [pairCreation])) engine)

theorem reachable_paired : System.Reachable setup ⟨paired, none⟩ :=
  reachable_after (reachable_after reachable _) _

/-- The engine when both loops are due. -/
def bothDue : Engine := { paired with now := 2_000_000_000 }

def planOf (sub : Subscription) : Sampling := .ofSubscription 1 sub setup.least

/-- A loop samples now. -/
def ticked (sub : Subscription) (e : Engine) : Engine :=
  e.sampled setup (planOf sub) (e.answer setup sub.path false)

/-- A shutdown takes its first turn, in which it tells the loops to end. -/
def stopping (e : Engine) : Engine := ((Call.stop.work setup).go setup false e).1

/-- The engine when both have sampled, and a shutdown has begun in between. -/
def bothTicked : Engine := ticked narrow (stopping (ticked wide bothDue))

def tickOf (sub : Subscription) (e : Engine) : Moment :=
  e.moment (.sample (planOf sub) (e.answer setup sub.path false))

theorem apart_ticks (e : Engine) : (tickOf wide e).Apart (tickOf narrow e) := by
  intro r sid
  by_cases h : sid = 5
  · right
    simp [Moment.own, tickOf, Engine.moment, Act.own, planOf, Sampling.ofSubscription, narrow, h]
  · left
    simp [Moment.own, tickOf, Engine.moment, Act.own, planOf, Sampling.ofSubscription, wide, Ne.symm h]

variable {e : Engine} {ref : Nat} {sub : Subscription}

/-- As long as a loop lives it can sample, and that is a moment. -/
theorem ticks_of_live (live : (e.loops.find? ref).map (·.plan) = some (planOf sub)) :
    (∃ ns, Stir setup e ns (ticked sub e)) ∧
      Engine.Passes setup e [tickOf sub e] (ticked sub e) := by
  obtain ⟨l, live, hplan⟩ := Option.map_eq_some_iff.1 live
  have stir := Stir.tick (s := setup) live false
  have passes := Engine.Passes.tick (s := setup) live false
  rw [hplan] at stir passes
  exact ⟨⟨_, stir⟩, passes⟩

end Small

/-- Two loops are due. Both sample, while a shutdown begins between them, and what each subscription
hears is what it hears alone. The other order of the two leads to the same cache and the same
events. -/
theorem Crew.small_subscriptions_independent : ∃ es y ms new y' z',
    Run Small.setup (.of Small.setup Small.paired [.poll 1, .stop]) es y ∧
    Engine.Trail Small.setup Small.paired ms y.engine ∧
    Engine.Alone Small.setup Small.paired ms y.engine ∧
    y.engine.datastore.sent = Small.paired.datastore.sent ++ new ∧
    (Notification.about 1 5 new).map (·.event) = [.update 1 5 "/m:c/x" "3"] ∧
    (Notification.about 1 6 new).map (·.event) = [.update 1 6 "/m:c/x" "3"] ∧
    Engine.Passes Small.setup (Small.ticked Small.wide Small.bothDue)
      [Small.tickOf Small.narrow Small.bothDue] y' ∧
    Engine.Passes Small.setup (Small.ticked Small.narrow Small.bothDue)
      [Small.tickOf Small.wide Small.bothDue] z' ∧
    y'.cache = z'.cache ∧ ∀ r sid, Notification.about r sid y'.datastore.sent =
      Notification.about r sid z'.datastore.sent := by
  have hwide : (Small.bothDue.loops.find? 0).map (·.plan) = some (Small.planOf Small.wide) := by
    decide +kernel
  have hnarrow : (Small.bothDue.loops.find? 1).map (·.plan) = some (Small.planOf Small.narrow) := by
    decide +kernel
  have hnext : ((Small.stopping (Small.ticked Small.wide Small.bothDue)).loops.find? 1).map (·.plan) =
      some (Small.planOf Small.narrow) := by decide +kernel
  have sound := Small.reachable_paired.good.sound
  have wait : Stir Small.setup Small.paired [] Small.bothDue := .wait _ (by decide +kernel)
  have run : Run Small.setup (.of Small.setup Small.paired [.poll 1, .stop]) _ ⟨Small.bothDue, _⟩ :=
    .step .refl (.stir wait)
  -- either may be first
  obtain ⟨-, exchanges⟩ := subscriptions_independent sound run
  obtain ⟨⟨_, first⟩, passes⟩ := Small.ticks_of_live hwide
  obtain ⟨-, passes'⟩ := Small.ticks_of_live hnarrow
  obtain ⟨y', z', hy', hz', hcache, htold⟩ := exchanges (Small.apart_ticks _) passes passes'
  -- one after the other
  have ready : (Call.stop.work Small.setup).Ready (Small.ticked Small.wide Small.bothDue) := by
    decide +kernel
  obtain ⟨⟨_, second⟩, -⟩ := Small.ticks_of_live hnext
  have both := ((run.step (.stir first)).step (.call (i := 1) rfl ready false)).step (.stir second)
  obtain ⟨⟨ms, trail, alone⟩, -⟩ := subscriptions_independent sound both
  have ⟨new, hsent, _⟩ := alone
  have hnew : new = Small.bothTicked.datastore.sent.drop Small.paired.datastore.sent.length := by
    rw [Small.bothTicked, hsent, List.drop_left]
  exact ⟨_, _, ms, new, y', z', both, trail, alone, hsent, by rw [hnew]; decide +kernel,
    by rw [hnew]; decide +kernel, hy', hz', hcache, htold⟩

end Telemetry
