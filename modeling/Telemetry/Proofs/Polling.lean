import Telemetry.Proofs.Visits

/-!
# Polls

The polls of a request and its stops go through the lock of the request one by one. An `Account`
tells, in the order in which they took the lock, what came of each, as if nothing else had been at
work; `Account.Serial` says what that can be.

Results:
* `Account.Serial.after_stopped`: what an account can say after a stop;
* `Serialized.step`, `Serialized.run`: one step of a pool, and so any number of them, keeps it true to
  some account;
* `Serialized.finish`: every call can be brought to its end;
* `polls_serialized`: the statement.
-/
namespace Telemetry

open Engine (Tried Unsampled)
open Work (Move Meets)

/-! ## Accounts -/

/-- What a poll reports: subscription by subscription an update for every leaf, in path order, and
then a deletion for every cached leaf that is gone, in path order; a SYNC_RESPONSE at the end. -/
def Engine.burstEvents (h : Handle) (cached : Nat → Bucket) (readings : List Snapshot.Reading) :
    List Event :=
  (readings.flatMap fun reading =>
    (reading.2.entries.map fun l => Event.ofLeaf h.id reading.1 l.1 l.2) ++
    (Sampling.vanished (cached reading.1).keys reading.2).map (Event.delete h.id reading.1)) ++
  [.sync h.id]

/-- What calls made of a request one after the other. -/
structure Account where
  /-- Who held the lock, and what came of it. -/
  visits : List (Nat × Upshot)
  events : List Event
  reads : List (String × Except Error Leaves)
  running : Bool
  buckets : Nat → Bucket

/-- One call after the other has the lock, from a running request with those cached leaves on. -/
inductive Account.Serial (h : Handle) (cached : Nat → Bucket) : Account → Prop where
  | opening : Serial h cached ⟨[], [], [], true, cached⟩
  | burst {a : Account} (i time : Nat) {readings : List Snapshot.Reading}
    {rs : List (String × Except Error Leaves)} {buckets : Nat → Bucket} (before : Serial h cached a)
    (running : a.running = true) (tried : Tried h.request.subscriptions rs (.ok readings))
    (filled : ∀ reading ∈ readings, buckets reading.1 = reading.2.map fun _ v => ⟨v, time⟩)
    (others : ∀ sid, sid ∉ readings.map (·.1) → buckets sid = a.buckets sid) :
    Serial h cached ⟨a.visits ++ [(i, .burst time readings)],
      a.events ++ Engine.burstEvents h a.buckets readings, a.reads ++ rs, true, buckets⟩
  | failed {a : Account} (i : Nat) {err : Error} {rs : List (String × Except Error Leaves)}
    (before : Serial h cached a) (running : a.running = true)
    (tried : Tried h.request.subscriptions rs (.error err)) :
    Serial h cached { a with visits := a.visits ++ [(i, .failed err)], reads := a.reads ++ rs }
  | refused {a : Account} (i : Nat) (before : Serial h cached a) (ended : a.running = false) :
    Serial h cached { a with visits := a.visits ++ [(i, .refused)] }
  | stopped {a : Account} (i : Nat) (before : Serial h cached a) :
    Serial h cached { a with
      visits := a.visits ++ [(i, .stopped)], running := false, buckets := fun _ => .empty }

namespace Account.Serial

variable {h : Handle} {cached : Nat → Bucket} {a : Account}

/-- A stopped request has no leaves. -/
theorem buckets_of_stopped (hs : a.Serial h cached) (ended : a.running = false) (sid : Nat) :
    a.buckets sid = .empty := by
  induction hs with
  | opening => cases ended
  | burst => cases ended
  | failed i _ running => rw [show _ = true from running] at ended; cases ended
  | refused i before ended' ih => exact ih ended'
  | stopped => rfl

theorem last_or_earlier {α : Type} {xs front back : List α} {x y : α}
    (h : xs ++ [x] = front ++ y :: back) :
    (x = y ∧ back = []) ∨ ∃ back', back = back' ++ [x] ∧ xs = front ++ y :: back' := by
  rcases List.eq_nil_or_concat back with rfl | ⟨back', z, rfl⟩
  · exact .inl ⟨(List.append_inj_right' h rfl |> List.singleton_inj.1), rfl⟩
  · rw [List.concat_eq_append] at h ⊢
    rw [← List.cons_append, ← List.append_assoc] at h
    obtain ⟨hxs, hx⟩ := List.append_inj' h rfl
    exact .inr ⟨back', by rw [List.singleton_inj.1 hx], hxs⟩

/-- Whoever has the lock after a stop finds the request stopped. -/
theorem after_stopped (hs : a.Serial h cached) {front back : List (Nat × Upshot)} {i : Nat}
    (hv : a.visits = front ++ (i, .stopped) :: back) :
    a.running = false ∧ ∀ v ∈ back, v.2 = .refused ∨ v.2 = .stopped := by
  -- what came before the last visit came before the last visit
  induction hs generalizing back with
  | opening => simp at hv
  | burst _ _ _ running _ _ _ ih =>
    rcases last_or_earlier hv with ⟨heq, -⟩ | ⟨back', -, hv'⟩
    · cases heq
    · rw [(ih hv').1] at running
      cases running
  | failed _ _ running _ ih =>
    rcases last_or_earlier hv with ⟨heq, -⟩ | ⟨back', -, hv'⟩
    · cases heq
    · rw [(ih hv').1] at running
      cases running
  | refused _ _ _ ih =>
    rcases last_or_earlier hv with ⟨heq, -⟩ | ⟨back', rfl, hv'⟩
    · cases heq
    · obtain ⟨hended, hback⟩ := ih hv'
      refine ⟨hended, fun v hv => ?_⟩
      rcases List.mem_append.1 hv with hv | hv
      · exact hback v hv
      · rw [List.mem_singleton.1 hv]
        exact .inl rfl
  | stopped _ _ ih =>
    refine ⟨rfl, fun v hv₁ => ?_⟩
    rcases last_or_earlier hv with ⟨-, rfl⟩ | ⟨back', rfl, hv'⟩
    · cases hv₁
    · rcases List.mem_append.1 hv₁ with hv₁ | hv₁
      · exact (ih hv').2 v hv₁
      · rw [List.mem_singleton.1 hv₁]
        exact .inr rfl

end Account.Serial

/-! ## What was sent -/

namespace Engine

variable {s : Setup} {h : Handle} {e e' : Engine}

/-- What was sent about a request. -/
def told (h : Handle) (e : Engine) : List Event :=
  (e.datastore.sent.map (·.event)).filter (·.request = h.id)

theorem told_append {new : List (Notification Event)}
    (hs : e'.datastore.sent = e.datastore.sent ++ new) :
    e'.told h = e.told h ++ (new.map (·.event)).filter (·.request = h.id) := by
  simp [told, hs]

theorem told_of_silent {new : List (Notification Event)}
    (hs : e'.datastore.sent = e.datastore.sent ++ new) (hn : ∀ n ∈ new, n.event.request ≠ h.id) :
    e'.told h = e.told h := by
  have hnone : (new.map (·.event)).filter (·.request = h.id) = [] := by
    rw [List.filter_eq_nil_iff]
    intro ev hev
    obtain ⟨n, hn', rfl⟩ := List.mem_map.1 hev
    simpa using hn n hn'
  rw [told_append hs, hnone, List.append_nil]

theorem request_burstEvents {cached : Nat → Bucket} {readings : List Snapshot.Reading} {ev : Event}
    (hm : ev ∈ burstEvents h cached readings) : ev.request = h.id := by
  rcases List.mem_append.1 hm with hm | hm
  · obtain ⟨reading, -, hm⟩ := List.mem_flatMap.1 hm
    rcases List.mem_append.1 hm with hm | hm
    · obtain ⟨l, -, rfl⟩ := List.mem_map.1 hm
      rfl
    · obtain ⟨path, -, rfl⟩ := List.mem_map.1 hm
      rfl
  · rw [List.mem_singleton.1 hm]
    rfl

theorem snapshotEvents_eq_burstEvents {readings : List Snapshot.Reading}
    (hn : (readings.map (·.1)).Nodup) (e : Engine) :
    snapshotEvents ⟨true, true⟩ h readings e = burstEvents h (e.cache.bucket h.id) readings := by
  unfold snapshotEvents burstEvents
  rw [Snapshot.events_takeAll _ _ _ readings _ hn]
  rfl

end Engine

/-! ## Accounts of an engine -/

open Engine

variable {s : Setup} {h : Handle} {e₀ e e' : Engine}

/-- An account is true to an engine that the calls came to from `e₀`. -/
structure Account.Matches (s : Setup) (h : Handle) (e₀ : Engine) (ns : List Note) (e : Engine)
    (a : Account) : Prop where
  serial : a.Serial h (e₀.cache.bucket h.id)
  status : e.status h = if a.running then .running else .stopped
  buckets : e.cache.bucket h.id = a.buckets
  unsampled : Unsampled h e
  told : ∃ arrived, arrived.Sublist a.events ∧ e.told h = e₀.told h ++ arrived ∧
    ((∀ x y, .wrote x y ∈ ns → x.datastore.Delivers) → arrived = a.events)

namespace Account.Matches

variable {a : Account} {ns ns' : List Note}

/-- What happens without the calls leaves their account true. -/
theorem stir (ha : a.Matches s h e₀ ns e) (hst : Stir s e ns' e') :
    a.Matches s h e₀ (ns ++ ns') e' := by
  obtain ⟨hunsampled, hbuckets, new, hsent, hnew⟩ := ha.unsampled.stir hst
  obtain ⟨arrived, hsub, htold, hall⟩ := ha.told
  refine ⟨ha.serial, ?_, hbuckets.trans ha.buckets, hunsampled, arrived, hsub, ?_, fun hd => ?_⟩
  · rw [Engine.status, life_of_core (congrArg Core.lives hst.core)]
    exact ha.status
  · rw [told_of_silent hsent hnew, htold]
  · exact hall fun x y hm => hd x y (List.mem_append_left _ hm)

/-- So do steps that change nothing the account tells of. -/
theorem same (ha : a.Matches s h e₀ ns e) (hlives : e'.lives = e.lives)
    (hcache : e'.cache = e.cache) (hloops : e'.loops = e.loops)
    (hdata : e'.datastore = e.datastore) : a.Matches s h e₀ (ns ++ ns') e' := by
  obtain ⟨arrived, hsub, htold, hall⟩ := ha.told
  refine ⟨ha.serial, ?_, ?_, ?_, arrived, hsub, ?_, fun hd => ?_⟩
  · rw [Engine.status, Engine.life, hlives]
    exact ha.status
  · rw [hcache]
    exact ha.buckets
  · unfold Unsampled
    rw [hloops]
    exact ha.unsampled
  · rw [Engine.told, hdata]
    exact htold
  · exact hall fun x y hm => hd x y (List.mem_append_left _ hm)

/-- What comes of a call goes down in the account. -/
theorem settle (ha : a.Matches s h e₀ ns e) (hw : h.request.WellMade) (i : Nat)
    {rs : List (String × Except Error Leaves)} {o : Upshot}
    (st : Settles s h a.running rs e ns' o e') : ∃ a' : Account, a'.Matches s h e₀ (ns ++ ns') e' ∧
      a'.visits = a.visits ++ [(i, o)] ∧ a'.reads = a.reads ++ (rs ++ Note.reads ns') := by
  have hdelivers {x y : Engine} (hd : ∀ x' y', .wrote x' y' ∈ ns ++ [.wrote x y] →
      x'.datastore.Delivers) : x.datastore.Delivers := hd x y (by simp)
  have hbefore {ns' : List Note} (hd : ∀ x y, .wrote x y ∈ ns ++ ns' → x.datastore.Delivers) :
      ∀ x y, .wrote x y ∈ ns → x.datastore.Delivers :=
    fun x y hm => hd x y (List.mem_append_left _ hm)
  obtain ⟨arrived, hsub, htold, hall⟩ := ha.told
  cases st with
  | @burst readings run tried =>
    have hread : ReadFor h readings := tried.of_ok.1
    have hn : (readings.map (·.1)).Nodup := hread ▸ hw.distinct
    have hdata : (burst s h readings e).datastore =
        e.datastore.sendAll e.now s.topic (burstEvents h a.buckets readings) := by
      rw [burst_eq, ← ha.buckets, ← snapshotEvents_eq_burstEvents hn]
    have hfilter {evs : List Event} (hevs : ∀ ev ∈ evs, ev.request = h.id) :
        (((evs.map fun ev => (⟨e.now, s.topic, ev⟩ : Notification Event)).map (·.event)).filter
          (·.request = h.id)) = evs := by
      rw [Datastore.map_event]
      exact List.filter_eq_self.2 fun ev hev => decide_eq_true (hevs ev hev)
    refine ⟨⟨a.visits ++ [(i, .burst e.now readings)], _, _, true,
      (burst s h readings e).cache.bucket h.id⟩,
      ⟨.burst i e.now ha.serial run tried (fun reading hm => ?_) (fun sid hno => ?_), ?_, rfl, ?_, ?_⟩,
      rfl, by simp⟩
    · rw [burst_eq]
      exact Snapshot.bucket_takeAll_self _ _ _ readings _ hn hm (.inl rfl)
    · rw [burst_eq, ← ha.buckets]
      exact Snapshot.bucket_takeAll_of_notMem _ _ _ readings _ fun hc => hno hc.2
    · rw [burst_eq]
      exact ha.status.trans (by rw [run])
    · rw [burst_eq]
      exact ha.unsampled
    · obtain ⟨arrived', hsub', hall', hsent⟩ :=
        Datastore.sendAll_arrived e.now s.topic (burstEvents h a.buckets readings) e.datastore
      rw [← hdata] at hsent
      have htold' := told_append (h := h) hsent
      rw [hfilter fun ev hm => request_burstEvents (hsub'.subset hm)] at htold'
      refine ⟨arrived ++ arrived', hsub.append hsub', ?_, fun hd => ?_⟩
      · rw [htold', htold, List.append_assoc]
      · rw [hall (hbefore hd), hall' (hdelivers hd)]
  | @failed path err run tried =>
    refine ⟨_, ⟨.failed i ha.serial run tried, ha.status, ha.buckets, ha.unsampled, arrived, hsub,
      htold, fun hd => hall (hbefore hd)⟩, rfl, rfl⟩
  | refused ended unread =>
    subst unread
    refine ⟨_, ⟨.refused i ha.serial ended, ha.status, ha.buckets, ha.unsampled, arrived, hsub,
      htold, fun hd => hall (hbefore hd)⟩, rfl, by simp⟩
  | stopped unread =>
    subst unread
    refine ⟨_, ⟨.stopped i ha.serial, ?_, ?_, ha.unsampled, arrived, hsub, htold,
      fun hd => hall (hbefore hd)⟩, rfl, by simp⟩
    · rw [Engine.status, life_halted]
      rfl
    · funext sid
      exact (Cache.bucket_removeRequest ..).trans (if_pos rfl)

end Account.Matches

/-! ## Who has the lock -/

/-- A call that does not have the lock: nothing has come of it yet, or it was answered. -/
inductive Outside (s : Setup) (h : Handle) (asked : List Visit) (a : Account) (i : Nat) :
    Work (Except Error Unit) → Prop where
  | waiting {v : Visit} (call : asked[i]? = some v) (new : i ∉ a.visits.map (·.1)) :
    Outside s h asked a i (v.work s h)
  | answered {o : Upshot} (visited : (i, o) ∈ a.visits) : Outside s h asked a i (.done (o.answer h))

/-- Who has the lock, and how far the account has come. -/
inductive Holding (s : Setup) (h : Handle) (asked : List Visit) (a : Account) (x : Pool) :
    List Nat → List (String × Except Error Leaves) → Prop where
  | nobody (free : .poll h.key ∉ x.engine.held)
    (outside : ∀ j w, x.calls[j]? = some w → Outside s h asked a j w) :
    Holding s h asked a x (a.visits.map (·.1)) a.reads
  /-- Nothing has come of the call that has it. -/
  | busy {i : Nat} {v : Visit} {rs : List (String × Except Error Leaves)}
    {w : Work (Except Error Unit)} {rest : List Lock} (held : x.engine.held = .poll h.key :: rest)
    (free : .poll h.key ∉ rest) (call : asked[i]? = some v) (new : i ∉ a.visits.map (·.1))
    (work : x.calls[i]? = some w) (stage : Stage s h a.running v rs w)
    (outside : ∀ j w, j ≠ i → x.calls[j]? = some w → Outside s h asked a j w) :
    Holding s h asked a x (a.visits.map (·.1) ++ [i]) (a.reads ++ rs)
  | leaving {i : Nat} {o : Upshot} {rest : List Lock} (held : x.engine.held = .poll h.key :: rest)
    (free : .poll h.key ∉ rest) (visited : (i, o) ∈ a.visits)
    (work : x.calls[i]? = some (leave h (o.answer h)))
    (outside : ∀ j w, j ≠ i → x.calls[j]? = some w → Outside s h asked a j w) :
    Holding s h asked a x (a.visits.map (·.1)) a.reads

/-- A pool is true to an account. -/
structure Serialized (s : Setup) (h : Handle) (e₀ : Engine) (asked : List Visit)
    (taken : List Nat) (ns : List Note) (x : Pool) (a : Account) : Prop where
  matched : a.Matches s h e₀ ns x.engine
  once : (a.visits.map (·.1)).Nodup
  calls : ∀ v ∈ a.visits, asked[v.1]? = some v.2.visit
  holding : Holding s h asked a x taken (Note.reads ns)

variable {asked : List Visit} {a : Account} {i j : Nat} {w w' : Work (Except Error Unit)}

theorem Outside.waiting_of_lock {l : Lock} {k : Work (Except Error Unit)} (hm : h.request.mode = .poll)
    (ho : Outside s h asked a i (.lock l k)) : l = .poll h.key ∧ i ∉ a.visits.map (·.1) ∧
      ∃ v, asked[i]? = some v ∧ ∀ running, Stage s h running v [] k := by
  generalize hw : Work.lock l k = w at ho
  cases ho with
  | answered => cases hw
  | @waiting v call new =>
    obtain ⟨k', hk', hstage⟩ := work_locks (s := s) hm v
    rw [hk'] at hw
    cases hw
    exact ⟨rfl, new, v, call, hstage⟩

/-- A call without the lock can only take it. -/
theorem Outside.not_move (hm : h.request.mode = .poll) (ho : Outside s h asked a i w)
    (unlocked : w.locks = false) {ns : List Note} (m : Move s w e ns w' e') : False := by
  cases ho with
  | waiting =>
    obtain ⟨k, hk, -⟩ := work_locks (s := s) hm ‹Visit›
    rw [hk] at unlocked
    cases unlocked
  | answered =>
    cases m with
    | stir waiting => cases waiting

theorem Outside.mono {o : Upshot} {a' : Account} (ho : Outside s h asked a j w)
    (hv : a'.visits = a.visits ++ [(i, o)]) (hne : j ≠ i) : Outside s h asked a' j w := by
  cases ho with
  | waiting call new => exact .waiting call (by simpa [hv, hne] using new)
  | answered visited => exact .answered (by simp [hv, visited])

namespace Serialized

variable {taken : List Nat} {ns ns' : List Note} {ws : List (Work (Except Error Unit))}

/-- The calls that did not move are where they were. -/
theorem outside_set {a' : Account}
    (outside : ∀ j w, j ≠ i → ws[j]? = some w → Outside s h asked a' j w) :
    ∀ j w, j ≠ i → (ws.set i w')[j]? = some w → Outside s h asked a' j w := by
  intro j w hne hw
  rw [List.getElem?_set_ne (Ne.symm hne)] at hw
  exact outside j w hne hw

theorem set_call (call : ws[i]? = some w) : (ws.set i w')[i]? = some w' :=
  List.getElem?_set_self (List.getElem?_eq_some_iff.1 call).1

/-- A call that takes the lock was waiting for it, and nobody had it. -/
theorem take (hm : h.request.mode = .poll) (hx : Serialized s h e₀ asked taken ns ⟨e, ws⟩ a)
    {l : Lock} {k : Work (Except Error Unit)} (call : ws[i]? = some (.lock l k))
    (free : l ∉ e.held) : Serialized s h e₀ asked (taken ++ [i]) ns ⟨e.hold l, ws.set i k⟩ a := by
  obtain ⟨matched, once, calls, holding⟩ := hx
  refine ⟨?_, once, calls, ?_⟩
  · have hsame : a.Matches s h e₀ (ns ++ []) (e.hold l) := matched.same rfl rfl rfl rfl
    rwa [List.append_nil] at hsame
  -- if somebody else had the lock it would not be free
  have held_not_free {rest : List Lock} (hl : l = .poll h.key)
      (hheld : e.held = .poll h.key :: rest) : False := by
    apply free
    rw [hheld, hl]
    exact List.mem_cons_self
  generalize hreads : Note.reads ns = reads at holding ⊢
  cases holding with
  | nobody hfree outside =>
    obtain ⟨rfl, new, v, hv, hstage⟩ := (outside i _ call).waiting_of_lock hm
    have hbusy := Holding.busy (x := ⟨e.hold (.poll h.key), ws.set i k⟩) rfl hfree hv new
      (set_call call) (hstage a.running) (outside_set fun j w _ hw => outside j w hw)
    rwa [List.append_nil] at hbusy
  | @busy i₀ _ _ _ _ held _ _ _ work stage outside =>
    by_cases hi : i = i₀
    · subst hi
      have hlocks := stage.locks
      rw [Option.some.inj (work.symm.trans call)] at hlocks
      cases hlocks
    · exact (held_not_free ((outside i _ hi call).waiting_of_lock hm).1 held).elim
  | @leaving i₀ _ _ held _ _ work outside =>
    by_cases hi : i = i₀
    · subst hi
      cases work.symm.trans call
    · exact (held_not_free ((outside i _ hi call).waiting_of_lock hm).1 held).elim

/-- What happens without the calls leaves everyone where he was. -/
theorem stir (hx : Serialized s h e₀ asked taken ns ⟨e, ws⟩ a) (hst : Stir s e ns' e') :
    Serialized s h e₀ asked taken (ns ++ ns') ⟨e', ws⟩ a := by
  obtain ⟨matched, once, calls, holding⟩ := hx
  have hheld : e'.held = e.held := congrArg Core.held hst.core
  have hreads : Note.reads (ns ++ ns') = Note.reads ns := by
    rw [Note.reads_append, (Stirs.single hst).reads, List.append_nil]
  refine ⟨matched.stir hst, once, calls, ?_⟩
  rw [hreads]
  generalize Note.reads ns = reads at holding ⊢
  cases holding with
  | nobody free outside => exact .nobody (hheld ▸ free) outside
  | busy held free call new work stage outside =>
    exact .busy (hheld.trans held) free call new work stage outside
  | leaving held free visited work outside =>
    exact .leaving (hheld.trans held) free visited work outside

/-- A call that something comes of has not been in the account before. -/
theorem once_concat (once : (a.visits.map (·.1)).Nodup) (new : i ∉ a.visits.map (·.1)) :
    (a.visits.map (·.1) ++ [i]).Nodup := by
  rw [List.nodup_append]
  refine ⟨once, by simp, fun j hj k hk hjk => ?_⟩
  obtain rfl := List.mem_singleton.1 hk
  exact new (hjk ▸ hj)

/-- A move of a call is one of the lock holder. -/
theorem move (hw : h.request.WellMade) (hm : h.request.mode = .poll)
    (hx : Serialized s h e₀ asked taken ns ⟨e, ws⟩ a) (call : ws[i]? = some w)
    (unlocked : w.locks = false) (m : Move s w e ns' w' e') :
    ∃ a', Serialized s h e₀ asked taken (ns ++ ns') ⟨e', ws.set i w'⟩ a' := by
  have hx' := hx
  obtain ⟨matched, once, calls, holding⟩ := hx
  generalize hreads : Note.reads ns = reads at holding
  cases holding with
  | nobody free outside => exact ((outside i w call).not_move hm unlocked m).elim
  | @busy i₀ v rs w₀ rest held free asks new work stage outside =>
    by_cases hi : i = i₀
    · subst hi
      obtain rfl := Option.some.inj (work.symm.trans call)
      rcases stage.settles matched.status m with ⟨rfl, hst⟩ | ⟨rfl, hstage⟩ |
        ⟨o, hsettles, hv, rfl⟩
      · obtain ⟨hlt, hget⟩ := List.getElem?_eq_some_iff.1 call
        refine ⟨a, ?_⟩
        rw [← hget, List.set_getElem_self]
        exact hx'.stir hst
      · refine ⟨a, matched.same rfl rfl rfl rfl, once, calls, ?_⟩
        rw [Note.reads_append, hreads, List.append_assoc]
        exact .busy held free asks new (set_call call) hstage (outside_set outside)
      · obtain ⟨a', hmatched, hvisits, hreads'⟩ := matched.settle hw i hsettles
        have htaken : a.visits.map (·.1) ++ [i] = a'.visits.map (·.1) := by
          rw [hvisits, List.map_append]
          rfl
        refine ⟨a', hmatched, htaken ▸ once_concat once new, ?_, ?_⟩
        · intro v' hv'
          rw [hvisits] at hv'
          rcases List.mem_append.1 hv' with hv' | hv'
          · exact calls v' hv'
          · rw [List.mem_singleton.1 hv', hv]
            exact asks
        · rw [Note.reads_append, hreads, List.append_assoc, ← hreads', htaken]
          have hout (j : Nat) (w : Work (Except Error Unit)) (hne : j ≠ i)
              (hj : ws[j]? = some w) : Outside s h asked a' j w :=
            (outside j w hne hj).mono hvisits hne
          exact .leaving (hsettles.held.trans held) free (hvisits ▸ List.mem_append_right _ (.head _))
            (set_call call) (outside_set hout)
    · exact ((outside i w hi call).not_move hm unlocked m).elim
  | @leaving i₀ o rest held free visited work outside =>
    by_cases hi : i = i₀
    · subst hi
      obtain rfl := Option.some.inj (work.symm.trans call)
      cases m with
      | stir waiting => cases waiting
      | update =>
        refine ⟨a, matched.same rfl rfl rfl rfl, once, calls, ?_⟩
        have hheld : (e.free (.poll h.key)).held = rest := by
          change e.held.erase (.poll h.key) = rest
          have hheld' : e.held = .poll h.key :: rest := held
          rw [hheld', List.erase_cons_head]
        rw [Note.reads_append, hreads, show Note.reads [.wrote e (e.free (.poll h.key))] = [] from rfl,
          List.append_nil]
        refine .nobody (hheld ▸ free) fun j w hj => ?_
        by_cases hji : j = i
        · subst hji
          obtain rfl := Option.some.inj ((set_call call).symm.trans hj)
          exact .answered visited
        · rw [List.getElem?_set_ne (Ne.symm hji)] at hj
          exact outside j w hji hj
    · exact ((outside i w hi call).not_move hm unlocked m).elim

/-- One step of a pool keeps it true to some account. -/
theorem step (hw : h.request.WellMade) (hm : h.request.mode = .poll) {x y : Pool}
    {taken' : List Nat} (hx : Serialized s h e₀ asked taken ns x a)
    (st : Pool.Step s x taken' ns' y) :
    ∃ a', Serialized s h e₀ asked (taken ++ taken') (ns ++ ns') y a' := by
  cases st with
  | take call free =>
    rw [List.append_nil]
    exact ⟨a, hx.take hm call free⟩
  | move call unlocked m =>
    rw [List.append_nil]
    exact hx.move hw hm call unlocked m
  | stir hst =>
    rw [List.append_nil]
    exact ⟨a, hx.stir hst⟩

end Serialized

/-- A running request that can be polled, and that nobody polls. -/
structure Pollable (h : Handle) (e : Engine) : Prop where
  mode : h.request.mode = .poll
  running : e.status h = .running
  unsampled : Unsampled h e
  free : .poll h.key ∉ e.held

/-- Between calls, every running POLL request is one. -/
theorem Engine.Rest.pollable (hr : Rest s e) (hreg : e.Registered h) (mode : h.request.mode = .poll)
    (running : e.status h = .running) : Pollable h e := by
  refine ⟨mode, running, hr.sound.unsampled hreg (.inr ?_), ?_⟩
  · rw [mode]
    decide
  · rw [hr.free]
    exact List.not_mem_nil

theorem Serialized.opening (hp : Pollable h e) (asked : List Visit) :
    Serialized s h e asked [] [] ⟨e, asked.map (·.work s h)⟩
      ⟨[], [], [], true, e.cache.bucket h.id⟩ := by
  have htold : ∃ arrived : List Event, arrived.Sublist [] ∧ e.told h = e.told h ++ arrived ∧
      ((∀ x y, .wrote x y ∈ ([] : List Note) → x.datastore.Delivers) → arrived = []) :=
    ⟨[], .refl _, by simp, fun _ => rfl⟩
  refine ⟨⟨.opening, hp.running, rfl, hp.unsampled, htold⟩, .nil, by simp, ?_⟩
  refine .nobody hp.free fun j w hj => ?_
  obtain ⟨v, hv, rfl⟩ := by simpa using hj
  exact .waiting hv (by simp)

/-- So does a run. -/
theorem Serialized.run (hw : h.request.WellMade) (hp : Pollable h e) {asked : List Visit}
    {taken : List Nat} {ns : List Note} {x : Pool}
    (r : Pool.Run s ⟨e, asked.map (·.work s h)⟩ taken ns x) :
    ∃ a, Serialized s h e asked taken ns x a := by
  induction r with
  | here => exact ⟨_, .opening hp asked⟩
  | step _ st ih =>
    obtain ⟨a, hx⟩ := ih
    exact hx.step hw hp.mode st

namespace Serialized

variable {taken : List Nat} {ns : List Note} {x : Pool}

theorem waits_or_done (ho : Outside s h asked a i w) :
    (∃ r, w = .done r) ∨ ∃ v : Visit, w = v.work s h := by
  cases ho with
  | waiting => exact .inr ⟨_, rfl⟩
  | answered => exact .inl ⟨_, rfl⟩

/-- All calls of a pool can be brought to their ends. -/
theorem finish (hm : h.request.mode = .poll) (hx : Serialized s h e₀ asked taken ns x a) :
    ∃ taken' ns' y, Pool.Run s x taken' ns' y ∧ y.Finished := by
  obtain ⟨e, ws⟩ := x
  have hheld := hx.holding
  -- the lock holder is first
  have after {i : Nat} {w : Work (Except Error Unit)} (work : ws[i]? = some w)
      (outside : ∀ j w, j ≠ i → ws[j]? = some w → Outside s h asked a j w)
      (hmeets : w.Meets s (fun _ _ => True) (fun _ _ e' => .poll h.key ∉ e'.held) e) :
      ∃ taken' ns' y, Pool.Run s ⟨e, ws⟩ taken' ns' y ∧ y.Finished := by
    obtain ⟨taken₁, ns₁, r, e₁, hrun₁, _, hfree₁⟩ := Pool.run_of_meets work hmeets
    have hwait : ∀ w ∈ ws.set i (.done r), (∃ r, w = .done r) ∨ ∃ v : Visit, w = v.work s h := by
      intro w hw
      obtain ⟨j, hj⟩ := List.getElem?_of_mem hw
      by_cases hji : j = i
      · subst hji
        rw [set_call work] at hj
        exact .inl ⟨r, (Option.some.inj hj).symm⟩
      · exact waits_or_done (outside_set outside j w hji hj)
    obtain ⟨taken₂, ns₂, y, hrun₂, hy⟩ :=
      Pool.finish_waiting hm (ws.set i (.done r)) [] hfree₁ (by simp) hwait
    exact ⟨_, _, y, hrun₁.trans hrun₂, hy⟩
  generalize Note.reads ns = reads at hheld
  cases hheld with
  | nobody free outside =>
    refine Pool.finish_waiting hm ws [] free (by simp) fun w hw => ?_
    obtain ⟨j, hj⟩ := List.getElem?_of_mem hw
    exact waits_or_done (outside j w hj)
  | busy held free _ _ work stage outside => exact after work outside (stage.meets held free)
  | leaving held free _ work outside => exact after work outside (leave_meets held free _)

end Serialized

/-! ## What an account explains -/

/-- An account explains what became of the calls in a pool that set out from `e₀`. -/
structure Account.Explains (s : Setup) (h : Handle) (e₀ : Engine) (asked : List Visit)
    (taken : List Nat) (ns : List Note) (x : Pool) (a : Account) : Prop where
  serial : a.Serial h (e₀.cache.bucket h.id)
  calls : ∀ v ∈ a.visits, asked[v.1]? = some v.2.visit
  /-- Every call takes the lock once. -/
  once : taken.Nodup
  /-- The order is that in which they took it. Nothing may have come yet of the last one, which has
  the lock then. -/
  order : ∃ inside reads, taken = a.visits.map (·.1) ++ inside ∧ Note.reads ns = a.reads ++ reads ∧
    inside.length ≤ 1 ∧ (inside = [] → reads = [])
  answered : ∀ {i r}, x.calls[i]? = some (.done r) → ∃ o, (i, o) ∈ a.visits ∧ r = o.answer h
  /-- What was sent about the request is what the account says, without what was lost. -/
  told : ∃ arrived, arrived.Sublist a.events ∧ x.engine.told h = e₀.told h ++ arrived ∧
    ((∀ x y, .wrote x y ∈ ns → x.datastore.Delivers) → arrived = a.events)
  buckets : x.engine.cache.bucket h.id = a.buckets
  status : x.engine.status h = if a.running then .running else .stopped

namespace Serialized

variable {taken : List Nat} {ns : List Note} {x : Pool}

theorem answer_of_outside {r : Except Error Unit} (hm : h.request.mode = .poll)
    (ho : Outside s h asked a i (.done r)) : ∃ o, (i, o) ∈ a.visits ∧ r = o.answer h := by
  generalize hw : Work.done r = w at ho
  cases ho with
  | @waiting v =>
    obtain ⟨k, hk, -⟩ := work_locks (s := s) hm v
    rw [hk] at hw
    cases hw
  | @answered o visited =>
    cases hw
    exact ⟨o, visited, rfl⟩

theorem explains (hm : h.request.mode = .poll) (hx : Serialized s h e₀ asked taken ns x a) :
    a.Explains s h e₀ asked taken ns x := by
  obtain ⟨matched, once, calls, holding⟩ := hx
  generalize hreads : Note.reads ns = reads at holding
  have hall : taken.Nodup ∧ (∃ inside now, taken = a.visits.map (·.1) ++ inside ∧
      reads = a.reads ++ now ∧ inside.length ≤ 1 ∧ (inside = [] → now = [])) ∧
      ∀ {i r}, x.calls[i]? = some (.done r) → ∃ o, (i, o) ∈ a.visits ∧ r = o.answer h := by
    cases holding with
    | nobody free outside =>
      refine ⟨once, ⟨[], [], by simp, by simp, by simp, fun _ => rfl⟩, fun {i r} hi => ?_⟩
      exact answer_of_outside hm (outside i _ hi)
    | @busy i₀ v rs w rest held free asks new work stage outside =>
      refine ⟨once_concat once new, ⟨[i₀], rs, rfl, rfl, by simp, fun hc => by cases hc⟩,
        fun {i r} hi => ?_⟩
      by_cases hii : i = i₀
      · subst hii
        rw [Option.some.inj (work.symm.trans hi)] at stage
        exact stage.ne_done.elim
      · exact answer_of_outside hm (outside i _ hii hi)
    | @leaving i₀ o rest held free visited work outside =>
      refine ⟨once, ⟨[], [], by simp, by simp, by simp, fun _ => rfl⟩, fun {i r} hi => ?_⟩
      by_cases hii : i = i₀
      · subst hii
        cases work.symm.trans hi
      · exact answer_of_outside hm (outside i _ hii hi)
  exact ⟨matched.serial, calls, hall.1, hreads ▸ hall.2.1, hall.2.2, matched.told, matched.buckets,
    matched.status⟩

end Serialized

/-- Once a call has stopped the request nothing is cached, and whoever takes the lock after it finds
the request stopped: a poll is unsupported. -/
theorem Account.Explains.after_stop {taken : List Nat} {ns : List Note} {x : Pool}
    (hx : a.Explains s h e₀ asked taken ns x) {front back : List (Nat × Upshot)}
    (hv : a.visits = front ++ (i, .stopped) :: back) :
    (∀ sid, x.engine.cache.bucket h.id sid = .empty) ∧ ∀ v ∈ back, v.2 = .stopped ∨
      v.2 = .refused ∧ ∃ err, v.2.answer h = .error err ∧ err.kind = .unsupported := by
  obtain ⟨hended, hback⟩ := hx.serial.after_stopped hv
  refine ⟨fun sid => ?_, fun v hm => ?_⟩
  · rw [hx.buckets]
    exact hx.serial.buckets_of_stopped hended sid
  · rcases hback v hm with hv | hv
    · rw [hv]
      exact .inr ⟨rfl, _, rfl, rfl⟩
    · exact .inl hv

/-- However the steps of polls and stops of a request mix: what comes of them is what would come of
them one after the other, a poll whole or not at all, and each can be brought to its end. -/
theorem polls_serialized (hw : h.request.WellMade) (hp : Pollable h e) {taken : List Nat}
    {ns : List Note} {x : Pool} (r : Pool.Run s ⟨e, asked.map (·.work s h)⟩ taken ns x) :
    (∃ a : Account, a.Explains s h e asked taken ns x ∧
      ∀ front i back, a.visits = front ++ (i, .stopped) :: back →
        (∀ sid, x.engine.cache.bucket h.id sid = .empty) ∧ ∀ v ∈ back, v.2 = .stopped ∨
          v.2 = .refused ∧ ∃ err, v.2.answer h = .error err ∧ err.kind = .unsupported) ∧
      ∃ taken' ns' y, Pool.Run s x taken' ns' y ∧ y.Finished := by
  obtain ⟨a, ha⟩ := Serialized.run hw hp r
  have hexplains := ha.explains hp.mode
  exact ⟨⟨a, hexplains, fun _ _ _ hv => hexplains.after_stop hv⟩, ha.finish hp.mode⟩

namespace Small

/-- A POLL request for all there is. -/
def polled : Handle := ⟨0, ⟨1, .poll, false, [⟨5, "/m:c", none, none, none, none⟩]⟩⟩

/-- The engine while it runs. -/
def polling : Engine := ((start setup polled).run setup engine).1

theorem pollable : Pollable polled polling where
  mode := rfl
  running := by decide +kernel
  unsampled := fun ref l live => by
    have hloops : polling.loops = .empty := by decide +kernel
    rw [hloops] at live
    cases live
  free := by decide +kernel

/-- Two polls and a stop of it come to their ends, and an account explains what became of them. -/
theorem small_polls_serialized : ∃ taken ns y,
    Pool.Run setup ⟨polling, [Visit.poll, .stop, .poll].map (·.work setup polled)⟩ taken ns y ∧
      y.Finished ∧
      ∃ a : Account, a.Explains setup polled polling [.poll, .stop, .poll] taken ns y := by
  have hw : polled.request.WellMade := ⟨by decide, by decide⟩
  have start : Pool.Run setup ⟨polling, [Visit.poll, .stop, .poll].map (·.work setup polled)⟩ [] []
      ⟨polling, [Visit.poll, .stop, .poll].map (·.work setup polled)⟩ := .here
  obtain ⟨-, taken, ns, y, r, hfinished⟩ := polls_serialized hw pollable start
  obtain ⟨⟨a, ha, -⟩, -⟩ := polls_serialized hw pollable r
  exact ⟨taken, ns, y, r, hfinished, a, ha⟩

end Small

end Telemetry
