import Telemetry.Proofs.System

/-!
# Starts

A start reads every subscription of a request before it does anything. What it does then is one
change: the leaves that were read are cached and reported, a SYNC_RESPONSE follows, and the request
runs. If a read fails there is no change at all. This holds of every start of a request for which
nothing is kept, the first one and the one after a stop, and whatever else happens between the
reads.

Results:
* `Unsampled.stir`: what happens without a call leaves a request without loops alone;
* `Sound.dormant`: nothing is kept for a registered request that does not run;
* `Dormant.aside`: what happened without a call left such a request as it was;
* `Dormant.opened`: what the one change does;
* `start_snapshot_or_nothing`: what a start comes to, and that it comes to something.
-/
namespace Telemetry.Engine

open Work (Meets Course)

/-- No loop samples for a request. -/
def Unsampled (h : Handle) (e : Engine) : Prop :=
  ∀ ref l, e.loops.find? ref = some l → l.plan.request ≠ h.id

/-- Nothing is kept for a request, and no loop samples for it. -/
structure Dormant (h : Handle) (e : Engine) : Prop where
  status : e.status h ≠ .running
  buckets : ∀ sid, e.cache.bucket h.id sid = .empty
  unsampled : Unsampled h e

/-- What a start reports: an update for every leaf, subscription by subscription and in path order,
unless the request wants later changes only, and then a SYNC_RESPONSE. -/
def opening (h : Handle) (readings : List Snapshot.Reading) : List Event :=
  (if h.request.updatesOnly then []
  else readings.flatMap fun reading =>
    reading.2.entries.map fun l => Event.ofLeaf h.id reading.1 l.1 l.2) ++ [.sync h.id]

/-- What happened without a call, with no word about the request and nothing kept for it. -/
structure Aside (s : Setup) (h : Handle) (e x : Engine) : Prop where
  stirs : ∃ ns, Stirs s e ns x
  core : x.core = e.core
  dormant : Dormant h x
  silent : ∃ new, x.datastore.sent = e.datastore.sent ++ new ∧ ∀ n ∈ new, n.event.request ≠ h.id

/-- The one change of a start. Only what is sent depends on whether it arrives. -/
structure Opened (s : Setup) (h : Handle) (readings : List Snapshot.Reading) (x y : Engine) :
    Prop where
  sent : y.datastore = x.datastore.sendAll x.now s.topic (opening h readings)
  delivered : x.datastore.Delivers → y.datastore.sent =
    x.datastore.sent ++ (opening h readings).map (⟨x.now, s.topic, ·⟩)
  buckets : ∀ reading ∈ readings,
    y.cache.bucket h.id reading.1 = reading.2.map fun _ v => ⟨v, x.now⟩
  others : ∀ r sid, ¬(r = h.id ∧ sid ∈ readings.map (·.1)) →
    y.cache.bucket r sid = x.cache.bucket r sid
  status : y.status h = .running
  /-- Every loop of the request still has its first sample before it. -/
  first : ∀ {ref l}, y.loops.find? ref = some l → l.plan.request = h.id →
    l.deadline = x.now + l.plan.period

/-- What a start comes to. -/
inductive Opening (s : Setup) (h : Handle) (e : Engine) :
    List Note → Except Error Unit → Engine → Prop where
  /-- Everything was read, and the last thing that happens is the one change. -/
  | begun {readings : List Snapshot.Reading} {x y : Engine} {ns : List Note}
    (tried : Tried h.request.subscriptions (Note.reads ns) (.ok readings))
    (unwritten : ∀ x y, .wrote x y ∉ ns) (aside : Aside s h e x) (opened : Opened s h readings x y) :
    Opening s h e (ns ++ [.wrote x y]) (.ok ()) y
  /-- A read failed, and nothing was changed. -/
  | failed {err : Error} {e' : Engine} {ns : List Note}
    (tried : Tried h.request.subscriptions (Note.reads ns) (.error err))
    (unwritten : ∀ x y, .wrote x y ∉ ns) (aside : Aside s h e e') :
    Opening s h e ns (.error err) e'

variable {s : Setup} {h : Handle} {e x : Engine} {ns : List Note}

/-! ## Requests without loops -/

/-- A loop that samples for a registered request has a running STREAM request to sample for. -/
theorem Sound.unsampled (hs : Sound s e) (hr : e.Registered h)
    (hno : e.status h ≠ .running ∨ h.request.mode ≠ .stream) : Unsampled h e := by
  intro ref l live hid
  obtain ⟨h', hr', -, hrun, hm, sub, -, hserves⟩ := hs.owner live
  have hid' : h'.id = h.id := by
    rw [← hid, hserves.plan]
    rfl
  have hsame : h' = h := hs.sole hr h' hr' (.inr hid')
  subst hsame
  rcases hno with hno | hno
  · exact hno hrun
  · exact hno hm

/-- What happens without a call touches no leaf of a request without loops and says nothing of
it. -/
theorem Unsampled.stir (hu : Unsampled h e) (hst : Stir s e ns x) :
    Unsampled h x ∧ x.cache.bucket h.id = e.cache.bucket h.id ∧
      ∃ new, x.datastore.sent = e.datastore.sent ++ new ∧ ∀ n ∈ new, n.event.request ≠ h.id := by
  cases hst with
  | wait => exact ⟨hu, rfl, sent_same rfl⟩
  | data same => exact ⟨hu, rfl, sent_same same⟩
  | @due ref l live deadline =>
    have hne := hu ref l live
    refine ⟨fun ref' l' hl' => ?_, rfl, sent_same rfl⟩
    rw [SortedMap.find?_insert] at hl'
    split at hl'
    · cases hl'
      exact hne
    · exact hu ref' l' hl'
  | @tick ref l live expired =>
    have hne := hu ref l live
    obtain ⟨new, hnew, habout⟩ :=
      sent_sampled (s := s) (e := e) l.plan (e.answer s l.plan.path expired)
    refine ⟨fun ref' l' hl' => ?_, ?_, new, hnew, fun n hn => ?_⟩
    · rw [sampled_eq] at hl'
      exact hu ref' l' hl'
    · funext sid
      exact (sampled_changesAt l.plan _).other h.id sid fun hc => hne hc.1.symm
    · rw [(habout n hn).request]
      exact hne
  | @ends ref l live told =>
    have hne := hu ref l live
    refine ⟨fun ref' l' hl' => ?_, ?_, sent_same ?_⟩
    · rw [endLoop_eq live, SortedMap.find?_erase] at hl'
      split at hl'
      · cases hl'
      · exact hu ref' l' hl'
    · funext sid
      rw [endLoop_eq live]
      exact (Cache.bucket_removeSubscription ..).trans (if_neg fun hc => hne hc.1.symm)
    · rw [endLoop_eq live]

/-! ## Requests for which nothing is kept -/

theorem Sound.dormant (hs : Sound s e) (hr : e.Registered h) (resting : e.status h ≠ .running) :
    Dormant h e :=
  ⟨resting, ((hs.fit hr).idle_of_status resting).buckets, hs.unsampled hr (.inl resting)⟩

theorem Dormant.stir (hd : Dormant h e) (hst : Stir s e ns x) :
    Dormant h x ∧ ∃ new, x.datastore.sent = e.datastore.sent ++ new ∧
      ∀ n ∈ new, n.event.request ≠ h.id := by
  obtain ⟨hunsampled, hbuckets, hsent⟩ := hd.unsampled.stir hst
  refine ⟨⟨?_, fun sid => ?_, hunsampled⟩, hsent⟩
  · rw [Engine.status, life_of_core (congrArg Core.lives hst.core)]
    exact hd.status
  · rw [hbuckets]
    exact hd.buckets sid

theorem Dormant.aside (hd : Dormant h e) (hst : Stirs s e ns x) : Aside s h e x := by
  suffices hall : Dormant h x ∧ ∃ new, x.datastore.sent = e.datastore.sent ++ new ∧
      ∀ n ∈ new, n.event.request ≠ h.id from ⟨⟨ns, hst⟩, hst.core, hall.1, hall.2⟩
  induction hst with
  | refl e => exact ⟨hd, sent_same rfl⟩
  | head h₁ _ ih =>
    obtain ⟨hd₁, hsent₁⟩ := hd.stir h₁
    obtain ⟨hd₂, hsent₂⟩ := ih hd₁
    exact ⟨hd₂, sent_trans hsent₁ hsent₂⟩

/-! ## The one change -/

theorem snapshotEvents_eq_opening {readings : List Snapshot.Reading}
    (hn : (readings.map (·.1)).Nodup) (e : Engine) :
    snapshotEvents ⟨!h.request.updatesOnly, false⟩ h readings e = opening h readings := by
  have hreported (updates : Bool) : Snapshot.reported ⟨updates, false⟩ h.id e.cache = fun reading =>
      if updates then reading.2.entries.map fun l => Event.ofLeaf h.id reading.1 l.1 l.2 else [] := by
    funext reading
    simp [Snapshot.reported]
  unfold snapshotEvents opening
  rw [Snapshot.events_takeAll _ _ _ readings _ hn, hreported]
  cases h.request.updatesOnly with
  | true => simp
  | false => simp

theorem Dormant.opened (hw : h.request.WellMade) (hd : Dormant h x)
    {readings : List Snapshot.Reading} (hread : ReadFor h readings) :
    Opened s h readings x (begin s h readings x) := by
  have hn : (readings.map (·.1)).Nodup := hread ▸ hw.distinct
  have hsent : (begin s h readings x).datastore =
      x.datastore.sendAll x.now s.topic (opening h readings) := by
    rw [begin_frame, ← snapshotEvents_eq_opening hn x]
    rfl
  refine ⟨hsent, fun hdel => ?_, fun reading hm => ?_, fun r sid hno => ?_, status_begin readings,
    fun {ref l} hl hid => ?_⟩
  · rw [hsent]
    exact hdel.sendAll_sent _
  · rw [begin_frame]
    exact Snapshot.bucket_takeAll _ _ _ readings _ hn hm (hd.buckets _)
  · rw [begin_frame]
    exact Snapshot.bucket_takeAll_of_notMem _ _ _ readings _ hno
  · rw [loops_begin] at hl
    split at hl
    · obtain ⟨sub, -, rfl⟩ := Option.map_eq_some_iff.1 hl
      rfl
    · exact absurd hid (hd.unsampled ref l hl)

/-! ## Starts -/

theorem start_opening (hw : h.request.WellMade) (hd : Dormant h e) :
    (start s h).Meets s (fun _ _ => True) (Opening s h e) e := by
  unfold start
  simp only [Meets, hd.status, if_false]
  refine Meets.bind (Meets.mono (fun ns out x hq => ?_) (readAll_stirs _ e))
  obtain ⟨htried, ⟨ns', hst⟩, hunwritten⟩ := hq
  have haside := hd.aside hst
  cases out with
  | error err =>
    change Opening s h e (ns ++ []) _ _
    rw [List.append_nil]
    exact .failed htried hunwritten haside
  | ok readings =>
    refine Meets.change trivial ?_
    exact .begun htried hunwritten haside (haside.dormant.opened hw htried.of_ok.1)

/-- A start of a request for which nothing is kept takes a snapshot of everything and says so, or
does nothing. However far it has come, it can be brought to its end. -/
theorem start_snapshot_or_nothing (hw : h.request.WellMade) (hd : Dormant h e) :
    (∀ ns w x, Course s (start s h) e ns w x → ∃ ns' r e', Course s w x ns' (.done r) e') ∧
      ∀ ns r e', Course s (start s h) e ns (.done r) e' → Opening s h e ns r e' := by
  have hmeets := start_opening (s := s) hw hd
  refine ⟨fun ns w x c => ?_, fun ns r e' c => (hmeets.course c).2⟩
  obtain ⟨-, hrest⟩ := hmeets.along c
  obtain ⟨ns', c'⟩ := hrest.run
  exact ⟨ns', _, _, c'⟩

/-- The small engine starts its request: it can, and whatever it does is a snapshot of everything. -/
theorem small_request_opened : ∃ ns e', Course Small.setup (start Small.setup ⟨0, Small.request⟩)
    Small.engine ns (.done (.ok ())) e' ∧
      Opening Small.setup ⟨0, Small.request⟩ Small.engine ns (.ok ()) e' := by
  have hw : Small.request.WellMade := ⟨by decide, by decide⟩
  have hd : Dormant ⟨0, Small.request⟩ Small.engine :=
    ⟨by decide, fun _ => rfl, fun _ _ live => by cases live⟩
  obtain ⟨-, hall⟩ := start_snapshot_or_nothing (s := Small.setup) (h := ⟨0, Small.request⟩) hw hd
  obtain ⟨ns, c⟩ := (start_opening (s := Small.setup) (h := ⟨0, Small.request⟩) hw hd).run
  have hok : ((start Small.setup ⟨0, Small.request⟩).run Small.setup Small.engine).2 = .ok () := by
    decide +kernel
  rw [hok] at c
  exact ⟨ns, _, c, hall ns (.ok ()) _ c⟩

end Telemetry.Engine
