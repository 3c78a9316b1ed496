import Telemetry.Proofs.Mirror
import Telemetry.Proofs.System

/-!
# Collectors converge

While the loop of a subscription lives, the cached leaves of the subscription and what a collector
has heard of it follow the samples of that loop: after a sample both are what was read, and between
samples neither changes.

* `Engine.Watched`: a loop that is the only one to sample a subscription, which it stays.
* `Engine.Heard`: what a step means to such a subscription.
* `Engine.Mirrored`: what holds of cache and collector along a run.
* `System.run_ahead`: a call that nothing interferes with, computed step by step.
* `System.collector_converges`: the statement.
* `System.small_request_started`: a leaf that changes and goes away.
-/
namespace Telemetry

/-- The successful samples under a plan, in order. -/
def Note.samples (p : Sampling) (notes : List Note) : List Leaves :=
  notes.filterMap fun
    | .ticked l (.ok leaves) _ _ => if l.plan = p then some leaves else none
    | _ => none

theorem Note.samples_append (p : Sampling) (ns ns' : List Note) :
    samples p (ns ++ ns') = samples p ns ++ samples p ns' :=
  List.filterMap_append ..

theorem Event.about.unique {ev : Event} {r s r' s' : Nat} (h : ev.about r s) (h' : ev.about r' s') :
    r = r' ∧ s = s' := by
  cases ev with
  | update | delete => exact ⟨h.1.symm.trans h'.1, h.2.symm.trans h'.2⟩
  | sync => exact h.elim

namespace Engine

variable {s : Setup} {T : Handle → Prop} {e e' : Engine} {h : Handle} {sub : Subscription}
  {ref : Nat} {ns : List Note}

/-! ## The only loop of a subscription -/

structure Watched (s : Setup) (h : Handle) (sub : Subscription) (ref : Nat) (e : Engine) : Prop where
  registered : e.Registered h
  member : sub ∈ h.request.subscriptions
  live : ∃ l, e.loopAt h.key ref = some l ∧ l.Serves s h sub
  alone : ∀ {ref' l}, e.loopAt h.key ref' = some l → l.Serves s h sub → ref' = ref

theorem Watched.running (hw : Watched s h sub ref e) (hs : Sound s e) :
    e.status h = .running ∧ h.request.mode = .stream :=
  let ⟨_, hl, _⟩ := hw.live
  let ⟨hrun, hm, _⟩ := (hs.fit hw.registered).serves hl
  ⟨hrun, hm⟩

/-- A loop that samples the same bucket samples the subscription. -/
theorem Watched.serves (hw : Watched s h sub ref e) (hs : Sound s e) {ref' : Nat}
    {l : SamplingLoop} (live : e.loops.find? ref' = some l) (hreq : h.id = l.plan.request)
    (hsub : sub.id = l.plan.subscription) : l.Serves s h sub ∧ ref' = ref := by
  obtain ⟨h', hr', hl, -, -, sub', hsub', hserves⟩ := hs.owner live
  have hid : h.id = h'.id := by rw [hreq, hserves.plan]; rfl
  obtain rfl := hs.sole hr' h hw.registered (Or.inr hid)
  have hsame : sub.id = sub'.id := by rw [hsub, hserves.plan]; rfl
  obtain ⟨i, hi⟩ := List.getElem?_of_mem hw.member
  obtain ⟨j, hj⟩ := List.getElem?_of_mem hsub'
  have hij : i = j := by
    refine (List.getElem?_inj (by simpa using (List.getElem?_eq_some_iff.1 hi).1)
      (hs.proper.wellMade hw.registered).distinct).1 ?_
    rw [List.getElem?_map, List.getElem?_map, hi, hj, Option.map_some, Option.map_some, hsame]
  subst hij
  rw [hi] at hj
  cases hj
  exact ⟨hserves, hw.alone hl ⟨hserves.owner, hserves.plan⟩⟩

theorem Watched.of_loops (hw : Watched s h sub ref e) (hr : e'.Registered h)
    (hloops : e'.loopAt h.key = e.loopAt h.key) : Watched s h sub ref e' where
  registered := hr
  member := hw.member
  live := by rw [hloops]; exact hw.live
  alone := by rw [hloops]; exact hw.alone

/-! ## What steps mean to it -/

/-- Nothing happened to the subscription, or its loop took a sample. -/
inductive Heard (s : Setup) (h : Handle) (sub : Subscription) (e : Engine) (ns : List Note)
    (e' : Engine) : Prop where
  | quiet (samples : Note.samples (.ofSubscription h.id sub s.least) ns = [])
    (bucket : e'.cache.bucket h.id sub.id = e.cache.bucket h.id sub.id)
    (sent : ∃ new, e'.datastore.sent = e.datastore.sent ++ new ∧
      ∀ n ∈ new, ¬n.event.about h.id sub.id)
  | sample {leaves : Leaves}
    (samples : Note.samples (.ofSubscription h.id sub s.least) ns = [leaves])
    (observed : e' = e.observe s (.ofSubscription h.id sub s.least) leaves)

theorem Watched.cancelLoops (hw : Watched s h sub ref e) :
    Watched s h sub ref (Engine.cancelLoops h e) where
  registered := hw.registered
  member := hw.member
  live := by
    obtain ⟨l, hl, hserves⟩ := hw.live
    exact ⟨toldToEnd h e l, by rw [loopAt_cancelLoops, hl, Option.map_some],
      serves_toldToEnd.2 hserves⟩
  alone hl hserves := by
    rw [loopAt_cancelLoops, Option.map_eq_some_iff] at hl
    obtain ⟨l₀, hl₀, rfl⟩ := hl
    exact hw.alone hl₀ (serves_toldToEnd.1 hserves)

/-- Calls do nothing to it as long as its loop lives. -/
theorem Watched.effect (hw : Watched s h sub ref e) (hs : Sound s e) (f : Effect s T e e') :
    Watched s h sub ref e' ∧ e'.cache.bucket h.id sub.id = e.cache.bucket h.id sub.id ∧
      ∃ new, e'.datastore.sent = e.datastore.sent ++ new ∧ ∀ n ∈ new, n.event.request ≠ h.id := by
  obtain ⟨hrun, hm⟩ := hw.running hs
  have present : e.registry.find? h.id ≠ none := fun hf => by
    rw [show _ = some h from hw.registered] at hf
    cases hf
  cases f with
  | nothing | freed | await | settle => exact ⟨hw.of_loops hw.registered rfl, rfl, sent_same rfl⟩
  | clear _ resting => exact absurd hrun (resting h hw.registered)
  | @on h' _ _ deed =>
    by_cases hne : h = h'
    · subst hne
      cases deed with
      | enroll _ absent | reenroll absent => exact absurd absent present
      | begin _ resting | withdraw _ resting => exact absurd hrun resting
      | burst _ _ mode =>
        rw [hm] at mode
        cases mode
      | halt _ _ _ loops =>
        obtain ⟨l, hl, -⟩ := hw.live
        rw [loops] at hl
        cases hl
      | cancel => exact ⟨hw.cancelLoops, rfl, sent_same rfl⟩
    · have hkey : h.key ≠ h'.key := fun hk => hne ((deed.sole hs).1 h hw.registered (Or.inl hk))
      have hid : h.id ≠ h'.id := fun hid => hne ((deed.sole hs).1 h hw.registered (Or.inr hid))
      have hf := deed.frame hs
      obtain ⟨new, hnew, hn⟩ := hf.sent
      refine ⟨hw.of_loops ((hf.registered hid).2 hw.registered) (hf.loops hkey), ?_, new, hnew,
        fun n hm => ?_⟩
      · rw [hf.cache hid]
      · rw [(hn n hm).1]
        exact Ne.symm hid

/-- It stays watched as long as its loop lives. -/
theorem Watched.stir (hw : Watched s h sub ref e) (hst : Stir s e ns e') {l' : SamplingLoop}
    (hl' : e'.loops.find? ref = some l') : Watched s h sub ref e' := by
  refine ⟨(Stirs.single hst).registered h |>.2 hw.registered, hw.member, ?_,
    fun hl => hw.alone (hst.loopAt hl)⟩
  obtain ⟨l, hl, hserves⟩ := hw.live
  obtain ⟨l₁, hl₁, howner₁, rfl⟩ := loopAt_eq_some.1 hl
  obtain ⟨l₂, hl₂, howner₂, hstill⟩ :=
    loopAt_eq_some.1 (hst.loopAt (loopAt_eq_some.2 ⟨l', hl', rfl, rfl⟩))
  rw [hl₁] at hl₂
  cases hl₂
  exact ⟨l₁.still, loopAt_eq_some.2 ⟨l', hl', howner₂.symm.trans howner₁, hstill.symm⟩, hserves⟩

/-- Samples are those of its loop. -/
theorem Watched.heard_of_stir (hw : Watched s h sub ref e) (hs : Sound s e) (hst : Stir s e ns e')
    {l' : SamplingLoop} (hl' : e'.loops.find? ref = some l') : Heard s h sub e ns e' := by
  cases hst with
  | wait | due => exact .quiet rfl rfl (sent_same rfl)
  | data same => exact .quiet rfl rfl (sent_same same)
  | @ends ref' l live told =>
    rw [endLoop_eq live] at hl' ⊢
    refine .quiet rfl ((Cache.bucket_removeSubscription ..).trans (if_neg fun hc => ?_))
      (sent_same rfl)
    obtain ⟨-, rfl⟩ := hw.serves hs live hc.1 hc.2
    rw [SortedMap.find?_erase_self] at hl'
    cases hl'
  | @tick ref' l live expired =>
    by_cases hp : l.plan = .ofSubscription h.id sub s.least
    · cases ha : e.answer s l.plan.path expired with
      | error err => exact .quiet (by simp [Note.samples]) rfl (sent_same rfl)
      | ok leaves =>
        have hsamples : Note.samples (.ofSubscription h.id sub s.least)
            [.ticked l (.ok leaves) e (e.sampled s l.plan (.ok leaves))] = [leaves] := by
          simp [Note.samples, hp]
        exact .sample hsamples (by rw [← hp]; rfl)
    · have hother : ¬(h.id = l.plan.request ∧ sub.id = l.plan.subscription) := fun hc =>
        hp (hw.serves hs live hc.1 hc.2).1.plan
      obtain ⟨new, hnew, hn⟩ := sent_sampled (s := s) (e := e) l.plan (e.answer s l.plan.path expired)
      refine .quiet ?_ ((sampled_changesAt l.plan _).other _ _ hother) ⟨new, hnew, fun n hm habout => ?_⟩
      · cases e.answer s l.plan.path expired <;> simp [Note.samples, hp]
      · exact hother (habout.unique (hn n hm))

theorem Watched.turn (hw : Watched s h sub ref e) (hs : Sound s e) (t : System.Turn s T e ns e')
    {l' : SamplingLoop} (hl' : e'.loops.find? ref = some l') :
    Watched s h sub ref e' ∧ Heard s h sub e ns e' := by
  cases t with
  | still reads =>
    refine ⟨hw, .quiet (List.filterMap_eq_nil_iff.2 fun n hn => ?_) rfl (sent_same rfl)⟩
    obtain ⟨path, a, rfl⟩ := reads n hn
    rfl
  | hold => exact ⟨hw.of_loops hw.registered rfl, .quiet rfl rfl (sent_same rfl)⟩
  | stir hst => exact ⟨hw.stir hst hl', hw.heard_of_stir hs hst hl'⟩
  | effect f =>
    obtain ⟨hw', hbucket, new, hnew, hn⟩ := hw.effect hs f
    exact ⟨hw', .quiet rfl hbucket ⟨new, hnew, fun n hm habout => hn n hm habout.request⟩⟩

/-! ## Cache and collector along a run -/

/-- Engine `e'` and a collector of the subscription, when the notes `ns` were taken since engine `e`
had started it with the leaves `first`. -/
structure Mirrored (s : Setup) (h : Handle) (sub : Subscription) (first : Leaves) (e : Engine)
    (ns : List Note) (new : List (Notification Event)) (e' : Engine) : Prop where
  sent : e'.datastore.sent = e.datastore.sent ++ new
  /-- The collector was told what is cached, and every deletion was of a leaf that it had. -/
  replay : Mirror.replay h.id sub.id (new.map (·.event)) (.ofLeaves first) =
    some (.ofBucket (e'.cache.bucket h.id sub.id))
  /-- What is cached is the last sample. -/
  agrees : (e'.cache.bucket h.id sub.id).Agrees
    ((Note.samples (.ofSubscription h.id sub s.least) ns).getLastD first)
  /-- There is one deletion for every time that a leaf has vanished. -/
  deletions : ∀ path, Mirror.deletions h.id sub.id path (new.map (·.event)) =
    vanishings path first (Note.samples (.ofSubscription h.id sub s.least) ns)

theorem Mirrored.begin {first : Leaves} {now : Nat}
    (hbucket : e.cache.bucket h.id sub.id = first.map fun _ v => ⟨v, now⟩) :
    Mirrored s h sub first e [] [] e where
  sent := (List.append_nil _).symm
  replay := by
    rw [hbucket]
    refine congrArg some (SortedMap.ext_find? fun path => ?_)
    simp only [Mirror.ofLeaves, Mirror.ofBucket, SortedMap.find?_map, Option.map_map]
    rfl
  agrees := by
    rw [hbucket]
    exact Bucket.agrees_of_read first now
  deletions _ := rfl

theorem Mirrored.heard {first : Leaves} {e₀ : Engine} {ns' : List Note}
    {new : List (Notification Event)} (hm : Mirrored s h sub first e₀ ns new e)
    (hd : e.datastore.Delivers) (hh : Heard s h sub e ns' e') :
    ∃ new', Mirrored s h sub first e₀ (ns ++ ns') (new ++ new') e' := by
  cases hh with
  | quiet samples bucket sent =>
    obtain ⟨new', hnew', hother⟩ := sent
    have hother' : ∀ ev ∈ new'.map (·.event), ¬ev.about h.id sub.id := by
      simpa using hother
    refine ⟨new', ?_, ?_, ?_, fun path => ?_⟩
    · rw [hnew', hm.sent, List.append_assoc]
    · rw [List.map_append, Mirror.replay_append, hm.replay, Option.bind_some,
        Mirror.replay_other hother', bucket]
    · rw [Note.samples_append, samples, List.append_nil, bucket]
      exact hm.agrees
    · rw [List.map_append, Mirror.deletions_append, Mirror.deletions_other hother', hm.deletions,
        Note.samples_append, samples, List.append_nil, Nat.add_zero]
  | @sample leaves samples observed =>
    have hsent : (e.datastore.sendAll e.now s.topic
        ((Sampling.ofSubscription h.id sub s.least).observe e.now leaves e.cache).2).sent = _ :=
      hd.sendAll_sent _
    have hreplay := Mirror.replay_observe (.ofSubscription h.id sub s.least) e.now leaves e.cache
    -- what is cached is what the last sample had
    have hdeletions (path : String) : Mirror.deletions h.id sub.id path
        ((Sampling.ofSubscription h.id sub s.least).observe e.now leaves e.cache).2 =
          vanishes path ((Note.samples (.ofSubscription h.id sub s.least) ns).getLastD first)
            leaves := by
      rw [vanishes, ← hm.agrees.isSome path]
      exact Mirror.deletions_observe (.ofSubscription h.id sub s.least) e.now leaves e.cache path
    rw [observed, observe_eq]
    generalize ((Sampling.ofSubscription h.id sub s.least).observe e.now leaves e.cache).2 = events
      at hsent hreplay hdeletions
    refine ⟨_, hsent.trans (by rw [hm.sent, List.append_assoc]), ?_, ?_, fun path => ?_⟩
    · rw [List.map_append, Datastore.map_event, Mirror.replay_append, hm.replay, Option.bind_some]
      exact hreplay
    · rw [Note.samples_append, samples, List.getLastD_concat]
      exact Bucket.agrees_observe (.ofSubscription h.id sub s.least) e.now leaves e.cache
    · rw [List.map_append, Datastore.map_event, Mirror.deletions_append, hm.deletions, hdeletions,
        Note.samples_append, samples, vanishings_append]

/-! ## Starts -/

def Runs (e : Engine) (h : Handle) : Prop := e.Registered h ∧ e.status h = .running

instance (e : Engine) (h : Handle) : Decidable (e.Runs h) :=
  inferInstanceAs (Decidable (e.Registered h ∧ e.status h = .running))

/-- A request that runs after a deed for it, and did not before, was begun. -/
theorem Deed.begun (hs : Sound s e) (deed : Deed s h e e') (hnot : ¬e.Runs h) (hruns : e'.Runs h) :
    ∃ readings, e' = Engine.begin s h readings e ∧ e.Registered h ∧ e.status h ≠ .running ∧
      ReadFor h readings := by
  obtain ⟨hr, hrun⟩ := hruns
  cases deed with
  | @begin readings registered resting read => exact ⟨readings, rfl, registered, resting, read⟩
  | burst registered running => exact absurd ⟨registered, running⟩ hnot
  | enroll =>
    rw [status_enrolled] at hrun
    cases hrun
  | cancel =>
    rw [Engine.status, life_cancelLoops] at hrun
    exact absurd ⟨hr, hrun⟩ hnot
  | halt =>
    rw [Engine.status, life_halted] at hrun
    cases hrun
  | withdraw =>
    rw [Registered, withdrawn, Registry.find?_erase, if_pos rfl] at hr
    cases hr
  | reenroll absent unused => exact absurd hrun (hs.idle_of_absent absent unused).status

theorem Runs.begun (hs : Sound s e) (t : System.Turn s T e ns e') (hnot : ¬e.Runs h)
    (hruns : e'.Runs h) :
    ∃ readings, e' = begin s h readings e ∧ e.Registered h ∧ e.status h ≠ .running ∧
      ReadFor h readings := by
  cases t with
  | still | hold => exact absurd hruns hnot
  | stir hst =>
    refine absurd ⟨(Stirs.single hst).registered h |>.1 hruns.1, ?_⟩ hnot
    rw [status, ← (Stirs.single hst).life h]
    exact hruns.2
  | effect f =>
    cases f with
    | nothing | freed | await | settle => exact absurd hruns hnot
    | clear => cases hruns.1
    | @on h' _ _ deed =>
      by_cases hne : h = h'
      · subst hne
        exact deed.begun hs hnot hruns
      · have hsole := (deed.sole hs).2 h hruns.1
        have hkey : h.key ≠ h'.key := fun hk => hne (hsole (Or.inl hk))
        have hid : h.id ≠ h'.id := fun hid => hne (hsole (Or.inr hid))
        have hf := deed.frame hs
        refine absurd ⟨(hf.registered hid).1 hruns.1, ?_⟩ hnot
        rw [status, ← life_eq_of_find? (hf.lives hkey)]
        exact hruns.2

theorem Served.watched (hr : e.Registered h) (hsub : sub ∈ h.request.subscriptions)
    (hserved : Served s e h sub) :
    ∃ ref, Watched s h sub ref e ∧ ∃ l, e.loops.find? ref = some l ∧ l.Serves s h sub := by
  obtain ⟨ref, l, hl, hserves, -, honly⟩ := hserved
  refine ⟨ref, ⟨hr, hsub, ⟨l.still, loopAt_eq_some.2 ⟨l, hl, hserves.owner, rfl⟩, hserves.owner,
    hserves.plan⟩, fun hat hserves' => ?_⟩, l, hl, hserves⟩
  obtain ⟨l', hl', -, rfl⟩ := loopAt_eq_some.1 hat
  exact honly hl' hserves'.of_still

/-- The engine when a loop has taken a sample at a later time. -/
def sampledAt (s : Setup) (p : Sampling) (t : Nat) (e : Engine) : Engine :=
  { e with now := t }.sampled s p ({ e with now := t }.answer s p.path false)

end Engine

namespace System

open Engine (Watched Mirrored)

variable {s : Setup} {h : Handle} {sub : Subscription} {ref : Nat}

/-- As long as the loop lives and everything arrives, whatever is kept while the subscription is
left alone or sampled is there. -/
theorem Run.watch {y z : System} {ns : List Note} {K : List Note → Engine → Prop}
    (first : K [] y.engine)
    (next : ∀ {ns e ns' e'}, K ns e → e.datastore.Delivers → Engine.Heard s h sub e ns' e' →
      K (ns ++ ns') e')
    (g : Good s y) (hw : Watched s h sub ref y.engine)
    (r : Run s (fun z => (z.engine.loops.find? ref).isSome ∧ z.engine.datastore.Delivers) y ns z) :
    Watched s h sub ref z.engine ∧ K ns z.engine := by
  induction r with
  | here => exact ⟨hw, first⟩
  | step before st alive ih =>
    obtain ⟨hw, hk⟩ := ih
    have gy := g.run before
    obtain ⟨l, hl⟩ := Option.isSome_iff_exists.1 alive.1
    obtain ⟨hw', hheard⟩ := hw.turn gy.sound (gy.turn st) hl
    exact ⟨hw', next hk before.last.2 hheard⟩

/-- Cache and collector follow the samples of the loop. -/
theorem Run.mirrored {y z : System} {ns : List Note} {first : Leaves} (g : Good s y)
    (hw : Watched s h sub ref y.engine) (hm : Mirrored s h sub first y.engine [] [] y.engine)
    (r : Run s (fun z => (z.engine.loops.find? ref).isSome ∧ z.engine.datastore.Delivers) y ns z) :
    Watched s h sub ref z.engine ∧ ∃ new, Mirrored s h sub first y.engine ns new z.engine := by
  refine Run.watch (K := fun ns e => ∃ new, Mirrored s h sub first y.engine ns new e) ⟨[], hm⟩
    (fun hk hd hheard => ?_) g hw r
  obtain ⟨new, hm⟩ := hk
  obtain ⟨new', hm'⟩ := hm.heard hd hheard
  exact ⟨_, hm'⟩

/-! ## Calls that nothing interferes with

Their states are computed one after the other, so that a run of one of them comes from evaluation.
-/

/-- The next step of the call at work. One that has to wait stays where it is. -/
def next (s : Setup) (x : System) : System :=
  match x.call with
  | none | some (.done _) => ⟨x.engine, none⟩
  | some (.look k) => ⟨x.engine, some (k x.engine)⟩
  | some (.update f k) => ⟨f x.engine, some k⟩
  | some (.read path k) => ⟨x.engine, some (k (x.engine.answer s path false))⟩
  | some (.lock l k) => if l ∈ x.engine.held then x else ⟨x.engine.hold l, some k⟩
  | some (.join ..) => x

/-- The system that many steps later. -/
def ahead (s : Setup) : Nat → System → System
  | 0, x => x
  | n + 1, x => (ahead s n x).next s

theorem next_eq_or_step (x : System) :
    x.next s = x ∨ ∃ ns, Step s x ns (x.next s) ∧ ∀ p, Note.samples p ns = [] := by
  obtain ⟨e, call⟩ := x
  cases call with
  | none => exact .inl rfl
  | some w =>
    cases w with
    | done r => exact .inr ⟨[], .answer e r, fun _ => rfl⟩
    | look k => exact .inr ⟨[], .move (.look k e), fun _ => rfl⟩
    | update f k => exact .inr ⟨_, .move (.update f k e), fun _ => rfl⟩
    | read path k => exact .inr ⟨_, .move (.read path k e false), fun _ => rfl⟩
    | lock l k =>
      by_cases hl : l ∈ e.held
      · exact .inl (if_pos hl)
      · have hnext : next s ⟨e, some (.lock l k)⟩ = ⟨e.hold l, some k⟩ := if_neg hl
        rw [hnext]
        exact .inr ⟨[], .move (.lock hl k), fun _ => rfl⟩
    | join => exact .inl rfl

theorem run_ahead {P : System → Prop} {x : System} :
    ∀ {n : Nat}, (∀ k ≤ n, P (ahead s k x)) →
      ∃ ns, Run s P x ns (ahead s n x) ∧ ∀ p, Note.samples p ns = []
  | 0, hp => ⟨[], .here (hp 0 (Nat.le_refl 0)), fun _ => rfl⟩
  | n + 1, hp => by
    obtain ⟨ns, r, hns⟩ := run_ahead fun k hk => hp k (Nat.le_succ_of_le hk)
    rcases next_eq_or_step (s := s) (ahead s n x) with hstay | ⟨ns', st, hns'⟩
    · refine ⟨ns, ?_, hns⟩
      rw [ahead, hstay]
      exact r
    · refine ⟨ns ++ ns', r.step st (hp (n + 1) (Nat.le_refl _)), fun p => ?_⟩
      rw [Note.samples_append, hns, hns']
      rfl

/-- A step that makes a difference is one. -/
theorem step_next {P : System → Prop} {x : System} (before : ¬P x) (after : P (x.next s)) :
    ∃ ns, Step s x ns (x.next s) := by
  rcases next_eq_or_step (s := s) x with hstay | ⟨ns, st, -⟩
  · exact absurd (hstay ▸ after) before
  · exact ⟨ns, st⟩

/-- Time passes until a loop takes a sample. -/
theorem Run.sampled {P : System → Prop} {x : System} {e : Engine} {ns : List Note} {k t : Nat}
    {α : Type} {f : Leaves → α} {a : α} {p : Sampling} (r : Run s P x ns ⟨e, none⟩)
    (later : e.now ≤ t) (live : (e.loops.find? k).map (·.plan) = some p)
    (read : ({ e with now := t }.answer s p.path false).toOption.map f = some a)
    (waited : P ⟨{ e with now := t }, none⟩) (observed : P ⟨e.sampledAt s p t, none⟩) :
    ∃ ns' leaves, Run s P x (ns ++ ns') ⟨e.sampledAt s p t, none⟩ ∧
      Note.samples p ns' = [leaves] ∧ f leaves = a := by
  obtain ⟨l, hl, rfl⟩ := Option.map_eq_some_iff.1 live
  obtain ⟨leaves, hread, rfl⟩ := Option.map_eq_some_iff.1 read
  have hanswer : { e with now := t }.answer s l.plan.path false = .ok leaves := by
    cases ha : { e with now := t }.answer s l.plan.path false with
    | error err =>
      rw [ha] at hread
      cases hread
    | ok leaves' =>
      rw [ha] at hread
      cases hread
      rfl
  have hticked := (r.step (.stir (.wait e later)) waited).step
    (.stir (.tick (s := s) (e := { e with now := t }) hl false)) observed
  rw [List.append_nil] at hticked
  refine ⟨_, leaves, hticked, ?_, rfl⟩
  simp [Note.samples, hanswer]

/-! ## The result -/

/-- When a STREAM request starts, every subscription has a loop. As long as that lives and everything
is delivered, a collector that has the first snapshot and hears the events of the subscription has
what is cached, and both are the last sample that was read. What is not such a sample changes
neither. A deletion is told only of a leaf that the collector has, once for every time that the leaf
vanishes. -/
theorem collector_converges {x y : System} {ns₀ : List Note} (hx : Reachable s x)
    (st : Step s x ns₀ y) (stream : h.request.mode = .stream) (before : ¬x.engine.Runs h)
    (after : y.engine.Runs h) :
    ∃ readings, y.engine = Engine.begin s h readings x.engine ∧
      ∀ sub ∈ h.request.subscriptions, ∃ first ref, (sub.id, first) ∈ readings ∧
        (∃ l, y.engine.loops.find? ref = some l ∧ l.Serves s h sub) ∧
        ∀ {ns z}, Run s (fun z => (z.engine.loops.find? ref).isSome ∧ z.engine.datastore.Delivers)
            y ns z →
          (∃ new, Mirrored s h sub first y.engine ns new z.engine ∧
            (Mirror.ofBucket (z.engine.cache.bucket h.id sub.id)).Shows
              ((Note.samples (.ofSubscription h.id sub s.least) ns).getLastD first) ∧
            ∀ {a b c path}, new.map (·.event) =
                a ++ .delete h.id sub.id path :: (b ++ .delete h.id sub.id path :: c) →
              ∃ text, .update h.id sub.id path text ∈ b) ∧
          ∀ {ns' z'}, Step s z ns' z' → (z'.engine.loops.find? ref).isSome →
            Note.samples (.ofSubscription h.id sub s.least) ns' = [] →
            z'.engine.cache.bucket h.id sub.id = z.engine.cache.bucket h.id sub.id ∧
              ∃ new, z'.engine.datastore.sent = z.engine.datastore.sent ++ new ∧
                ∀ n ∈ new, ¬n.event.about h.id sub.id := by
  have gx := hx.good
  have gy := gx.step st
  obtain ⟨readings, hbegin, hr, hrest, hread⟩ :=
    Engine.Runs.begun gx.sound (gx.turn st) before after
  refine ⟨readings, hbegin, fun sub hsub => ?_⟩
  have hmade := gx.sound.proper.wellMade hr
  have hidle := (gx.sound.fit hr).idle_of_status hrest
  -- the loop
  have hrefs : (y.engine.life h).loops ≠ [] := by
    rw [hbegin]
    exact Engine.loops_begin_ne_nil readings stream hmade
  have hlooping := (gy.sound.fit after.1).looping_of_refs stream hrefs
  obtain ⟨ref, hw, hlive⟩ :=
    (Engine.served_of_looping hmade hlooping hsub).watched after.1 hsub
  -- the first snapshot
  have hid : sub.id ∈ readings.map (·.1) := by
    rw [hread]
    exact List.mem_map_of_mem hsub
  obtain ⟨⟨_, first⟩, hfirst, rfl⟩ := List.mem_map.1 hid
  refine ⟨first, ref, hfirst, hlive, fun {ns z} r => ?_⟩
  have hbucket := Engine.bucket_begin (s := s) hidle hmade hread hfirst
  rw [← hbegin] at hbucket
  obtain ⟨hw', new, hm⟩ := r.mirrored gy hw (.begin hbucket)
  refine ⟨⟨new, hm, hm.agrees.shows, fun heq => ?_⟩, fun st' hl' hsamples => ?_⟩
  · have hreplay := hm.replay
    rw [heq] at hreplay
    exact Mirror.update_between hreplay
  · have gz := gy.run r
    obtain ⟨l', hl'⟩ := Option.isSome_iff_exists.1 hl'
    cases (hw'.turn gz.sound (gz.turn st') hl').2 with
    | quiet _ bucket sent => exact ⟨bucket, sent⟩
    | sample samples =>
      rw [hsamples] at samples
      cases samples

end System

/-! ## An example -/

namespace Small

open Engine (Call)

/-- The small engine while a change is made, so many steps later. -/
def creating (c : Change) (n : Nat) : System :=
  .ahead setup n ⟨engine, some ((Call.phase (.change 7 [c])).work setup)⟩

theorem reachable_creating (c : Change) (n : Nat) : System.Reachable setup (creating c n) := by
  obtain ⟨_, r, -⟩ := System.run_ahead (s := setup) (P := fun _ => True) (n := n)
    (x := ⟨engine, some ((Call.phase (.change 7 [c])).work setup)⟩) fun _ _ => trivial
  exact (reachable.step (.call engine (.phase (.change 7 [c])))).run r

theorem step_creating {c : Change} {n : Nat} {h : Handle} (before : ¬(creating c n).engine.Runs h)
    (after : (creating c (n + 1)).engine.Runs h) :
    ∃ ns, System.Step setup (creating c n) ns (creating c (n + 1)) :=
  System.step_next (P := fun z => z.engine.Runs h) before after

/-- An engine with other data. -/
def holding (trees : SortedMap String Json) (e : Engine) : Engine :=
  { e with datastore := { e.datastore with trees } }

def subscription : Subscription :=
  ⟨5, "/m:c", some .sample, some (2 * 1_000_000_000), some false, some 0⟩

def plan : Sampling := .ofSubscription 1 subscription setup.least

/-- The request is there, and the leaf has another value. -/
def updated : Engine :=
  holding (.ofList [("c", .object [("x", Json.nat 4)])]) (creating creation 11).engine

/-- The first sample is taken, and then the leaf is gone. -/
def emptied : Engine := holding .empty (updated.sampledAt setup plan (2 * 1_000_000_000))

/-- The second sample is taken. -/
def twice : Engine := emptied.sampledAt setup plan (4 * 1_000_000_000)

/-- The request has been started at the eighth step, and three steps later the change is answered. -/
theorem run_twice : ∃ ns one two,
    System.Run setup (fun z => (z.engine.loops.find? 0).isSome ∧ z.engine.datastore.Delivers)
        (creating creation 8) ns ⟨twice, none⟩ ∧ Note.samples plan ns = [one, two] ∧
      Mirror.ofLeaves one = .ofList [("/m:c/x", "4")] ∧ Mirror.ofLeaves two = .empty := by
  obtain ⟨ns₀, r, hnone⟩ := System.run_ahead (s := setup) (x := creating creation 8) (n := 3)
    (P := fun z => (z.engine.loops.find? 0).isSome ∧ z.engine.datastore.Delivers) (by decide +kernel)
  have idle : System.ahead setup 3 (creating creation 8) = ⟨(creating creation 11).engine, none⟩ := by
    have hcall : (creating creation 11).call.isNone := by decide +kernel
    exact congrArg (System.mk _) (Option.isNone_iff_eq_none.1 hcall)
  rw [idle] at r
  have r : System.Run _ _ _ _ ⟨updated, none⟩ := r.step (.stir (.data _ rfl)) (by decide +kernel)
  obtain ⟨ns₁, one, r, hone, hshown⟩ := r.sampled (k := 0) (p := plan) (f := Mirror.ofLeaves)
    (t := 2 * 1_000_000_000) (a := .ofList [("/m:c/x", "4")]) (by decide +kernel)
    (by decide +kernel) (by decide +kernel) (by decide +kernel) (by decide +kernel)
  have r : System.Run _ _ _ _ ⟨emptied, none⟩ := r.step (.stir (.data _ rfl)) (by decide +kernel)
  obtain ⟨ns₂, two, r, htwo, hshown'⟩ := r.sampled (k := 0) (p := plan) (f := Mirror.ofLeaves)
    (t := 4 * 1_000_000_000) (a := .empty) (by decide +kernel)
    (by decide +kernel) (by decide +kernel) (by decide +kernel) (by decide +kernel)
  refine ⟨_, one, two, r, ?_, hshown, hshown'⟩
  simp [Note.samples_append, hnone, hone, htwo]

end Small

/-- The request of the small engine is started with a snapshot of its subscription, which has the
leaf. Then the leaf changes, and then it goes away: a collector hears of both, and has nothing any
more. -/
theorem System.small_request_started : ∃ x y ns readings first, System.Step Small.setup x ns y ∧
    y.engine = Engine.begin Small.setup ⟨0, Small.request⟩ readings x.engine ∧
      (5, first) ∈ readings ∧ Mirror.ofLeaves first = .ofList [("/m:c/x", "3")] ∧
      ∃ ns' one two new z,
        System.Run Small.setup (fun z => (z.engine.loops.find? 0).isSome ∧
          z.engine.datastore.Delivers) y ns' z ∧
        Note.samples Small.plan ns' = [one, two] ∧
        Mirror.ofLeaves one = .ofList [("/m:c/x", "4")] ∧ Mirror.ofLeaves two = .empty ∧
        Engine.Mirrored Small.setup ⟨0, Small.request⟩ Small.subscription first y.engine ns' new
          z.engine ∧
        new.map (·.event) = [.update 1 5 "/m:c/x" "4", .delete 1 5 "/m:c/x"] ∧
        (Mirror.ofBucket (z.engine.cache.bucket 1 5)).Shows two := by
  have hbefore : ¬(Small.creating Small.creation 7).engine.Runs ⟨0, Small.request⟩ := by
    decide +kernel
  have hafter : (Small.creating Small.creation 8).engine.Runs ⟨0, Small.request⟩ := by
    decide +kernel
  obtain ⟨ns, st⟩ := Small.step_creating hbefore hafter
  obtain ⟨readings, hbegin, hall⟩ := System.collector_converges (Small.reachable_creating _ 7) st
    (h := ⟨0, Small.request⟩) rfl hbefore hafter
  obtain ⟨first, ref, hfirst, ⟨l, hl, -⟩, hrun⟩ := hall _ List.mem_cons_self
  -- there is one loop
  obtain rfl : ref = 0 := by
    have hkeys : (Small.creating Small.creation 8).engine.loops.keys = [0] := by decide +kernel
    have hmem := SortedMap.mem_keys.2 (Option.isSome_of_mem hl)
    exact List.mem_singleton.1 (hkeys ▸ hmem)
  -- before any sample the cache has what was read for the start
  obtain ⟨⟨none, hm₀, -⟩, -⟩ := hrun (.here (by decide +kernel))
  obtain rfl : none = [] := List.self_eq_append_right.1 hm₀.sent
  have hread : Mirror.ofLeaves first = _ := Option.some.inj hm₀.replay
  obtain ⟨ns', one, two, r, hsamples, hone, htwo⟩ := Small.run_twice
  obtain ⟨⟨new, hm, hshows, -⟩, -⟩ := hrun r
  refine ⟨_, _, ns, readings, first, st, hbegin, hfirst, ?_, ns', one, two, new, _, r, hsamples,
    hone, htwo, hm, ?_, ?_⟩
  · rw [hread]
    decide +kernel
  · have hnew : new = Small.twice.datastore.sent.drop
        (Small.creating Small.creation 8).engine.datastore.sent.length := by
      rw [hm.sent, List.drop_left]
    rw [hnew]
    decide +kernel
  · change Mirror.Shows _ ((Note.samples Small.plan ns').getLastD first) at hshows
    rwa [hsamples] at hshows

end Telemetry
