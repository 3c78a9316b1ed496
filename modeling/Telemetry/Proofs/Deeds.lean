import Telemetry.Proofs.Soundness

/-!
# What calls do to an engine

A call changes an engine only in a few ways, each with its guard. Those that concern one request are
its `Deed`s: it is enrolled, begun, polled, told to end its loops, halted, withdrawn and enrolled
again. Registrations change only while no transaction is pending.

* `Engine.Deed.frame`: a deed leaves every other request alone.
* `Engine.Deed.sound`: a deed keeps an engine sound.
* `Engine.Effect`: every change that a call can make for the requests it is entitled to.
-/
namespace Telemetry.Engine

/-! ## Deeds -/

/-- A new request is made, and it is valid. -/
def born (h : Handle) (e : Engine) : Engine :=
  ({ e with handles := e.handles + 1 } : Engine).setStatus h .validated

/-- A request that was made before is registered. -/
def reenrolled (h : Handle) (e : Engine) : Engine :=
  { e with registry := ⟨e.registry.entries.insert h.id h⟩ }

/-- A new request is registered. -/
def enrolled (h : Handle) (e : Engine) : Engine := (e.born h).reenrolled h

def withdrawn (h : Handle) (e : Engine) : Engine :=
  { e with registry := ⟨e.registry.entries.erase h.id⟩ }

/-- What is kept for a request is dropped. -/
def halted (h : Handle) (e : Engine) : Engine := (e.release h).setStatus h .stopped

theorem life_enrolled (h : Handle) (e : Engine) :
    (e.enrolled h).life h = { e.life h with status := .validated } := life_setLife_self ..

theorem life_halted (h : Handle) (e : Engine) :
    (e.halted h).life h = { e.life h with status := .stopped } := life_setLife_self ..

/-- The readings of a request, one for every subscription. -/
def ReadFor (h : Handle) (readings : List Snapshot.Reading) : Prop :=
  readings.map (·.1) = h.request.subscriptions.map (·.id)

/-- A change that concerns one request. -/
inductive Deed (s : Setup) (h : Handle) (x : Engine) : Engine → Prop where
  | enroll (new : h.key = x.handles) (absent : x.registry.find? h.id = none)
    (wellMade : h.request.WellMade) (settled : x.pending = none) : Deed s h x (x.enrolled h)
  | begin {readings : List Snapshot.Reading} (registered : x.Registered h)
    (resting : x.status h ≠ .running) (read : ReadFor h readings) :
    Deed s h x (begin s h readings x)
  | burst {readings : List Snapshot.Reading} (registered : x.Registered h)
    (running : x.status h = .running) (mode : h.request.mode = .poll) (read : ReadFor h readings) :
    Deed s h x (burst s h readings x)
  | cancel (sole : x.Sole h) (made : h.key < x.handles) : Deed s h x (cancelLoops h x)
  | halt (sole : x.Sole h) (made : h.key < x.handles) (refs : (x.life h).loops = [])
    (loops : ∀ ref, x.loopAt h.key ref = none) : Deed s h x (x.halted h)
  | withdraw (registered : x.Registered h) (resting : x.status h ≠ .running)
    (settled : x.pending = none) : Deed s h x (x.withdrawn h)
  | reenroll (absent : x.registry.find? h.id = none)
    (unused : ∀ h', x.Registered h' → h'.key ≠ h.key) (made : h.key < x.handles)
    (wellMade : h.request.WellMade) (settled : x.pending = none) : Deed s h x (x.reenrolled h)

variable {s : Setup} {h : Handle} {x y : Engine}

theorem registered_insert (g : Registry Handle) (h h' : Handle) :
    (⟨g.entries.insert h.id h⟩ : Registry Handle).find? h'.id = some h' ↔
      h' = h ∨ h'.id ≠ h.id ∧ g.find? h'.id = some h' := by
  rw [Registry.find?_insert]
  by_cases hid : h'.id = h.id
  · simp only [hid, if_true, Option.some.injEq, ne_eq, not_true, false_and, or_false]
    exact eq_comm
  · have : h' ≠ h := fun he => hid (by rw [he])
    simp [hid, this]

theorem Sound.unused (hx : Sound s x) (new : x.handles ≤ h.key) :
    ∀ h', x.Registered h' → h'.key ≠ h.key := by
  intro h' hr
  have := hx.proper.made hr
  omega

/-- A request that is the only one of its kind is registered, or nothing is kept for it. -/
theorem Sound.registered_or_idle (hx : Sound s x) (hsole : x.Sole h) :
    x.Registered h ∨ ¬x.Registered h ∧ (x.share h).Idle := by
  cases hf : x.registry.find? h.id with
  | none =>
    refine Or.inr ⟨by simp [Registered, hf], hx.idle_of_absent hf fun h' hr hk => ?_⟩
    rw [hsole h' hr (Or.inl hk), Registered, hf] at hr
    cases hr
  | some h' =>
    have hr := hx.registered hf
    rw [hsole h' hr (Or.inr (hx.proper.ids hf))] at hr
    exact Or.inl hr

/-- Before a deed nobody else has the key or the id of the request, and neither after it. -/
theorem Deed.sole (hx : Sound s x) (d : Deed s h x y) : x.Sole h ∧ y.Sole h := by
  have insert {y : Engine} (hy : y.registry = ⟨x.registry.entries.insert h.id h⟩)
      (hsole : x.Sole h) : y.Sole h := by
    intro h' hr hk
    rw [Registered, hy, registered_insert] at hr
    rcases hr with rfl | ⟨-, hr⟩
    · rfl
    · exact hsole h' hr hk
  cases d with
  | enroll new absent =>
    have hsole := sole_of_absent absent (hx.unused (Nat.le_of_eq new.symm))
    exact ⟨hsole, insert rfl hsole⟩
  | begin registered =>
    refine ⟨hx.sole registered, ?_⟩
    rw [begin_frame]
    exact hx.sole registered
  | burst registered =>
    refine ⟨hx.sole registered, ?_⟩
    rw [burst_eq]
    exact hx.sole registered
  | cancel sole => exact ⟨sole, sole⟩
  | halt sole => exact ⟨sole, sole⟩
  | withdraw registered =>
    refine ⟨hx.sole registered, fun h' hr hk => ?_⟩
    refine hx.sole registered h' ?_ hk
    simp only [Registered, withdrawn, Registry.find?_erase] at hr
    split at hr
    · cases hr
    · exact hr
  | reenroll absent unused =>
    have hsole := sole_of_absent absent unused
    exact ⟨hsole, insert rfl hsole⟩

/-! ## Frames of deeds -/

theorem loopAt_congr {e e' : Engine} {key : Nat} (hl : e'.loops = e.loops) :
    e'.loopAt key = e.loopAt key := by
  funext ref
  simp only [loopAt, hl]

theorem loopAt_begin (hx : Sound s x) (readings : List Snapshot.Reading) (key ref : Nat) :
    (begin s h readings x).loopAt key ref =
      if h.request.mode = .stream ∧ key = h.key ∧ x.loopsStarted ≤ ref ∧
          ref < x.loopsStarted + h.request.subscriptions.length then
        (h.request.subscriptions[ref - x.loopsStarted]?).map fun sub =>
          (newLoop s h ((x.life h).generation + 1) x sub).still
      else x.loopAt key ref := by
  simp only [loopAt, loops_begin]
  by_cases hin : h.request.mode = .stream ∧ x.loopsStarted ≤ ref ∧
      ref < x.loopsStarted + h.request.subscriptions.length
  · have hnone : x.loops.find? ref = none := by
      cases hf : x.loops.find? ref with
      | none => rfl
      | some l => exact absurd (hx.numbered hf) (Nat.not_lt.2 hin.2.1)
    by_cases hk : key = h.key
    · simp only [hin, hk, and_self, if_true]
      cases h.request.subscriptions[ref - x.loopsStarted]? <;> simp [newLoop, Option.filter]
    · simp only [hin, hk, and_self, if_true, false_and, and_false, if_false, hnone]
      cases h.request.subscriptions[ref - x.loopsStarted]? <;>
        simp [newLoop, Option.filter, Ne.symm hk]
  · have hin' : ¬(h.request.mode = .stream ∧ key = h.key ∧ x.loopsStarted ≤ ref ∧
        ref < x.loopsStarted + h.request.subscriptions.length) :=
      fun hc => hin ⟨hc.1, hc.2.2⟩
    rw [if_neg hin, if_neg hin']

theorem serves_toldToEnd {h' : Handle} {l : SamplingLoop} {sub : Subscription} :
    (toldToEnd h x l).Serves s h' sub ↔ l.Serves s h' sub :=
  ⟨fun hl => ⟨(owner_toldToEnd ..).symm.trans hl.owner, (plan_toldToEnd ..).symm.trans hl.plan⟩,
    fun hl => ⟨(owner_toldToEnd ..).trans hl.owner, (plan_toldToEnd ..).trans hl.plan⟩⟩

theorem loopAt_cancelLoops (key ref : Nat) :
    (cancelLoops h x).loopAt key ref = (x.loopAt key ref).map (toldToEnd h x) := by
  simp only [loopAt, find?_cancelLoops]
  cases x.loops.find? ref with
  | none => rfl
  | some l =>
    have hstill : (toldToEnd h x l).still = toldToEnd h x l.still := by
      unfold toldToEnd SamplingLoop.still
      by_cases hc : l.owner = h.key ∧ l.generation = (x.life h).generation <;> simp [hc]
    by_cases hk : l.owner = key <;> simp [Option.filter, hk, hstill]

/-- Deeds take no time. -/
theorem Deed.now (d : Deed s h x y) : y.now = x.now := by
  cases d with
  | begin => rw [begin_frame]; rfl
  | burst => rw [burst_eq]
  | enroll | cancel | halt | withdraw | reenroll => rfl

theorem Deed.frame (hx : Sound s x) (d : Deed s h x y) : Frame h x y := by
  have quiet : ∃ ns, x.datastore.sent = x.datastore.sent ++ ns ∧
      ∀ n ∈ ns, n.event.request = h.id ∧ x.Registered h := sent_same rfl
  cases d with
  | enroll =>
    refine ⟨fun hid => ?_, fun hk => ?_, fun _ => rfl, fun _ => rfl, quiet, Nat.le_succ _, rfl, rfl⟩
    · exact (Registry.find?_insert ..).trans (if_neg hid)
    · exact (find?_setLife ..).trans (if_neg hk)
  | reenroll =>
    refine ⟨fun hid => ?_, fun _ => rfl, fun _ => rfl, fun _ => rfl, quiet, Nat.le_refl _, rfl, rfl⟩
    exact (Registry.find?_insert ..).trans (if_neg hid)
  | withdraw =>
    refine ⟨fun hid => ?_, fun _ => rfl, fun _ => rfl, fun _ => rfl, quiet, Nat.le_refl _, rfl, rfl⟩
    exact (Registry.find?_erase ..).trans (if_neg hid)
  | @begin readings registered =>
    obtain ⟨ns, hsent, hns⟩ := Datastore.sendAll_sent x.now s.topic
      (snapshotEvents ⟨!h.request.updatesOnly, false⟩ h readings x) x.datastore
    rw [begin_frame]
    refine ⟨fun _ => rfl, fun hk => ?_, fun hk => ?_, fun hr => ?_, ⟨ns, hsent, fun n hn => ?_⟩,
      Nat.le_refl _, rfl, rfl⟩
    · exact (find?_lives_begin ..).trans (if_neg hk)
    · funext ref
      refine (loopAt_begin hx readings _ ref).trans (if_neg fun hc => hk hc.2.1)
    · funext sid
      exact Snapshot.bucket_takeAll_of_notMem _ _ _ readings _ fun hc => hr hc.1
    · exact ⟨request_snapshotEvents (hns n hn), registered⟩
  | @burst readings registered =>
    obtain ⟨ns, hsent, hns⟩ := Datastore.sendAll_sent x.now s.topic
      (snapshotEvents ⟨true, true⟩ h readings x) x.datastore
    rw [burst_eq]
    refine ⟨fun _ => rfl, fun _ => rfl, fun _ => rfl, fun hr => ?_, ⟨ns, hsent, fun n hn => ?_⟩,
      Nat.le_refl _, rfl, rfl⟩
    · funext sid
      exact Snapshot.bucket_takeAll_of_notMem _ _ _ readings _ fun hc => hr hc.1
    · exact ⟨request_snapshotEvents (hns n hn), registered⟩
  | cancel =>
    refine ⟨fun _ => rfl, fun hk => ?_, fun {k} hk => ?_, fun _ => rfl, quiet, Nat.le_refl _, rfl, rfl⟩
    · exact (find?_setLife ..).trans (if_neg hk)
    · -- loops with another owner are not told
      funext ref
      rw [loopAt_cancelLoops]
      cases hl : x.loopAt k ref with
      | none => rfl
      | some l =>
        obtain ⟨l', -, howner, rfl⟩ := loopAt_eq_some.1 hl
        have hne : ¬(l'.still.owner = h.key ∧ l'.still.generation = (x.life h).generation) :=
          fun hc => hk (howner.symm.trans hc.1)
        simp only [Option.map_some, toldToEnd, hne, if_false]
  | halt =>
    refine ⟨fun _ => rfl, fun hk => ?_, fun _ => rfl, fun hr => ?_, quiet, Nat.le_refl _, rfl, rfl⟩
    · exact (find?_setLife ..).trans (if_neg hk)
    · funext sid
      exact (Cache.bucket_removeRequest ..).trans (if_neg hr)

/-! ## What deeds make of a share -/

theorem idle_enrolled (hi : (x.share h).Idle) : ((x.enrolled h).share h).Idle := by
  refine ⟨?_, ?_, hi.loops, hi.buckets⟩
  · change ((x.enrolled h).life h).status ≠ _
    rw [life_enrolled]
    simp
  · change ((x.enrolled h).life h).loops = _
    rw [life_enrolled]
    exact hi.refs

theorem idle_halted (hrefs : (x.life h).loops = []) (hloops : ∀ ref, x.loopAt h.key ref = none) :
    ((x.halted h).share h).Idle := by
  refine ⟨?_, ?_, hloops, fun sid => (Cache.bucket_removeRequest ..).trans (if_pos rfl)⟩
  · change ((x.halted h).life h).status ≠ _
    rw [life_halted]
    simp
  · change ((x.halted h).life h).loops = _
    rw [life_halted]
    exact hrefs

/-- Telling loops to end leaves nothing to be told. -/
theorem fit_cancelLoops (hf : (x.share h).Fit s h) : ((cancelLoops h x).share h).Fit s h := by
  have hlife : ((cancelLoops h x).share h).life = { (x.share h).life with loops := [] } :=
    life_cancelLoops h x
  have hrefs : ((cancelLoops h x).share h).life.loops = [] := by rw [hlife]
  have hloops (ref : Nat) : ((cancelLoops h x).share h).loops ref =
      ((x.share h).loops ref).map (toldToEnd h x) := loopAt_cancelLoops h.key ref
  cases hf with
  | idle i =>
    refine .idle ⟨?_, hrefs, fun ref => by rw [hloops, i.loops]; rfl, i.buckets⟩
    rw [hlife]
    exact i.status
  | plain hr hm _ hn hw =>
    exact .plain (by rw [hlife]; exact hr) hm hrefs (fun ref => by rw [hloops, hn]; rfl) hw
  | looping hr hm hw hg =>
    refine .ending (by rw [hlife]; exact hr) hm hrefs hw fun {ref l} hl => ?_
    rw [hloops, Option.map_eq_some_iff] at hl
    obtain ⟨l₀, hl₀, rfl⟩ := hl
    obtain ⟨⟨sub, hsub, hserves⟩, hgen, -⟩ := hg.loop hl₀
    exact ⟨cancelled_toldToEnd (Or.inr ⟨hserves.owner, hgen⟩), sub, hsub, serves_toldToEnd.2 hserves⟩
  | ending hr hm _ hw ht =>
    refine .ending (by rw [hlife]; exact hr) hm hrefs hw fun {ref l} hl => ?_
    rw [hloops, Option.map_eq_some_iff] at hl
    obtain ⟨l₀, hl₀, rfl⟩ := hl
    obtain ⟨hc, sub, hsub, hserves⟩ := ht hl₀
    exact ⟨cancelled_toldToEnd (Or.inl hc), sub, hsub, serves_toldToEnd.2 hserves⟩

/-- The buckets that a start leaves are the leaves that were read. -/
theorem bucket_begin {readings : List Snapshot.Reading} (hi : (x.share h).Idle)
    (hw : h.request.WellMade) (hread : ReadFor h readings) {reading : Snapshot.Reading}
    (hm : reading ∈ readings) :
    (begin s h readings x).cache.bucket h.id reading.1 = reading.2.map fun _ v => ⟨v, x.now⟩ := by
  rw [begin_frame]
  exact Snapshot.bucket_takeAll _ _ _ readings _ (hread ▸ hw.distinct) hm (hi.buckets _)

/-- A start from nothing gives a request everything it needs while it runs. -/
theorem fit_begin (hx : Sound s x) {readings : List Snapshot.Reading} (hi : (x.share h).Idle)
    (hread : ReadFor h readings) : ((begin s h readings x).share h).Fit s h := by
  have hwithin : ((begin s h readings x).share h).Within h := by
    intro sid hsid
    change (begin s h readings x).cache.bucket h.id sid = _
    rw [begin_frame]
    refine (Snapshot.bucket_takeAll_of_notMem _ _ _ readings _ fun hc => hsid ?_).trans
      (hi.buckets sid)
    rw [← hread]
    exact hc.2
  have hrefs : (x.life h).loops = [] := hi.refs
  by_cases hm : h.request.mode = .stream
  · have hlife : ((begin s h readings x).share h).life =
        ⟨.running, (x.life h).generation + 1, nextLoops h x⟩ := by
      refine (life_begin s h readings x).trans ?_
      rw [if_pos hm, hrefs, List.nil_append]
    have hloops (ref : Nat) : ((begin s h readings x).share h).loops ref =
        if x.loopsStarted ≤ ref ∧ ref < x.loopsStarted + h.request.subscriptions.length then
          (h.request.subscriptions[ref - x.loopsStarted]?).map fun sub =>
            (newLoop s h ((x.life h).generation + 1) x sub).still
        else none := by
      refine (loopAt_begin hx readings h.key ref).trans ?_
      rw [show x.loopAt h.key ref = none from hi.loops ref]
      simp only [hm, true_and]
    refine .looping (by rw [hlife]) hm hwithin ⟨fun {i sub} hsub => ?_, ?_, ?_, fun {ref l} hl => ?_⟩
    · have hlt : i < h.request.subscriptions.length := (List.getElem?_eq_some_iff.1 hsub).1
      refine ⟨x.loopsStarted + i, (newLoop s h ((x.life h).generation + 1) x sub).still, ?_, ?_,
        ⟨rfl, rfl⟩, by rw [hlife]; rfl, rfl⟩
      · rw [hlife]
        simp [nextLoops, hlt]
      · rw [hloops, if_pos (by omega), Nat.add_sub_cancel_left, hsub, Option.map_some]
    · rw [hlife]
      simp [nextLoops]
    · rw [hlife]
      exact List.pairwise_map.2 (List.nodup_range.imp fun {a b} hab heq => hab (by omega))
    · rw [hloops] at hl
      split at hl
      · next hin =>
        rw [hlife]
        refine List.mem_map.2 ⟨ref - x.loopsStarted, List.mem_range.2 (by omega), ?_⟩
        omega
      · cases hl
  · have hlife : ((begin s h readings x).share h).life = { x.life h with status := .running } := by
      refine (life_begin s h readings x).trans ?_
      rw [if_neg hm]
    refine .plain (by rw [hlife]) hm (by rw [hlife]; exact hrefs) (fun ref => ?_) hwithin
    refine (loopAt_begin hx readings h.key ref).trans ?_
    rw [if_neg fun hc => hm hc.1]
    exact hi.loops ref

theorem fit_burst {readings : List Snapshot.Reading} (hf : (x.share h).Fit s h)
    (running : x.status h = .running) (hread : ReadFor h readings) :
    ((burst s h readings x).share h).Fit s h := by
  rw [burst_eq]
  refine hf.of_within rfl rfl running fun sid hsid => ?_
  refine (Snapshot.bucket_takeAll_of_notMem _ _ _ readings _ fun hc => hsid ?_).trans
    (hf.within sid hsid)
  rw [← hread]
  exact hc.2

/-! ## Deeds keep an engine sound -/

theorem Deed.sound (hx : Sound s x) (d : Deed s h x y) : Sound s y := by
  have hf := d.frame hx
  obtain ⟨hsole, hsole'⟩ := d.sole hx
  cases d with
  | enroll new absent wellMade =>
    have hi := idle_enrolled (hx.idle_of_absent absent (hx.unused (Nat.le_of_eq new.symm)))
    refine hx.of_frame hf hsole hsole' (new ▸ Nat.lt_succ_self _) ?_ (.idle hi) (fun _ => hi)
      hx.numbered hx.tidy
    exact (hx.proper.mono (Nat.le_succ _)).insert (new ▸ Nat.lt_succ_self _) wellMade
      fun hr => hx.unused (Nat.le_of_eq new.symm) _ (hx.registered hr)
  | @begin readings registered resting read =>
    have hi := (hx.fit registered).idle_of_status resting
    have hr' : (Engine.begin s h readings x).Registered h := by
      rw [begin_frame]
      exact registered
    have hmade := hx.proper.made registered
    refine hx.of_frame hf hsole hsole' ?_ ?_ (fit_begin hx hi read) (fun hn => absurd hr' hn)
      (fun {ref l} hl => ?_) ?_
    · rw [begin_frame]; exact hmade
    · rw [begin_frame]; exact hx.proper
    · rw [loopsStarted_begin]
      rw [loops_begin] at hl
      split at hl
      · next hin => rw [if_pos hin.1]; exact hin.2.2
      · exact Nat.lt_of_lt_of_le (hx.numbered hl) (Nat.le_add_right ..)
    · rw [begin_frame]; exact Snapshot.tidy_takeAll _ _ _ _ _ hx.tidy
  | @burst readings registered running mode read =>
    have hr' : (Engine.burst s h readings x).Registered h := by
      rw [burst_eq]
      exact registered
    have hmade := hx.proper.made registered
    refine hx.of_frame hf hsole hsole' ?_ ?_ (fit_burst (hx.fit registered) running read)
      (fun hn => absurd hr' hn) ?_ ?_
    · rw [burst_eq]; exact hmade
    · rw [burst_eq]; exact hx.proper
    · rw [burst_eq]; exact hx.numbered
    · rw [burst_eq]; exact Snapshot.tidy_takeAll _ _ _ _ _ hx.tidy
  | cancel sole made =>
    have hnumbered {ref l} (hl : (cancelLoops h x).loops.find? ref = some l) :
        ref < (cancelLoops h x).loopsStarted := by
      rw [find?_cancelLoops, Option.map_eq_some_iff] at hl
      obtain ⟨l₀, hl₀, -⟩ := hl
      exact hx.numbered hl₀
    rcases hx.registered_or_idle hsole with hr | ⟨hn, hi⟩
    · exact hx.of_frame hf hsole hsole' made hx.proper (fit_cancelLoops (hx.fit hr))
        (fun hn => absurd hr hn) hnumbered hx.tidy
    · have hfit := fit_cancelLoops (s := s) (.idle hi)
      refine hx.of_frame hf hsole hsole' made hx.proper hfit (fun _ => ?_) hnumbered hx.tidy
      refine hfit.idle_of_status ?_
      change ((cancelLoops h x).life h).status ≠ _
      rw [life_cancelLoops]
      exact hi.status
  | halt sole made refs loops =>
    have hi := idle_halted refs loops
    exact hx.of_frame hf hsole hsole' made hx.proper (.idle hi) (fun _ => hi) hx.numbered
      (hx.tidy.removeRequest _)
  | withdraw registered resting =>
    have hi := (hx.fit registered).idle_of_status resting
    exact hx.of_frame hf hsole hsole' (hx.proper.made registered) (hx.proper.erase _) (.idle hi)
      (fun _ => hi) hx.numbered hx.tidy
  | reenroll absent unused made wellMade =>
    have hi := hx.idle_of_absent absent unused
    exact hx.of_frame hf hsole hsole' made
      (hx.proper.insert made wellMade fun hr => unused _ (hx.registered hr)) (.idle hi)
      (fun _ => hi) hx.numbered hx.tidy

/-! ## Effects -/

/-- A change that a call can make: a deed for a request that it is entitled to touch, or a change of
what is pending or held. Only a call that is entitled to touch everything empties the registry. -/
inductive Effect (s : Setup) (T : Handle → Prop) (x : Engine) : Engine → Prop where
  | on {h : Handle} {y : Engine} (entitled : T h) (deed : Deed s h x y) : Effect s T x y
  | nothing : Effect s T x x
  | freed (l : Lock) : Effect s T x (x.free l)
  | await (p : Pending) (settled : x.pending = none) : Effect s T x { x with pending := some p }
  | settle : Effect s T x { x with pending := none }
  | clear (all : ∀ h, T h) (resting : ∀ h, x.Registered h → x.status h ≠ .running)
    (settled : x.pending = none) : Effect s T x { x with registry := .empty }

namespace Effect

variable {T T' : Handle → Prop}

theorem mono (ht : ∀ h, T h → T' h) (f : Effect s T x y) : Effect s T' x y := by
  cases f with
  | on entitled deed => exact .on (ht _ entitled) deed
  | nothing => exact .nothing
  | freed l => exact .freed l
  | await p settled => exact .await p settled
  | settle => exact .settle
  | clear all resting settled => exact .clear (fun h => ht h (all h)) resting settled

theorem now (f : Effect s T x y) : y.now = x.now := by
  cases f with
  | on _ deed => exact deed.now
  | nothing | freed | await | settle | clear => rfl

theorem sound (hx : Sound s x) (f : Effect s T x y) : Sound s y := by
  cases f with
  | on _ deed => exact deed.sound hx
  | nothing => exact hx
  | freed | await | settle => exact hx.of_same rfl rfl rfl rfl (fun _ => rfl) hx.numbered
  | clear _ resting =>
    have hi {h : Handle} (hr : x.Registered h) := (hx.fit hr).idle_of_status (resting h hr)
    refine ⟨.empty _, fun hr => (by cases hr), fun {k} _ => ?_, fun {r} _ sid => ?_, hx.unborn,
      hx.numbered, hx.tidy⟩
    · change (∀ l, x.lives.find? k = some l → l.status ≠ .running ∧ l.loops = []) ∧
        ∀ ref, x.loopAt k ref = none
      by_cases hk : ∃ h, x.Registered h ∧ h.key = k
      · obtain ⟨h, hr, rfl⟩ := hk
        refine ⟨fun l hl => ?_, (hi hr).loops⟩
        have hlife : x.life h = l := by rw [life, hl]; rfl
        exact ⟨hlife ▸ (hi hr).status, hlife ▸ (hi hr).refs⟩
      · exact hx.stray fun h hr hk' => hk ⟨h, hr, hk'⟩
    · change x.cache.bucket r sid = .empty
      cases hf : x.registry.find? r with
      | none => exact hx.uncached hf sid
      | some h =>
        obtain rfl := hx.proper.ids hf
        exact (hi hf).buckets sid

/-- Only requests that are registered, and that the call may touch, are reported on. -/
theorem sent (hx : Sound s x) (f : Effect s T x y) :
    ∃ ns, y.datastore.sent = x.datastore.sent ++ ns ∧
      ∀ n ∈ ns, ∃ h, T h ∧ x.Registered h ∧ n.event.request = h.id := by
  cases f with
  | on entitled deed =>
    obtain ⟨ns, hs, hn⟩ := (deed.frame hx).sent
    exact ⟨ns, hs, fun n hm => ⟨_, entitled, (hn n hm).2, (hn n hm).1⟩⟩
  | nothing | freed | await | settle | clear => exact sent_same rfl

/-- A registered request that a call may not touch keeps its registration and its share. -/
theorem spares (hx : Sound s x) (f : Effect s T x y) (hr : x.Registered h)
    (hno : ∀ h', T h' → h'.id ≠ h.id) : y.Registered h ∧ y.share h = x.share h := by
  cases f with
  | @on h' _ entitled deed =>
    have hid : h.id ≠ h'.id := Ne.symm (hno h' entitled)
    have hkey : h.key ≠ h'.key := fun hk =>
      hid (by rw [(deed.sole hx).1 h hr (Or.inl hk)])
    have hf := deed.frame hx
    exact ⟨(hf.registered hid).2 hr, hf.share hkey hid⟩
  | nothing | freed | await | settle => exact ⟨hr, rfl⟩
  | clear all => exact absurd rfl (hno h (all h))

/-- While a transaction is pending nothing is registered or deregistered. -/
theorem registry_of_pending (f : Effect s T x y) {p : Pending} (hp : x.pending = some p) :
    y.registry = x.registry ∧ y.handles = x.handles := by
  have unsettled (hn : x.pending = none) : False := by rw [hp] at hn; cases hn
  cases f with
  | on _ deed =>
    cases deed with
    | enroll _ _ _ settled => exact (unsettled settled).elim
    | begin => rw [begin_frame]; exact ⟨rfl, rfl⟩
    | burst => rw [burst_eq]; exact ⟨rfl, rfl⟩
    | cancel => exact ⟨rfl, rfl⟩
    | halt => exact ⟨rfl, rfl⟩
    | withdraw _ _ settled => exact (unsettled settled).elim
    | reenroll _ _ _ _ settled => exact (unsettled settled).elim
  | nothing | freed | await | settle => exact ⟨rfl, rfl⟩
  | clear _ _ settled => exact (unsettled settled).elim

end Effect

end Telemetry.Engine
