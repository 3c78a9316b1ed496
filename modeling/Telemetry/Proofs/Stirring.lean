import Telemetry.Proofs.Course
import Telemetry.Proofs.Deeds

/-!
# What happens without a call

Between the steps of a call time passes, data change, loops sample and loops end. None of that
touches what calls decide upon, the `Core` of an engine, and all of it keeps the engine sound.

* `Stir.core`, `Stir.sound`: the core stays as it is, and the engine sound.
* `Stir.loopAt`: no loop is started or told anything.
* `Stir.share`: what is kept for a request changes only by samples of its own loops.
* `Stir.sent`: only registered requests are reported on.
-/
namespace Telemetry

namespace Engine

/-- What calls decide upon. -/
structure Core where
  registry : Registry Handle
  lives : SortedMap Nat Life
  handles : Nat
  pending : Option Pending
  held : List Lock

def core (e : Engine) : Core where
  registry := e.registry
  lives := e.lives
  handles := e.handles
  pending := e.pending
  held := e.held

variable {s : Setup} {e e' : Engine}

theorem registered_of_core (hc : e'.core.registry = e.core.registry) (h : Handle) :
    e'.Registered h ↔ e.Registered h := by
  change e'.registry = e.registry at hc
  unfold Registered
  rw [hc]

theorem life_of_core (hc : e'.core.lives = e.core.lives) (h : Handle) : e'.life h = e.life h := by
  change e'.lives = e.lives at hc
  unfold life
  rw [hc]

theorem sole_of_core (hc : e'.core.registry = e.core.registry) {h : Handle} (hs : e.Sole h) :
    e'.Sole h :=
  fun h' hr => hs h' ((registered_of_core hc h').1 hr)

theorem sampled_eq (p : Sampling) (a : Except Error Leaves) :
    e.sampled s p a = { e with
      cache := (e.sampled s p a).cache, datastore := (e.sampled s p a).datastore } := by
  cases a with
  | error => rfl
  | ok leaves => simp only [sampled, observe_eq]

theorem sampled_changesAt (p : Sampling) (a : Except Error Leaves) :
    Cache.ChangesAt p.request p.subscription e.cache (e.sampled s p a).cache := by
  cases a with
  | error => exact .refl _
  | ok leaves =>
    simp only [sampled, observe_eq]
    exact Sampling.observe_changesAt ..

theorem sent_sampled (p : Sampling) (a : Except Error Leaves) :
    ∃ ns, (e.sampled s p a).datastore.sent = e.datastore.sent ++ ns ∧
      ∀ n ∈ ns, n.event.about p.request p.subscription := by
  cases a with
  | error => exact sent_same rfl
  | ok leaves =>
    obtain ⟨ns, hs, hn⟩ := Datastore.sendAll_sent e.now s.topic
      (p.observe e.now leaves e.cache).2 e.datastore
    refine ⟨ns, ?_, fun n hm => Sampling.about_observe _ _ _ _ (hn n hm)⟩
    simp only [sampled, observe_eq, hs]

/-! ## Loops and their requests -/

/-- Every loop belongs to a registered STREAM request that runs, and samples one of its
subscriptions. -/
theorem Sound.owner (hs : Sound s e) {ref : Nat} {l : SamplingLoop}
    (live : e.loops.find? ref = some l) :
    ∃ h, e.Registered h ∧ e.loopAt h.key ref = some l.still ∧ e.status h = .running ∧
      h.request.mode = .stream ∧ ∃ sub ∈ h.request.subscriptions, l.Serves s h sub := by
  by_cases hk : ∃ h, e.Registered h ∧ h.key = l.owner
  · obtain ⟨h, hr, hkey⟩ := hk
    have hl : e.loopAt h.key ref = some l.still := loopAt_eq_some.2 ⟨l, live, hkey.symm, rfl⟩
    obtain ⟨hrun, hm, sub, hsub, hserves⟩ := (hs.fit hr).serves hl
    exact ⟨h, hr, hl, hrun, hm, sub, hsub, hserves.of_still⟩
  · have hnone := (hs.stray fun h hr hkey => hk ⟨h, hr, hkey⟩).2 ref
    exact absurd rfl (loopAt_eq_none.1 hnone l live)

theorem endLoop_eq {ref : Nat} {l : SamplingLoop} (live : e.loops.find? ref = some l) :
    e.endLoop ref = { e with
      loops := e.loops.erase ref
      cache := e.cache.removeSubscription l.plan.request l.plan.subscription } := by
  simp only [endLoop, live]

theorem loopAt_endLoop {ref : Nat} {l : SamplingLoop} (live : e.loops.find? ref = some l)
    (k ref' : Nat) :
    (e.endLoop ref).loopAt k ref' = if ref' = ref then none else e.loopAt k ref' := by
  rw [endLoop_eq live]
  simp only [loopAt, SortedMap.find?_erase]
  split <;> rfl

/-- A new deadline is not seen in what is kept for a request. -/
theorem loopAt_due {ref : Nat} {l : SamplingLoop} (live : e.loops.find? ref = some l)
    (deadline k : Nat) :
    ({ e with loops := e.loops.insert ref { l with deadline } } : Engine).loopAt k = e.loopAt k := by
  funext ref'
  simp only [loopAt, SortedMap.find?_insert]
  split
  · next h =>
    rw [h, live]
    by_cases hk : l.owner = k <;> simp [Option.filter, hk, SamplingLoop.still]
  · rfl

end Engine

namespace Stir

open Engine

variable {s : Setup} {e e' : Engine} {ns : List Note}

theorem core (hst : Stir s e ns e') : e'.core = e.core := by
  cases hst with
  | wait => rfl
  | data => rfl
  | due => rfl
  | tick => rw [sampled_eq]; rfl
  | ends live => rw [endLoop_eq live]; rfl

theorem now (hst : Stir s e ns e') : e.now ≤ e'.now := by
  cases hst with
  | wait later => exact later
  | data => exact Nat.le_refl _
  | due => exact Nat.le_refl _
  | tick => exact Nat.le_of_eq (by rw [sampled_eq])
  | ends live => exact Nat.le_of_eq (by rw [endLoop_eq live])

/-- No loop is started or told anything. -/
theorem loopAt (hst : Stir s e ns e') {k ref : Nat} {l : SamplingLoop}
    (hl : e'.loopAt k ref = some l) : e.loopAt k ref = some l := by
  cases hst with
  | wait => exact hl
  | data => exact hl
  | due live => rwa [loopAt_due live] at hl
  | tick => rw [sampled_eq] at hl; exact hl
  | ends live =>
    rw [loopAt_endLoop live] at hl
    split at hl
    · cases hl
    · exact hl

/-- What a sample or the end of a loop leaves alone. -/
theorem frame_sampled {h : Handle} (hr : e.Registered h) {l : SamplingLoop}
    {sub : Subscription} (hserves : l.Serves s h sub) (a : Except Error Leaves) :
    Frame h e (e.sampled s l.plan a) := by
  have hreq : l.plan.request = h.id := by rw [hserves.plan]; rfl
  obtain ⟨ns, hsent, hns⟩ := sent_sampled (s := s) (e := e) l.plan a
  refine ⟨?_, ?_, ?_, fun hid => ?_, ⟨ns, hsent, fun n hn => ⟨?_, hr⟩⟩, ?_, ?_, ?_⟩
  · rw [sampled_eq]; exact fun _ => rfl
  · rw [sampled_eq]; exact fun _ => rfl
  · rw [sampled_eq]; exact fun _ => rfl
  · funext sid
    exact (sampled_changesAt l.plan a).other _ _ fun hc => hid (hc.1.trans hreq)
  · rw [(hns n hn).request, hreq]
  · exact Nat.le_of_eq (by rw [sampled_eq])
  · rw [sampled_eq]
  · rw [sampled_eq]

theorem frame_endLoop {h : Handle} {ref : Nat} {l : SamplingLoop}
    (live : e.loops.find? ref = some l) {sub : Subscription} (hserves : l.Serves s h sub) :
    Frame h e (e.endLoop ref) := by
  have hreq : l.plan.request = h.id := by rw [hserves.plan]; rfl
  refine ⟨?_, ?_, fun {k} hk => ?_, fun hid => ?_, ⟨[], ?_⟩, ?_, ?_, ?_⟩
  · rw [endLoop_eq live]; exact fun _ => rfl
  · rw [endLoop_eq live]; exact fun _ => rfl
  · funext ref'
    rw [loopAt_endLoop live]
    split
    · next heq =>
      subst heq
      refine (loopAt_eq_none.2 fun l' hl' hk' => hk ?_).symm
      rw [live] at hl'
      cases hl'
      rw [← hk', hserves.owner]
    · rfl
  · funext sid
    rw [endLoop_eq live]
    exact (Cache.bucket_removeSubscription ..).trans (if_neg fun hc => hid (hc.1.trans hreq))
  · rw [endLoop_eq live]; simp
  · exact Nat.le_of_eq (by rw [endLoop_eq live])
  · rw [endLoop_eq live]
  · rw [endLoop_eq live]

/-- A sample of a loop that is there keeps an engine sound. -/
theorem sound_sampled (hs : Sound s e) {ref : Nat} {l : SamplingLoop}
    (live : e.loops.find? ref = some l) (a : Except Error Leaves) :
    Sound s (e.sampled s l.plan a) := by
  obtain ⟨h, hr, -, hrun, -, sub, hsub, hserves⟩ := hs.owner live
  have hf := frame_sampled hr hserves a
  have hr' : (e.sampled s l.plan a).Registered h := by rw [sampled_eq]; exact hr
  refine hs.of_frame hf (hs.sole hr) ?_ ?_ ?_ ?_ (fun hn => absurd hr' hn) ?_ ?_
  · rw [sampled_eq]; exact hs.sole hr
  · rw [sampled_eq]; exact hs.proper.made hr
  · rw [sampled_eq]; exact hs.proper
  · refine (hs.fit hr).of_within ?_ ?_ hrun fun sid hsid => ?_
    · rw [sampled_eq]; rfl
    · rw [sampled_eq]; rfl
    · refine ((sampled_changesAt l.plan a).other _ _ fun hc => hsid ?_).trans
        ((hs.fit hr).within sid hsid)
      rw [hc.2, hserves.plan]
      exact List.mem_map_of_mem hsub
  · rw [sampled_eq]; exact hs.numbered
  · exact (sampled_changesAt l.plan a).tidy hs.tidy

/-- So does the end of a loop that was told to end. -/
theorem sound_endLoop (hs : Sound s e) {ref : Nat} {l : SamplingLoop}
    (live : e.loops.find? ref = some l) (told : l.cancelled = true) : Sound s (e.endLoop ref) := by
  obtain ⟨h, hr, hl, -, -, sub, hsub, hserves⟩ := hs.owner live
  have hf := frame_endLoop live hserves
  have hr' : (e.endLoop ref).Registered h := by rw [endLoop_eq live]; exact hr
  refine hs.of_frame hf (hs.sole hr) ?_ ?_ ?_ ?_ (fun hn => absurd hr' hn) ?_ ?_
  · rw [endLoop_eq live]; exact hs.sole hr
  · rw [endLoop_eq live]; exact hs.proper.made hr
  · rw [endLoop_eq live]; exact hs.proper
  · have hlife : ((e.endLoop ref).share h).life = (e.share h).life := by
      rw [endLoop_eq live]; rfl
    obtain ⟨hrun, hm, hrefs, hw, ht⟩ := (hs.fit hr).ending_of_told hl told
    refine .ending (hlife ▸ hrun) hm (hlife ▸ hrefs) (fun sid hsid => ?_) fun {ref' l'} hl' => ?_
    · change (e.endLoop ref).cache.bucket h.id sid = _
      rw [endLoop_eq live]
      refine (Cache.bucket_removeSubscription ..).trans ?_
      split
      · rfl
      · exact hw sid hsid
    · refine @ht ref' l' ?_
      change (e.endLoop ref).loopAt h.key ref' = _ at hl'
      rw [loopAt_endLoop live] at hl'
      split at hl'
      · cases hl'
      · exact hl'
  · rw [endLoop_eq live]
    intro ref' l' hl'
    rw [SortedMap.find?_erase] at hl'
    split at hl'
    · cases hl'
    · exact hs.numbered hl'
  · rw [endLoop_eq live]
    exact hs.tidy.removeSubscription _ _

theorem sound (hs : Sound s e) (hst : Stir s e ns e') : Sound s e' := by
  cases hst with
  | wait | data => exact hs.of_same rfl rfl rfl rfl (fun _ => rfl) hs.numbered
  | @due ref l live deadline =>
    refine hs.of_same rfl rfl rfl rfl (loopAt_due live deadline) fun {ref' l'} hl' => ?_
    rw [SortedMap.find?_insert] at hl'
    split at hl'
    · next heq => rw [heq]; exact hs.numbered live
    · exact hs.numbered hl'
  | tick live expired => exact sound_sampled hs live _
  | ends live told => exact sound_endLoop hs live told

/-- While no loop of a registered request was told to end, what is kept for it changes only by
their samples, and those change only the leaves. -/
theorem share (hs : Sound s e) (hst : Stir s e ns e') {h : Handle} (hr : e.Registered h)
    (untold : ∀ {ref l}, e.loopAt h.key ref = some l → l.cancelled = false) :
    e'.loopAt h.key = e.loopAt h.key ∧
      (¬Note.Ticked h.key ns → e'.cache.bucket h.id = e.cache.bucket h.id) := by
  -- the frame of a change that concerns another request
  have other {h' : Handle} (hr' : e.Registered h') (hf : Frame h' e e') (hne : h ≠ h') :
      e'.loopAt h.key = e.loopAt h.key ∧ e'.cache.bucket h.id = e.cache.bucket h.id := by
    have hkey : h.key ≠ h'.key := fun hk => hne (hs.sole hr' h hr (Or.inl hk))
    have hid : h.id ≠ h'.id := fun hid => hne (hs.sole hr' h hr (Or.inr hid))
    exact ⟨hf.loops hkey, hf.cache hid⟩
  cases hst with
  | wait => exact ⟨rfl, fun _ => rfl⟩
  | data => exact ⟨rfl, fun _ => rfl⟩
  | due live deadline => exact ⟨loopAt_due live deadline h.key, fun _ => rfl⟩
  | @tick ref l live expired =>
    obtain ⟨h', hr', hl, -, -, sub, -, hserves⟩ := hs.owner live
    by_cases hne : h = h'
    · subst hne
      refine ⟨by rw [sampled_eq]; rfl, fun hno => ?_⟩
      exact absurd ⟨l, _, _, _, hserves.owner, List.mem_singleton.2 rfl⟩ hno
    · obtain ⟨hloops, hc⟩ := other hr' (frame_sampled hr' hserves _) hne
      exact ⟨hloops, fun _ => hc⟩
  | @ends ref l live told =>
    obtain ⟨h', hr', hl, -, -, sub, -, hserves⟩ := hs.owner live
    by_cases hne : h = h'
    · subst hne
      have hfalse : l.still.cancelled = false := untold hl
      rw [show l.still.cancelled = true from told] at hfalse
      cases hfalse
    · obtain ⟨hloops, hc⟩ := other hr' (frame_endLoop live hserves) hne
      exact ⟨hloops, fun _ => hc⟩

/-- Only registered requests are reported on. -/
theorem sent (hs : Sound s e) (hst : Stir s e ns e') :
    ∃ new, e'.datastore.sent = e.datastore.sent ++ new ∧
      ∀ n ∈ new, ∃ h, e.Registered h ∧ n.event.request = h.id := by
  cases hst with
  | wait | due => exact sent_same rfl
  | data same => exact sent_same same
  | tick live expired =>
    obtain ⟨h, hr, -, -, -, sub, -, hserves⟩ := hs.owner live
    obtain ⟨new, hnew, hn⟩ := (frame_sampled hr hserves _).sent
    exact ⟨new, hnew, fun n hm => ⟨h, hr, (hn n hm).1⟩⟩
  | ends live => exact sent_same (by rw [endLoop_eq live])

end Stir

/-! ## Many of them -/

namespace Stirs

open Engine

variable {s : Setup} {e e' : Engine} {ns : List Note}

theorem core (hst : Stirs s e ns e') : e'.core = e.core := by
  induction hst with
  | refl => rfl
  | head h _ ih => exact ih.trans h.core

theorem sound (hs : Sound s e) (hst : Stirs s e ns e') : Sound s e' := by
  induction hst with
  | refl => exact hs
  | head h _ ih => exact ih (h.sound hs)

theorem now (hst : Stirs s e ns e') : e.now ≤ e'.now := by
  induction hst with
  | refl => exact Nat.le_refl _
  | head h _ ih => exact Nat.le_trans h.now ih

theorem loopAt (hst : Stirs s e ns e') {k ref : Nat} {l : SamplingLoop}
    (hl : e'.loopAt k ref = some l) : e.loopAt k ref = some l := by
  induction hst with
  | refl => exact hl
  | head h _ ih => exact h.loopAt (ih hl)

theorem registered (hst : Stirs s e ns e') (h : Handle) : e'.Registered h ↔ e.Registered h :=
  registered_of_core (congrArg Core.registry hst.core) h

theorem life (hst : Stirs s e ns e') (h : Handle) : e'.life h = e.life h :=
  life_of_core (congrArg Core.lives hst.core) h

end Stirs

end Telemetry
