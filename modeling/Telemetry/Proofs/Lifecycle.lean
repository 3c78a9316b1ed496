import Telemetry.Proofs.Stirring

/-!
# Starting, polling and stopping, whatever happens meanwhile

What a request's own operations come to, whichever course they take.

* `Engine.readAll_stirs`, `Engine.readAll_meets`: reading goes through the subscriptions in order,
  up to the first failure (`Engine.Tried`), and changes nothing.
* `Engine.start_meets`: a start that fails changes nothing, and one that succeeds is one change, made
  after the last read.
* `Engine.stop_meets`: a stop waits for every loop of the request, and leaves nothing of it behind.
* `Engine.poll_meets`: a poll changes nothing that calls decide upon.
-/
namespace Telemetry.Engine

open Work (Meets)

/-! ## Reads -/

/-- Those paths were read in order, and all of them successfully. -/
structure AllRead (paths : List String) (reads : List (String × Except Error Leaves)) : Prop where
  paths : reads.map (·.1) = paths
  ok : ∀ r ∈ reads, ∃ leaves, r.2 = .ok leaves

theorem AllRead.nil : AllRead [] [] := ⟨rfl, fun _ hr => by cases hr⟩

theorem AllRead.append {paths paths' : List String}
    {reads reads' : List (String × Except Error Leaves)}
    (h : AllRead paths reads) (h' : AllRead paths' reads') :
    AllRead (paths ++ paths') (reads ++ reads') where
  paths := by rw [List.map_append, h.paths, h'.paths]
  ok r hr := (List.mem_append.1 hr).elim (h.ok r) (h'.ok r)

/-- Some read failed. -/
def ReadFailed (reads : List (String × Except Error Leaves)) : Prop :=
  ∃ r ∈ reads, ∃ err, r.2 = .error err

theorem ReadFailed.append_left {reads reads' : List (String × Except Error Leaves)}
    (h : ReadFailed reads) : ReadFailed (reads ++ reads') :=
  let ⟨r, hr, herr⟩ := h
  ⟨r, List.mem_append_left _ hr, herr⟩

theorem ReadFailed.append_right {reads reads' : List (String × Except Error Leaves)}
    (h : ReadFailed reads') : ReadFailed (reads ++ reads') :=
  let ⟨r, hr, herr⟩ := h
  ⟨r, List.mem_append_right _ hr, herr⟩

/-- Subscriptions were read in order, with these answers, up to the first that failed. -/
inductive Tried : List Subscription → List (String × Except Error Leaves) →
    Except Error (List Snapshot.Reading) → Prop where
  | nil : Tried [] [] (.ok [])
  | failed (sub : Subscription) (rest : List Subscription) (err : Error) :
    Tried (sub :: rest) [(sub.path, .error err)] (.error err)
  | read (sub : Subscription) (leaves : Leaves) {rest : List Subscription}
    {reads : List (String × Except Error Leaves)} {out : Except Error (List Snapshot.Reading)}
    (t : Tried rest reads out) :
    Tried (sub :: rest) ((sub.path, .ok leaves) :: reads) (out.map ((sub.id, leaves) :: ·))

namespace Tried

variable {subs : List Subscription} {reads : List (String × Except Error Leaves)}

/-- Everything was read. -/
theorem of_ok {readings : List Snapshot.Reading} (t : Tried subs reads (.ok readings)) :
    readings.map (·.1) = subs.map (·.id) ∧ AllRead (subs.map (·.path)) reads := by
  generalize hout : (.ok readings : Except Error (List Snapshot.Reading)) = out at t
  induction t generalizing readings with
  | nil => cases hout; exact ⟨rfl, .nil⟩
  | failed => cases hout
  | @read sub leaves rest reads out t ih =>
    cases out with
    | error err => cases hout
    | ok readings' =>
      cases hout
      obtain ⟨hids, hread⟩ := ih rfl
      refine ⟨by simp [hids], by simp [hread.paths], fun r hr => ?_⟩
      rcases List.mem_cons.1 hr with rfl | hr
      · exact ⟨leaves, rfl⟩
      · exact hread.ok r hr

theorem of_error {err : Error} (t : Tried subs reads (.error err)) : ReadFailed reads := by
  generalize hout : (.error err : Except Error (List Snapshot.Reading)) = out at t
  induction t with
  | nil => cases hout
  | failed => exact ⟨_, List.mem_singleton.2 rfl, _, rfl⟩
  | @read sub leaves rest reads out t ih =>
    cases out with
    | ok => cases hout
    | error err' =>
      cases hout
      obtain ⟨r, hr, he⟩ := ih rfl
      exact ⟨r, List.mem_cons_of_mem _ hr, he⟩

end Tried

variable {s : Setup} {G : Engine → Engine → Prop} {T : Handle → Prop} {e : Engine} {h : Handle}

/-- Reading changes nothing: what happens meanwhile happens without it. -/
theorem readAll_stirs (subs : List Subscription) (e : Engine) :
    (readAll subs).Meets s G (fun ns out e' => Tried subs (Note.reads ns) out ∧
      (∃ ns', Stirs s e ns' e') ∧ ∀ x y, .wrote x y ∉ ns) e := by
  induction subs generalizing e with
  | nil => exact ⟨.nil, ⟨[], .refl e⟩, fun _ _ hm => by cases hm⟩
  | cons sub rest ih =>
    intro ns e₁ expired hst
    have hreads : Note.reads ns = [] := hst.reads
    cases ha : e₁.answer s sub.path expired with
    | error err =>
      refine ⟨?_, ⟨ns, hst⟩, fun x y hm => ?_⟩
      · simp only [Note.reads_append, hreads, Note.reads_read, Note.reads_nil, List.nil_append]
        exact .failed sub rest err
      · rcases List.mem_append.1 hm with hm | hm
        · exact hst.wrote_notMem x y hm
        · simp at hm
    | ok leaves =>
      refine Meets.bind (Meets.mono (fun ns' out e' hq => ?_) (ih e₁))
      obtain ⟨ht, ⟨ns₁, hst'⟩, hunwritten⟩ := hq
      have hreads' : Note.reads (ns ++ .read sub.path (.ok leaves) :: (ns' ++ [])) =
          (sub.path, .ok leaves) :: Note.reads ns' := by
        simp [hreads]
      have hunwritten' : ∀ x y, .wrote x y ∉ ns ++ .read sub.path (.ok leaves) :: (ns' ++ []) := by
        intro x y hm
        rcases List.mem_append.1 hm with hm | hm
        · exact hst.wrote_notMem x y hm
        · exact hunwritten x y (by simpa using hm)
      cases out with
      | error err =>
        refine ⟨?_, ⟨_, hst.trans hst'⟩, hunwritten'⟩
        rw [hreads']
        exact .read sub leaves ht
      | ok readings =>
        refine ⟨?_, ⟨_, hst.trans hst'⟩, hunwritten'⟩
        rw [hreads']
        exact .read sub leaves ht

theorem readAll_meets (subs : List Subscription) (hs : Sound s e) :
    (readAll subs).Meets s G (fun ns out e' =>
      Tried subs (Note.reads ns) out ∧ e'.core = e.core ∧ Sound s e') e := by
  refine Meets.mono (fun ns out e' hq => ?_) (readAll_stirs subs e)
  obtain ⟨htried, ⟨ns', hst⟩, -⟩ := hq
  exact ⟨htried, hst.core, hst.sound hs⟩

/-! ## Between operations -/

/-- What calls decide upon differs only in one life, and perhaps in what is registered and made. -/
structure Beside (key : Nat) (e e' : Engine) : Prop where
  lives : ∀ {k}, k ≠ key → e'.lives.find? k = e.lives.find? k
  pending : e'.pending = e.pending
  held : e'.held = e.held

theorem Beside.of_core {key : Nat} {e e' : Engine} (hc : e'.core = e.core) : Beside key e e' := by
  refine ⟨fun {k} _ => ?_, congrArg Core.pending hc, congrArg Core.held hc⟩
  rw [show e'.lives = e.lives from congrArg Core.lives hc]

theorem Beside.trans {key : Nat} {e e' e'' : Engine} (h : Beside key e e') (h' : Beside key e' e'') :
    Beside key e e'' :=
  ⟨fun hk => (h'.lives hk).trans (h.lives hk), h'.pending.trans h.pending, h'.held.trans h.held⟩

theorem Beside.life {key : Nat} {e e' : Engine} (h : Beside key e e') {h' : Handle}
    (hk : h'.key ≠ key) : e'.life h' = e.life h' := life_eq_of_find? (h.lives hk)

theorem Deed.beside {x y : Engine} (hx : Sound s x) (d : Deed s h x y) : Beside h.key x y :=
  have hf := d.frame hx
  ⟨hf.lives, hf.pending, hf.held⟩

/-- No registered request is about to stop. -/
def Resting (e : Engine) : Prop :=
  ∀ h, e.Registered h → e.status h = .running → h.request.mode = .stream → (e.life h).loops ≠ []

theorem Resting.of_beside {e e' : Engine} {key : Nat} (hrest : Resting e) (hb : Beside key e e')
    (hreg : ∀ h, h.key ≠ key → e'.Registered h → e.Registered h)
    (hself : ∀ h, h.key = key → e'.Registered h → e'.status h = .running →
      h.request.mode = .stream → (e'.life h).loops ≠ []) : Resting e' := by
  intro h hr hrun hm
  by_cases hk : h.key = key
  · exact hself h hk hr hrun hm
  · rw [hb.life hk]
    refine hrest h (hreg h hk hr) ?_ hm
    rw [status, ← hb.life hk]
    exact hrun

/-- An engine that no call is at work on. -/
structure Calm (s : Setup) (e : Engine) : Prop where
  sound : Sound s e
  resting : Resting e

theorem Calm.of_core {e e' : Engine} (hc : Calm s e) (hs : Sound s e') (hcore : e'.core = e.core) :
    Calm s e' where
  sound := hs
  resting h hr hrun hm := by
    have hlife := life_of_core (congrArg Core.lives hcore) h
    rw [hlife]
    refine hc.resting h ((registered_of_core (congrArg Core.registry hcore) h).1 hr) ?_ hm
    rw [status, ← hlife]
    exact hrun

/-- No loop of a registered request was told to end. -/
theorem Calm.untold (hc : Calm s e) (hr : e.Registered h) {ref : Nat} {l : SamplingLoop}
    (hl : e.loopAt h.key ref = some l) : l.cancelled = false := by
  cases hcan : l.cancelled with
  | false => rfl
  | true =>
    obtain ⟨hrun, hm, hrefs, -⟩ := (hc.sound.fit hr).ending_of_told hl hcan
    exact absurd hrefs (hc.resting h hr hrun hm)

/-- A STREAM request that runs has one loop for every subscription. -/
theorem Calm.looping (hc : Calm s e) (hr : e.Registered h) (hrun : e.status h = .running)
    (hm : h.request.mode = .stream) : (e.share h).Looping s h :=
  (hc.sound.fit hr).looping_of_refs hm (hc.resting h hr hrun hm)

/-- What a course leaves of a request that it does not touch: all of it, up to what its own samples
do to its leaves. -/
structure Untouched (h : Handle) (ns : List Note) (e e' : Engine) : Prop where
  registered : e'.Registered h
  life : e'.life h = e.life h
  loops : e'.loopAt h.key = e.loopAt h.key
  leaves : ¬Note.Ticked h.key ns → e'.cache.bucket h.id = e.cache.bucket h.id
  writes : ∀ {x y}, .wrote x y ∈ ns → y.share h = x.share h ∧
    ∃ new, y.datastore.sent = x.datastore.sent ++ new ∧ ∀ n ∈ new, n.event.request ≠ h.id

/-- Work touches nothing but the requests it is entitled to. -/
theorem untouched_meets {α : Type} {w : Work α} {Q : List Note → α → Engine → Prop}
    (hc : Calm s e) (hr : e.Registered h) (hno : ∀ h', T h' → h'.id ≠ h.id)
    (hw : w.Meets s (Effect s T) Q e) :
    w.Meets s (Effect s T) (fun ns a e' => Q ns a e' ∧ Untouched h ns e e') e := by
  refine Meets.mono (fun ns a e' hq => ⟨hq.1, hq.2.2⟩) (Meets.keep []
    (K := fun ns x => Sound s x ∧ Untouched h ns e x) ?_ ?_ ?_ ?_ ?_ hw)
  · rintro ns x y ⟨hx, u⟩ hf
    obtain ⟨hry, hshare⟩ := hf.spares hx u.registered hno
    have hlife : y.life h = x.life h := congrArg Share.life hshare
    have hloops : y.loopAt h.key = x.loopAt h.key := congrArg Share.loops hshare
    have hbuckets : y.cache.bucket h.id = x.cache.bucket h.id := congrArg Share.buckets hshare
    refine ⟨hf.sound hx, hry, hlife.trans u.life, hloops.trans u.loops, fun hno => ?_, fun hm => ?_⟩
    · exact hbuckets.trans (u.leaves fun ht => hno (Note.ticked_append.2 (Or.inl ht)))
    · rcases List.mem_append.1 hm with hm | hm
      · exact u.writes hm
      · cases List.mem_singleton.1 hm
        obtain ⟨new, hnew, hn⟩ := hf.sent hx
        refine ⟨hshare, new, hnew, fun n hn' => ?_⟩
        obtain ⟨h', ht, -, hreq⟩ := hn n hn'
        rw [hreq]
        exact hno h' ht
  · rintro ns x ns' y ⟨hx, u⟩ hst
    obtain ⟨hloops, hleaves⟩ := hst.share hx u.registered fun hl => by
      rw [u.loops] at hl
      exact hc.untold hr hl
    refine ⟨hst.sound hx, (Stirs.single hst).registered h |>.2 u.registered,
      ((Stirs.single hst).life h).trans u.life, hloops.trans u.loops, fun hno => ?_, fun hm => ?_⟩
    · rw [Note.ticked_append, not_or] at hno
      exact (hleaves hno.2).trans (u.leaves hno.1)
    · rcases List.mem_append.1 hm with hm | hm
      · exact u.writes hm
      · cases hst <;> simp at hm
  · rintro ns x path a ⟨hx, u⟩
    refine ⟨hx, u.registered, u.life, u.loops, fun hno => ?_, fun hm => ?_⟩
    · exact u.leaves fun ht => hno (Note.ticked_append.2 (Or.inl ht))
    · rcases List.mem_append.1 hm with hm | hm
      · exact u.writes hm
      · simp at hm
  · rintro ns x l ⟨hx, u⟩
    exact ⟨hx.hold l, u.registered, u.life, u.loops, u.leaves, u.writes⟩
  · exact ⟨hc.sound, hr, rfl, rfl, fun _ => rfl, fun hm => by cases hm⟩

/-! ## Starts -/

/-- What a start came to: either a read failed, and what calls decide upon is as it was, or
everything was read and then the start was made. -/
inductive Started (s : Setup) (h : Handle) (e : Engine) (ns : List Note) :
    Except Error Unit → Engine → Prop where
  | failed {err : Error} {e' : Engine}
    (tried : Tried h.request.subscriptions (Note.reads ns) (.error err))
    (core : e'.core = e.core) : Started s h e ns (.error err) e'
  | begun {readings : List Snapshot.Reading} {x : Engine}
    (tried : Tried h.request.subscriptions (Note.reads ns) (.ok readings))
    (core : x.core = e.core) (idle : (x.share h).Idle)
    (wrote : .wrote x (begin s h readings x) ∈ ns) :
    Started s h e ns (.ok ()) (begin s h readings x)

theorem status_begin (readings : List Snapshot.Reading) :
    (begin s h readings e).status h = .running := by
  rw [status, life_begin]
  split <;> rfl

theorem loops_begin_ne_nil (readings : List Snapshot.Reading) (hm : h.request.mode = .stream)
    (hw : h.request.WellMade) : ((begin s h readings e).life h).loops ≠ [] := by
  rw [life_begin, if_pos hm]
  have hpos := List.length_pos_iff.2 hw.inhabited
  intro hnil
  have hlen := congrArg List.length (List.append_eq_nil_iff.1 hnil).2
  simp only [nextLoops, List.length_map, List.length_range, List.length_nil] at hlen
  omega

theorem Started.mono {ns ns' : List Note} {r : Except Error Unit} {e' : Engine}
    (st : Started s h e ns r e') (hreads : Note.reads ns' = Note.reads ns)
    (hmem : ∀ n ∈ ns, n ∈ ns') : Started s h e ns' r e' := by
  cases st with
  | failed tried core => exact .failed (hreads ▸ tried) core
  | begun tried core idle wrote => exact .begun (hreads ▸ tried) core idle (hmem _ wrote)

/-- A start registers nothing, and changes no life but its own. -/
theorem Started.beside {ns : List Note} {r : Except Error Unit} {e' : Engine}
    (st : Started s h e ns r e') :
    Beside h.key e e' ∧ e'.registry = e.registry ∧ e'.handles = e.handles := by
  cases st with
  | failed _ core =>
    exact ⟨.of_core core, congrArg Core.registry core, congrArg Core.handles core⟩
  | @begun readings x _ core =>
    have hb : Beside h.key x (Engine.begin s h readings x) := by
      refine ⟨fun hk => (find?_lives_begin ..).trans (if_neg hk), ?_, ?_⟩ <;> rw [begin_frame] <;> rfl
    refine ⟨(Beside.of_core core).trans hb, ?_, ?_⟩
    · rw [begin_frame]; exact congrArg Core.registry core
    · rw [begin_frame]; exact congrArg Core.handles core

theorem start_meets (hc : Calm s e) (hr : e.Registered h) (hrest : e.status h ≠ .running)
    (ht : T h) :
    (start s h).Meets s (Effect s T) (fun ns r e' => Started s h e ns r e' ∧ Calm s e') e := by
  unfold start
  simp only [Meets, hrest, if_false]
  refine Meets.bind (Meets.mono (fun ns out e₁ hq => ?_) (readAll_meets _ hc.sound))
  obtain ⟨htried, hcore, hs₁⟩ := hq
  have hc₁ := hc.of_core hs₁ hcore
  cases out with
  | error err => exact ⟨.failed (by simpa using htried) hcore, hc₁⟩
  | ok readings =>
    have hr₁ := (registered_of_core (congrArg Core.registry hcore) h).2 hr
    have hrest₁ : e₁.status h ≠ .running := by
      rw [status, life_of_core (congrArg Core.lives hcore) h]
      exact hrest
    have deed : Deed s h e₁ (begin s h readings e₁) := .begin hr₁ hrest₁ htried.of_ok.1
    have hs₂ := deed.sound hs₁
    refine ⟨.on ht deed, .begun (by simpa using htried) hcore
      ((hs₁.fit hr₁).idle_of_status hrest₁) (by simp), hs₂, ?_⟩
    have hreg (h' : Handle) : (begin s h readings e₁).Registered h' ↔ e₁.Registered h' := by
      rw [begin_frame]
      exact Iff.rfl
    refine hc₁.resting.of_beside (deed.beside hs₁) (fun h' _ => (hreg h').1) ?_
    intro h' hk hr' _ hm
    rw [hs₁.sole hr₁ h' ((hreg h').1 hr') (Or.inl hk)] at hm ⊢
    exact loops_begin_ne_nil readings hm (hs₁.proper.wellMade hr₁)

/-! ## Stops -/

/-- What a stop came to. -/
structure Halted (h : Handle) (e e' : Engine) : Prop where
  beside : Beside h.key e e'
  registry : e'.registry = e.registry
  handles : e'.handles = e.handles
  status : e'.status h = .stopped

theorem Halted.of_halted {x : Engine} (hb : Beside h.key e x) (hr : x.registry = e.registry)
    (hh : x.handles = e.handles) : Halted h e (x.halted h) where
  beside := hb.trans ⟨fun hk => (find?_setLife ..).trans (if_neg hk), rfl, rfl⟩
  registry := hr
  handles := hh
  status := by
    rw [Engine.status, life_halted]

/-- The status belongs to the key. -/
theorem Halted.stopped {e' : Engine} (hh : Halted h e e') {h' : Handle} (hk : h'.key = h.key) :
    e'.status h' = .stopped := by
  have hs := hh.status
  simp only [Engine.status, Engine.life] at hs ⊢
  rw [hk, hs]

theorem Halted.resting {e' : Engine} (hh : Halted h e e') (hrest : Resting e) : Resting e' := by
  have hreg (h' : Handle) : e'.Registered h' ↔ e.Registered h' := by
    rw [Registered, Registered, hh.registry]
  refine hrest.of_beside hh.beside (fun h' _ => (hreg h').1) fun h' hk _ hrun => ?_
  rw [hh.stopped hk] at hrun
  cases hrun

/-- Waiting for loops that were all told to end is over when they have ended. -/
theorem joinAll_meets (key : Nat) (refs : List Nat) (hs : Sound s e)
    (told : ∀ {k ref l}, ref ∈ refs → e.loopAt k ref = some l → l.cancelled = true)
    (all : ∀ {ref l}, e.loopAt key ref = some l → ref ∈ refs) :
    (joinAll refs).Meets s G (fun ns _ e' =>
      Note.reads ns = [] ∧ e'.core = e.core ∧ Sound s e' ∧ ∀ ref, e'.loopAt key ref = none) e := by
  induction refs generalizing e with
  | nil =>
    refine ⟨rfl, rfl, hs, fun ref => ?_⟩
    cases hl : e.loopAt key ref with
    | none => rfl
    | some l => cases all hl
  | cons ref₀ rest ih =>
    intro ns e₁ hst
    refine ⟨fun ended => ?_, fun l live untold => ?_⟩
    · refine Meets.mono (fun ns' _ e' hq => ?_) (ih (hst.sound hs)
        (fun hm hl => told (List.mem_cons_of_mem _ hm) (hst.loopAt hl)) fun {ref l} hl => ?_)
      · obtain ⟨hreads, hc, hs', hnone⟩ := hq
        exact ⟨by rw [Note.reads_append, hst.reads, hreads]; rfl, hc.trans hst.core, hs', hnone⟩
      · rcases List.mem_cons.1 (all (hst.loopAt hl)) with rfl | hm
        · obtain ⟨l', hl', -⟩ := loopAt_eq_some.1 hl
          rw [ended] at hl'
          cases hl'
        · exact hm
    · have hl : e₁.loopAt l.owner ref₀ = some l.still := loopAt_eq_some.2 ⟨l, live, rfl, rfl⟩
      have htold : l.still.cancelled = true := told List.mem_cons_self (hst.loopAt hl)
      rw [show l.still.cancelled = l.cancelled from rfl, untold] at htold
      cases htold

/-- A request that is not about to stop lists all its loops. -/
theorem listed (hs : Sound s e) (hsole : e.Sole h)
    (hrest : e.Registered h → e.status h = .running → h.request.mode = .stream →
      (e.life h).loops ≠ []) {ref : Nat} {l : SamplingLoop} (hl : e.loopAt h.key ref = some l) :
    ref ∈ (e.life h).loops ∧ l.generation = (e.life h).generation := by
  rcases hs.registered_or_idle hsole with hr | ⟨-, hi⟩
  · cases hs.fit hr with
    | idle i => rw [show e.loopAt h.key ref = none from i.loops ref] at hl; cases hl
    | plain _ _ _ hn => rw [show e.loopAt h.key ref = none from hn ref] at hl; cases hl
    | looping _ _ _ hg => exact ⟨hg.all hl, (hg.loop hl).2.1⟩
    | ending hrun hm hrefs => exact absurd hrefs (hrest hr hrun hm)
  · rw [show e.loopAt h.key ref = none from hi.loops ref] at hl
    cases hl

/-- Every loop that a request lists is there. -/
theorem live_of_listed (hs : Sound s e) (hsole : e.Sole h) {ref : Nat}
    (hm : ref ∈ (e.life h).loops) : ∃ l, e.loopAt h.key ref = some l := by
  have none_listed (hrefs : (e.life h).loops = []) : ∃ l, e.loopAt h.key ref = some l := by
    rw [hrefs] at hm
    cases hm
  rcases hs.registered_or_idle hsole with hr | ⟨-, hi⟩
  · cases hs.fit hr with
    | idle i => exact none_listed i.refs
    | plain _ _ hrefs => exact none_listed hrefs
    | looping _ _ _ hg =>
      obtain ⟨i, hi⟩ := List.getElem?_of_mem hm
      have hlt : i < h.request.subscriptions.length := by
        rw [← hg.length]
        exact (List.getElem?_eq_some_iff.1 hi).1
      obtain ⟨ref', l, hr', hl, -⟩ := hg.each (List.getElem?_eq_getElem hlt)
      rw [show ref = ref' from Option.some.inj (hi.symm.trans hr')]
      exact ⟨l, hl⟩
    | ending _ _ hrefs => exact none_listed hrefs
  · exact none_listed hi.refs

/-- A request that does not stream has no loops. -/
theorem loopless (hs : Sound s e) (hsole : e.Sole h) (hm : h.request.mode ≠ .stream) :
    (e.life h).loops = [] ∧ ∀ ref, e.loopAt h.key ref = none := by
  rcases hs.registered_or_idle hsole with hr | ⟨-, hi⟩
  · cases hs.fit hr with
    | idle i => exact ⟨i.refs, i.loops⟩
    | plain _ _ hrefs hn => exact ⟨hrefs, hn⟩
    | looping _ hm' => exact absurd hm' hm
    | ending _ hm' => exact absurd hm' hm
  · exact ⟨hi.refs, hi.loops⟩

/-- A request that has come to have no loops is halted. -/
theorem halts {x : Engine} (hsole : e.Sole h) (hmade : h.key < e.handles) (hs : Sound s x)
    (hb : Beside h.key e x) (hr : x.registry = e.registry) (hh : x.handles = e.handles)
    (hrefs : (x.life h).loops = []) (hnone : ∀ ref, x.loopAt h.key ref = none) :
    Deed s h x (x.halted h) ∧ Halted h e (x.halted h) ∧ Sound s (x.halted h) := by
  have deed : Deed s h x (x.halted h) := .halt (sole_of_core hr hsole) (hh ▸ hmade) hrefs hnone
  exact ⟨deed, .of_halted hb hr hh, deed.sound hs⟩

/-- When a request has told its loops to end, the loops that it had listed are all it has, and all
of them have been told. -/
theorem listed_of_cancelled (hc : Calm s e) (hsole : e.Sole h) {ref : Nat} {l : SamplingLoop}
    (hl : (cancelLoops h e).loopAt h.key ref = some l) :
    ref ∈ (e.life h).loops ∧ l.cancelled = true := by
  rw [loopAt_cancelLoops, Option.map_eq_some_iff] at hl
  obtain ⟨l₀, hl₀, rfl⟩ := hl
  obtain ⟨hmem, hgen⟩ := listed hc.sound hsole (hc.resting h) hl₀
  obtain ⟨l', -, howner, rfl⟩ := loopAt_eq_some.1 hl₀
  exact ⟨hmem, cancelled_toldToEnd (Or.inr ⟨howner, hgen⟩)⟩

theorem told_of_listed (hc : Calm s e) (hsole : e.Sole h) {key ref : Nat} {l : SamplingLoop}
    (hmem : ref ∈ (e.life h).loops) (hl : (cancelLoops h e).loopAt key ref = some l) :
    l.cancelled = true := by
  obtain ⟨l₀, hl₀⟩ := live_of_listed hc.sound hsole hmem
  have hkey : key = h.key := by
    rw [loopAt_cancelLoops, Option.map_eq_some_iff] at hl
    obtain ⟨l₁, hl₁, -⟩ := hl
    obtain ⟨l', hl', rfl, -⟩ := loopAt_eq_some.1 hl₁
    obtain ⟨l'', hl'', howner, -⟩ := loopAt_eq_some.1 hl₀
    rw [hl'] at hl''
    cases hl''
    exact howner
  subst hkey
  exact (listed_of_cancelled hc hsole hl).2

theorem stop_meets (hc : Calm s e) (hsole : e.Sole h) (hmade : h.key < e.handles) (ht : T h)
    (hheld : .poll h.key ∉ e.held) :
    (stop h).Meets s (Effect s T)
      (fun ns _ e' => Note.reads ns = [] ∧ Halted h e e' ∧ Calm s e') e := by
  have hs := hc.sound
  suffices hw : (stop h).Meets s (Effect s T)
      (fun ns _ e' => Note.reads ns = [] ∧ Halted h e e' ∧ Sound s e') e from
    Meets.mono (fun _ _ _ hq => ⟨hq.1, hq.2.1, hq.2.2, hq.2.1.resting hc.resting⟩) hw
  unfold stop
  split
  · next hm =>
    obtain ⟨hrefs, hnone⟩ := loopless hs hsole (by rw [hm]; decide)
    obtain ⟨deed, hhalted, hs'⟩ := halts hsole hmade hs (.of_core rfl) rfl rfl hrefs hnone
    exact ⟨.on ht deed, rfl, hhalted, hs'⟩
  · next hm =>
    refine Meets.acquire hheld fun ns e₁ hst => ?_
    have hcore := hst.core
    have hs₁ : Sound s (e₁.hold (.poll h.key)) := (hst.sound hs).hold _
    obtain ⟨hrefs, hnone⟩ := loopless hs₁ (sole_of_core (congrArg Core.registry hcore) hsole)
      (by rw [hm]; decide)
    have deed : Deed s h (e₁.hold (.poll h.key)) ((e₁.hold (.poll h.key)).halted h) :=
      .halt (sole_of_core (congrArg Core.registry hcore) hsole)
        (Nat.lt_of_lt_of_eq hmade (congrArg Core.handles hcore).symm) hrefs hnone
    have hhalted : Halted h e (e₁.halted h) := .of_halted (.of_core hcore)
      (congrArg Core.registry hcore) (congrArg Core.handles hcore)
    refine ⟨.on ht deed, .freed _, ?_, ?_, (deed.sound hs₁).free _⟩
    · simpa using hst.reads
    · exact ⟨⟨hhalted.beside.lives, hhalted.beside.pending, (List.erase_cons_head ..).trans
        hhalted.beside.held⟩, hhalted.registry, hhalted.handles, hhalted.status⟩
  · next hm =>
    have deed : Deed s h e (cancelLoops h e) := .cancel hsole hmade
    refine Meets.look (Meets.change (Effect.on ht deed) (Meets.bind (Meets.mono (fun ns _ e₂ hq => ?_)
      (joinAll_meets h.key (e.life h).loops (deed.sound hs) (told_of_listed hc hsole)
        fun hl => (listed_of_cancelled hc hsole hl).1))))
    obtain ⟨hreads, hcore, hs₂, hnone⟩ := hq
    have hrefs : (e₂.life h).loops = [] := by
      rw [life_of_core (congrArg Core.lives hcore) h, life_cancelLoops]
    obtain ⟨deed₂, hhalted, hs₃⟩ := halts hsole hmade hs₂ ((deed.beside hs).trans (.of_core hcore))
      (congrArg Core.registry hcore) (congrArg Core.handles hcore) hrefs hnone
    exact ⟨Effect.on ht deed₂, by simpa using hreads, hhalted, hs₃⟩

/-! ## Polls -/

theorem pollLocked_meets (hs : Sound s e) (hr : e.Registered h) (hm : h.request.mode = .poll)
    (ht : T h) :
    (pollLocked s h).Meets s (Effect s T) (fun _ _ e' => e'.core = e.core ∧ Sound s e') e := by
  unfold pollLocked
  by_cases hrun : e.status h = .running
  · simp only [Meets, hrun, ne_eq, not_true, if_false]
    refine Meets.bind (Meets.mono (fun ns out e₁ hq => ?_) (readAll_meets _ hs))
    obtain ⟨htried, hc, hs₁⟩ := hq
    cases out with
    | error err => exact ⟨hc, hs₁⟩
    | ok readings =>
      have hr₁ := (registered_of_core (congrArg Core.registry hc) h).2 hr
      have hrun₁ : e₁.status h = .running := by
        rw [status, life_of_core (congrArg Core.lives hc) h]
        exact hrun
      have deed : Deed s h e₁ (burst s h readings e₁) := .burst hr₁ hrun₁ hm htried.of_ok.1
      refine ⟨.on ht deed, ?_, deed.sound hs₁⟩
      rw [← hc, burst_eq]
      rfl
  · simp only [Meets, hrun, ne_eq, not_false_eq_true, if_true]
    exact ⟨trivial, hs⟩

theorem poll_meets (hs : Sound s e) (hr : e.Registered h) (ht : T h)
    (hheld : .poll h.key ∉ e.held) :
    (poll s h).Meets s (Effect s T) (fun _ _ e' => e'.core = e.core ∧ Sound s e') e := by
  unfold poll
  split
  · next hm =>
    refine Meets.acquire hheld fun ns e₁ hst => Meets.bind (Meets.mono (fun ns' r e₂ hq => ?_)
      (pollLocked_meets ((hst.sound hs).hold _) ((hst.registered h).2 hr) hm ht))
    obtain ⟨hc, hs₂⟩ := hq
    refine ⟨Effect.freed _, ?_, hs₂.free _⟩
    have hheld₂ : e₂.held = .poll h.key :: e₁.held := congrArg Core.held hc
    have hfree : (e₂.free (.poll h.key)).core = { e₂.core with held := e₁.held } := by
      simp only [core, free, hheld₂, List.erase_cons_head]
    rw [hfree, hc, ← hst.core]
    rfl
  · exact ⟨rfl, hs⟩

end Telemetry.Engine
