import Telemetry.Proofs.Operations

/-!
# What holds of an engine at every moment

An engine keeps three things for a request: its life, its sampling loops and its cached leaves,
which together are its `Share`. `Share.Fit` says which shares a request can have, by where it
stands: not running and with nothing kept for it; running without loops; running with one loop for
every subscription; or running while its loops have been told to end. An engine is `Sound` if the
share of every registered request is fit and nothing is kept for anything else.

* `Engine.Frame`: a change that concerns one request leaves the shares of all others alone.
* `Engine.Sound.of_frame`: such a change keeps an engine sound if what it makes of that one request
  is fit.
-/
namespace Telemetry

/-! ## Registries of handles -/

/-- A request as parsing makes it: it has subscriptions, and no two of them have the same id. -/
structure Request.WellMade (r : Request) : Prop where
  inhabited : r.subscriptions ≠ []
  distinct : (r.subscriptions.map (·.id)).Nodup

/-- Every handle is registered under its own id, and under one id only. -/
structure Registry.Proper (g : Registry Handle) (handles : Nat) : Prop where
  ids : ∀ {id h}, g.find? id = some h → h.id = id
  keys : ∀ {id id' h h'}, g.find? id = some h → g.find? id' = some h' → h.key = h'.key → h = h'
  made : ∀ {id h}, g.find? id = some h → h.key < handles
  wellMade : ∀ {id h}, g.find? id = some h → h.request.WellMade

namespace Registry.Proper

variable {g : Registry Handle} {n : Nat}

theorem empty (n : Nat) : (Registry.empty : Registry Handle).Proper n := by
  constructor <;> (intros; contradiction)

theorem mono (hg : g.Proper n) {m : Nat} (h : n ≤ m) : g.Proper m :=
  ⟨hg.ids, hg.keys, fun hf => Nat.lt_of_lt_of_le (hg.made hf) h, hg.wellMade⟩

theorem insert (hg : g.Proper n) {h : Handle} (hkey : h.key < n) (hw : h.request.WellMade)
    (hnew : ∀ {id h'}, g.find? id = some h' → h'.key ≠ h.key) :
    (⟨g.entries.insert h.id h⟩ : Registry Handle).Proper n := by
  have cases_of {id h'} (hf : (⟨g.entries.insert h.id h⟩ : Registry Handle).find? id = some h') :
      (id = h.id ∧ h' = h) ∨ g.find? id = some h' := by
    rw [find?_insert] at hf
    split at hf
    · next hid => cases hf; exact Or.inl ⟨hid, rfl⟩
    · exact Or.inr hf
  constructor
  · intro id h' hf
    rcases cases_of hf with ⟨rfl, rfl⟩ | hf
    · rfl
    · exact hg.ids hf
  · intro id id' h₁ h₂ hf hf' hk
    rcases cases_of hf with ⟨-, rfl⟩ | old <;> rcases cases_of hf' with ⟨-, rfl⟩ | old'
    · rfl
    · exact absurd hk.symm (hnew old')
    · exact absurd hk (hnew old)
    · exact hg.keys old old' hk
  · intro id h' hf
    rcases cases_of hf with ⟨-, rfl⟩ | hf
    · exact hkey
    · exact hg.made hf
  · intro id h' hf
    rcases cases_of hf with ⟨-, rfl⟩ | hf
    · exact hw
    · exact hg.wellMade hf

theorem erase (hg : g.Proper n) (id : Nat) : (⟨g.entries.erase id⟩ : Registry Handle).Proper n := by
  have old {id' h} (hf : (⟨g.entries.erase id⟩ : Registry Handle).find? id' = some h) :
      g.find? id' = some h := by
    rw [find?_erase] at hf
    split at hf
    · cases hf
    · exact hf
  exact ⟨fun hf => hg.ids (old hf), fun hf hf' => hg.keys (old hf) (old hf'),
    fun hf => hg.made (old hf), fun hf => hg.wellMade (old hf)⟩

end Registry.Proper

/-! ## Shares -/

/-- A loop without the time of its next sample. -/
def SamplingLoop.still (l : SamplingLoop) : SamplingLoop := { l with deadline := 0 }

/-- What an engine keeps for one request. -/
@[ext] structure Share where
  life : Life
  loops : Nat → Option SamplingLoop
  buckets : Nat → Bucket

/-- The loop with that number, if it belongs to that key. -/
def Engine.loopAt (e : Engine) (key ref : Nat) : Option SamplingLoop :=
  ((e.loops.find? ref).filter (·.owner = key)).map (·.still)

def Engine.share (e : Engine) (h : Handle) : Share where
  life := e.life h
  loops := e.loopAt h.key
  buckets := e.cache.bucket h.id

theorem Engine.loopAt_eq_some {e : Engine} {key ref : Nat} {l : SamplingLoop} :
    e.loopAt key ref = some l ↔ ∃ l', e.loops.find? ref = some l' ∧ l'.owner = key ∧ l'.still = l := by
  simp only [loopAt, Option.map_eq_some_iff, Option.filter_eq_some_iff, decide_eq_true_eq, and_assoc]

theorem Engine.loopAt_eq_none {e : Engine} {key ref : Nat} :
    e.loopAt key ref = none ↔ ∀ l, e.loops.find? ref = some l → l.owner ≠ key := by
  simp only [loopAt, Option.map_eq_none_iff, Option.filter_eq_none_iff, decide_eq_true_eq]

/-- A loop that samples a subscription. -/
structure SamplingLoop.Serves (s : Setup) (l : SamplingLoop) (h : Handle) (sub : Subscription) :
    Prop where
  owner : l.owner = h.key
  plan : l.plan = Sampling.ofSubscription h.id sub s.least

theorem SamplingLoop.Serves.of_still {s : Setup} {l : SamplingLoop} {h : Handle}
    {sub : Subscription} (hl : l.still.Serves s h sub) : l.Serves s h sub := ⟨hl.owner, hl.plan⟩

namespace Share

/-- Nothing is kept for a request. -/
structure Idle (x : Share) : Prop where
  status : x.life.status ≠ .running
  refs : x.life.loops = []
  loops : ∀ ref, x.loops ref = none
  buckets : ∀ sid, x.buckets sid = .empty

/-- Only subscriptions of the request have leaves. -/
def Within (h : Handle) (x : Share) : Prop :=
  ∀ sid, sid ∉ h.request.subscriptions.map (·.id) → x.buckets sid = .empty

/-- There is one loop for every subscription and no other, and the life of the request lists them
in order. -/
structure Looping (s : Setup) (h : Handle) (x : Share) : Prop where
  each : ∀ {i : Nat} {sub}, h.request.subscriptions[i]? = some sub → ∃ ref l, x.life.loops[i]? = some ref ∧
    x.loops ref = some l ∧ l.Serves s h sub ∧ l.generation = x.life.generation ∧
    l.cancelled = false
  length : x.life.loops.length = h.request.subscriptions.length
  nodup : x.life.loops.Nodup
  all : ∀ {ref l}, x.loops ref = some l → ref ∈ x.life.loops

/-- Each loop there is samples a subscription, belongs to the last start and was not told to end. -/
theorem Looping.loop {s : Setup} {h : Handle} {x : Share} (g : x.Looping s h) {ref : Nat}
    {l : SamplingLoop} (hl : x.loops ref = some l) :
    (∃ sub ∈ h.request.subscriptions, l.Serves s h sub) ∧ l.generation = x.life.generation ∧
      l.cancelled = false := by
  obtain ⟨i, hi⟩ := List.getElem?_of_mem (g.all hl)
  have hlt : i < h.request.subscriptions.length := by
    rw [← g.length]
    exact (List.getElem?_eq_some_iff.1 hi).1
  obtain ⟨ref', l', hr', hl', hserves, hgen, hc⟩ := g.each (List.getElem?_eq_getElem hlt)
  rw [hi] at hr'
  cases hr'
  rw [hl] at hl'
  cases hl'
  exact ⟨⟨_, List.getElem_mem hlt, hserves⟩, hgen, hc⟩

/-- Where a request can stand. -/
inductive Fit (s : Setup) (h : Handle) (x : Share) : Prop where
  | idle (idle : x.Idle)
  | plain (running : x.life.status = .running) (mode : h.request.mode ≠ .stream)
    (refs : x.life.loops = []) (loops : ∀ ref, x.loops ref = none) (within : x.Within h)
  | looping (running : x.life.status = .running) (mode : h.request.mode = .stream)
    (within : x.Within h) (looping : x.Looping s h)
  /-- Its loops have been told to end. -/
  | ending (running : x.life.status = .running) (mode : h.request.mode = .stream)
    (refs : x.life.loops = []) (within : x.Within h)
    (told : ∀ {ref l}, x.loops ref = some l →
      l.cancelled = true ∧ ∃ sub ∈ h.request.subscriptions, l.Serves s h sub)

namespace Fit

variable {s : Setup} {h : Handle} {x : Share}

theorem idle_of_status (f : x.Fit s h) (hs : x.life.status ≠ .running) : x.Idle := by
  cases f with
  | idle i => exact i
  | plain hr => exact absurd hr hs
  | looping hr => exact absurd hr hs
  | ending hr => exact absurd hr hs

theorem within (f : x.Fit s h) : x.Within h := by
  cases f with
  | idle i => exact fun sid _ => i.buckets sid
  | plain _ _ _ _ hw => exact hw
  | looping _ _ hw => exact hw
  | ending _ _ _ hw => exact hw

/-- Only a running request has leaves. -/
theorem running_of_leaf (f : x.Fit s h) {sid : Nat} {path : String} {o : Observed}
    (hf : (x.buckets sid).find? path = some o) : x.life.status = .running := by
  cases f with
  | idle i => rw [i.buckets] at hf; cases hf
  | plain hr => exact hr
  | looping hr => exact hr
  | ending hr => exact hr

/-- Every loop of a request samples one of its subscriptions, and only a running STREAM request has
loops. -/
theorem serves (f : x.Fit s h) {ref : Nat} {l : SamplingLoop} (hl : x.loops ref = some l) :
    x.life.status = .running ∧ h.request.mode = .stream ∧
      ∃ sub ∈ h.request.subscriptions, l.Serves s h sub := by
  cases f with
  | idle i => rw [i.loops] at hl; cases hl
  | plain _ _ _ hn => rw [hn] at hl; cases hl
  | looping hr hm _ hg =>
    exact ⟨hr, hm, (hg.loop hl).1⟩
  | ending hr hm _ _ ht => exact ⟨hr, hm, (ht hl).2⟩

/-- Loops are told to end all at once. -/
theorem ending_of_told (f : x.Fit s h) {ref : Nat} {l : SamplingLoop} (hl : x.loops ref = some l)
    (told : l.cancelled = true) :
    x.life.status = .running ∧ h.request.mode = .stream ∧ x.life.loops = [] ∧ x.Within h ∧
      ∀ {ref l}, x.loops ref = some l →
        l.cancelled = true ∧ ∃ sub ∈ h.request.subscriptions, l.Serves s h sub := by
  cases f with
  | idle i => rw [i.loops] at hl; cases hl
  | plain _ _ _ hn => rw [hn] at hl; cases hl
  | looping _ _ _ hg =>
    have hfalse := (hg.loop hl).2.2
    rw [told] at hfalse
    cases hfalse
  | ending hr hm hrefs hw ht => exact ⟨hr, hm, hrefs, hw, ht⟩

/-- The loops of a STREAM request that lists any are complete. -/
theorem looping_of_refs (f : x.Fit s h) (hm : h.request.mode = .stream)
    (hrefs : x.life.loops ≠ []) : x.Looping s h := by
  cases f with
  | idle i => exact absurd i.refs hrefs
  | plain _ hm' => exact absurd hm hm'
  | looping _ _ _ hg => exact hg
  | ending _ _ hnil => exact absurd hnil hrefs

/-- Fitness does not depend on what the leaves of the subscriptions are. -/
theorem of_within (f : x.Fit s h) {x' : Share} (hlife : x'.life = x.life)
    (hloops : x'.loops = x.loops) (hrun : x.life.status = .running) (hw : x'.Within h) :
    x'.Fit s h := by
  cases f with
  | idle i => exact absurd hrun i.status
  | plain hr hm hrefs hn =>
    exact .plain (hlife ▸ hr) hm (hlife ▸ hrefs) (fun ref => hloops ▸ hn ref) hw
  | looping hr hm _ hg =>
    refine .looping (hlife ▸ hr) hm hw ⟨?_, hlife ▸ hg.length, hlife ▸ hg.nodup, ?_⟩
    · rw [hlife, hloops]; exact hg.each
    · rw [hlife, hloops]; exact hg.all
  | ending hr hm hrefs _ ht =>
    exact .ending (hlife ▸ hr) hm (hlife ▸ hrefs) hw (by rw [hloops]; exact ht)

end Fit

end Share

/-! ## Sound engines -/

namespace Engine

def Registered (e : Engine) (h : Handle) : Prop := e.registry.find? h.id = some h

instance (e : Engine) (h : Handle) : Decidable (e.Registered h) :=
  inferInstanceAs (Decidable (e.registry.find? h.id = some h))

/-- No other registered request has the key or the id of this one. -/
def Sole (e : Engine) (h : Handle) : Prop :=
  ∀ h', e.Registered h' → h'.key = h.key ∨ h'.id = h.id → h' = h

structure Sound (s : Setup) (e : Engine) : Prop where
  proper : e.registry.Proper e.handles
  fit : ∀ {h}, e.Registered h → (e.share h).Fit s h
  /-- Nothing is kept for a key that is not registered. -/
  stray : ∀ {k}, (∀ h, e.Registered h → h.key ≠ k) →
    (∀ l, e.lives.find? k = some l → l.status ≠ .running ∧ l.loops = []) ∧
      ∀ ref, e.loopAt k ref = none
  /-- Nothing is cached for an id that is not registered. -/
  uncached : ∀ {r}, e.registry.find? r = none → ∀ sid, e.cache.bucket r sid = .empty
  /-- Requests that were not made yet have no life. -/
  unborn : ∀ {k}, e.handles ≤ k → e.lives.find? k = none
  numbered : ∀ {ref l}, e.loops.find? ref = some l → ref < e.loopsStarted
  tidy : e.cache.Tidy

variable {s : Setup} {e x y : Engine} {h : Handle}

theorem sound_fresh (s : Setup) (d : Datastore Event) : Sound s (fresh d) where
  proper := .empty 0
  fit hr := by cases hr
  stray _ := ⟨fun _ hl => by (cases hl), fun _ => rfl⟩
  uncached _ _ := rfl
  unborn _ := rfl
  numbered hl := by cases hl
  tidy := Cache.tidy_empty

theorem Sound.registered (hs : Sound s e) {id : Nat} (hf : e.registry.find? id = some h) :
    e.Registered h := by
  unfold Registered
  rwa [hs.proper.ids hf]

/-- A registered request is the only one with its key and its id. -/
theorem Sound.sole (hs : Sound s e) (hr : e.Registered h) : e.Sole h := by
  intro h' hr' hk
  rcases hk with hk | hid
  · exact hs.proper.keys hr' hr hk
  · unfold Registered at hr hr'
    rw [hid, hr] at hr'
    exact (Option.some.inj hr').symm

/-- So is a request whose key and id nobody has. -/
theorem sole_of_absent (hid : e.registry.find? h.id = none)
    (hkey : ∀ h', e.Registered h' → h'.key ≠ h.key) : e.Sole h := by
  intro h' hr' hk
  rcases hk with hk | hid'
  · exact absurd hk (hkey h' hr')
  · unfold Registered at hr'
    rw [hid', hid] at hr'
    cases hr'

theorem Sound.idle_of_absent (hs : Sound s e) (hid : e.registry.find? h.id = none)
    (hkey : ∀ h', e.Registered h' → h'.key ≠ h.key) : (e.share h).Idle where
  status := by
    change (e.life h).status ≠ _
    unfold life
    cases hl : e.lives.find? h.key with
    | none => simp [Life.start]
    | some l => exact ((hs.stray hkey).1 l hl).1
  refs := by
    change (e.life h).loops = _
    unfold life
    cases hl : e.lives.find? h.key with
    | none => rfl
    | some l => exact ((hs.stray hkey).1 l hl).2
  loops := (hs.stray hkey).2
  buckets := hs.uncached hid

/-- Soundness only looks at what is registered and at what is kept. -/
theorem Sound.of_same (hx : Sound s x) (hr : y.registry = x.registry) (hlives : y.lives = x.lives)
    (hh : y.handles = x.handles) (hc : y.cache = x.cache) (hloops : ∀ k, y.loopAt k = x.loopAt k)
    (hn : ∀ {ref l}, y.loops.find? ref = some l → ref < y.loopsStarted) : Sound s y := by
  have hreg (h : Handle) : y.Registered h ↔ x.Registered h := by rw [Registered, Registered, hr]
  have hshare (h : Handle) : y.share h = x.share h := by
    simp only [share, life, hlives, hc, hloops]
  refine ⟨?_, fun hf => ?_, fun {k} hno => ?_, fun {r} hf => ?_, fun {k} hk => ?_, hn, ?_⟩
  · rw [hr, hh]; exact hx.proper
  · rw [hshare]; exact hx.fit ((hreg _).1 hf)
  · rw [hlives, hloops]; exact hx.stray fun h hf => hno h ((hreg h).2 hf)
  · rw [hc]; exact hx.uncached (by rw [← hr, hf])
  · rw [hlives]; exact hx.unborn (by rw [← hh]; exact hk)
  · rw [hc]; exact hx.tidy

theorem Sound.hold (hx : Sound s x) (l : Lock) : Sound s (x.hold l) :=
  hx.of_same rfl rfl rfl rfl (fun _ => rfl) hx.numbered

theorem Sound.free (hx : Sound s x) (l : Lock) : Sound s (x.free l) :=
  hx.of_same rfl rfl rfl rfl (fun _ => rfl) hx.numbered

/-- Exactly one loop samples a subscription, and it was not told to end. -/
def Served (s : Setup) (e : Engine) (h : Handle) (sub : Subscription) : Prop :=
  ∃ ref l, e.loops.find? ref = some l ∧ l.Serves s h sub ∧ l.cancelled = false ∧
    ∀ {ref' l'}, e.loops.find? ref' = some l' → l'.Serves s h sub → ref' = ref

theorem served_of_looping (hw : h.request.WellMade) (g : (e.share h).Looping s h)
    {sub : Subscription} (hsub : sub ∈ h.request.subscriptions) : Served s e h sub := by
  obtain ⟨i, hi⟩ := List.getElem?_of_mem hsub
  obtain ⟨ref, l, href, hl, hserves, -, hc⟩ := g.each hi
  obtain ⟨l, hlive, -, rfl⟩ := loopAt_eq_some.1 hl
  refine ⟨ref, l, hlive, hserves.of_still, hc, fun {ref' l'} hl' hserves' => ?_⟩
  -- any other loop is listed too, at the place of a subscription with the same id
  have hat : e.loopAt h.key ref' = some l'.still :=
    loopAt_eq_some.2 ⟨l', hl', hserves'.owner, rfl⟩
  obtain ⟨j, hj⟩ := List.getElem?_of_mem (g.all hat)
  have hlt : j < h.request.subscriptions.length := by
    rw [← g.length]
    exact (List.getElem?_eq_some_iff.1 hj).1
  obtain ⟨ref'', l'', href'', hl'', hserves'', -⟩ := g.each (List.getElem?_eq_getElem hlt)
  rw [hj] at href''
  cases href''
  rw [show (e.share h).loops ref' = some l'.still from hat] at hl''
  cases hl''
  have hid : (h.request.subscriptions[j]).id = sub.id :=
    congrArg Sampling.subscription (hserves''.plan.symm.trans hserves'.plan)
  have hij : j = i := by
    refine (List.getElem?_inj (by simpa using hlt) hw.distinct).1 ?_
    rw [List.getElem?_map, List.getElem?_map, hi, List.getElem?_eq_getElem hlt, Option.map_some,
      Option.map_some, hid]
  subst hij
  rw [hj] at href
  exact Option.some.inj href

/-! ## Changes that concern one request -/

/-- Where nothing was sent there is nothing to say of it. -/
theorem sent_same {P : Notification Event → Prop} (same : y.datastore.sent = x.datastore.sent) :
    ∃ ns, y.datastore.sent = x.datastore.sent ++ ns ∧ ∀ n ∈ ns, P n := ⟨[], by simp [same]⟩

theorem sent_trans {z : Engine} {P : Notification Event → Prop}
    (h : ∃ ns, y.datastore.sent = x.datastore.sent ++ ns ∧ ∀ n ∈ ns, P n)
    (h' : ∃ ns, z.datastore.sent = y.datastore.sent ++ ns ∧ ∀ n ∈ ns, P n) :
    ∃ ns, z.datastore.sent = x.datastore.sent ++ ns ∧ ∀ n ∈ ns, P n := by
  obtain ⟨ns, hns, hp⟩ := h
  obtain ⟨ns', hns', hp'⟩ := h'
  refine ⟨ns ++ ns', by rw [hns', hns, List.append_assoc], fun n hn => ?_⟩
  rcases List.mem_append.1 hn with hn | hn
  · exact hp n hn
  · exact hp' n hn

/-- What a change that concerns one request leaves alone. Only a registered request is reported
on. -/
structure Frame (h : Handle) (x y : Engine) : Prop where
  registry : ∀ {id}, id ≠ h.id → y.registry.find? id = x.registry.find? id
  lives : ∀ {k}, k ≠ h.key → y.lives.find? k = x.lives.find? k
  loops : ∀ {k}, k ≠ h.key → y.loopAt k = x.loopAt k
  cache : ∀ {r}, r ≠ h.id → y.cache.bucket r = x.cache.bucket r
  sent : ∃ ns, y.datastore.sent = x.datastore.sent ++ ns ∧
    ∀ n ∈ ns, n.event.request = h.id ∧ x.Registered h
  handles : x.handles ≤ y.handles
  pending : y.pending = x.pending
  held : y.held = x.held

theorem Frame.registered (f : Frame h x y) {h' : Handle} (hid : h'.id ≠ h.id) :
    y.Registered h' ↔ x.Registered h' := by
  unfold Registered
  rw [f.registry hid]

theorem Frame.share (f : Frame h x y) {h' : Handle} (hkey : h'.key ≠ h.key) (hid : h'.id ≠ h.id) :
    y.share h' = x.share h' := by
  ext1
  · exact life_eq_of_find? (f.lives hkey)
  · exact f.loops hkey
  · exact f.cache hid

/-- A change keeps an engine sound if it leaves a fit share to the one request that it concerns. -/
theorem Sound.of_frame (hx : Sound s x) (f : Frame h x y) (hsole : x.Sole h) (hsole' : y.Sole h)
    (hkey : h.key < y.handles) (hproper : y.registry.Proper y.handles)
    (hfit : (y.share h).Fit s h) (hidle : ¬y.Registered h → (y.share h).Idle)
    (hnumbered : ∀ {ref l}, y.loops.find? ref = some l → ref < y.loopsStarted)
    (htidy : y.cache.Tidy) : Sound s y where
  proper := hproper
  fit {h'} hr := by
    by_cases hk : h'.key = h.key ∨ h'.id = h.id
    · rw [hsole' h' hr hk]
      exact hfit
    · rw [not_or] at hk
      rw [f.share hk.1 hk.2]
      exact hx.fit ((f.registered hk.2).1 hr)
  stray {k} hno := by
    by_cases hk : k = h.key
    · subst hk
      have hi := hidle fun hr => hno h hr rfl
      refine ⟨fun l hl => ?_, hi.loops⟩
      have hlife : y.life h = l := by rw [life, hl]; rfl
      exact ⟨hlife ▸ hi.status, hlife ▸ hi.refs⟩
    · rw [f.lives hk, f.loops hk]
      refine hx.stray fun h' hr hk' => ?_
      have hid : h'.id ≠ h.id := fun hid => hk (by rw [← hk', hsole h' hr (Or.inr hid)])
      exact hno h' ((f.registered hid).2 hr) hk'
  uncached {r} hnone := by
    by_cases hid : r = h.id
    · subst hid
      refine (hidle fun hr => ?_).buckets
      rw [Registered, hnone] at hr
      cases hr
    · rw [f.cache hid]
      exact hx.uncached (by rw [← f.registry hid, hnone])
  unborn {k} hk := by
    have hk' : k ≠ h.key := by omega
    rw [f.lives hk']
    exact hx.unborn (Nat.le_trans f.handles hk)
  numbered := hnumbered
  tidy := htidy

end Engine

end Telemetry
