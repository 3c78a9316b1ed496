import Telemetry.Proofs.Lifecycle
import Telemetry.Proofs.Pact

/-!
# Shutting down beside transactions

A shutdown makes a list of what is registered and then stops one request after the other, and
meanwhile transactions create, delete and undo. Both stop requests, even the same one. What is kept
of the time before the list was made is accounted for all the same: a loop that nobody has told to end
belongs to a request that is still on the list, one that was told to end is awaited, and leaves go
with their request or with their loop. What is registered only later is not on the list.

* `Tally`: what is known of the two beside the engine.
* `Tally.Holds`: what holds at every moment after the list was made.
* `Tally.Holds.begin`: it holds to begin with.
* `Tally.Holds.stir`, `Tally.Holds.cancelled`, `Tally.Holds.begun` and the lemmas beside them: every
  change that happens keeps it.
-/
namespace Telemetry

open Engine (Calm Sound)

/-! ## Tallies -/

/-- Who stops requests. -/
inductive Part where
  | shutdown
  | transaction
  deriving DecidableEq

/-- What a part is about while it stops a request. -/
structure Errand where
  /-- The request whose leaves it is about to drop. -/
  halting : Option Nat
  /-- The loops it has told to end and waits for. -/
  awaited : List Nat

def Errand.free : Errand := ⟨none, []⟩

structure Tally where
  /-- The ids that something was registered under since the list was made. -/
  joined : Nat → Prop
  /-- What is left of the list. -/
  left : List Nat
  errand : Part → Errand

namespace Tally

variable {t : Tally} {p q : Part} {x : Errand}

def put (p : Part) (x : Errand) (t : Tally) : Tally :=
  { t with errand := fun q => if q = p then x else t.errand q }

@[simp] theorem errand_put_self : (t.put p x).errand p = x := if_pos rfl

theorem errand_put_of_ne (h : q ≠ p) : (t.put p x).errand q = t.errand q := if_neg h

/-- Something is registered under an id. -/
def join (id : Nat) (t : Tally) : Tally := { t with joined := fun r => r = id ∨ t.joined r }

@[simp] theorem joined_put : (t.put p x).joined = t.joined := rfl

@[simp] theorem left_put : (t.put p x).left = t.left := rfl

end Tally

/-! ## Loops from before -/

namespace Engine

variable {s : Setup} {b x y z : Engine} {h : Handle}

/-- A loop that was there when the list was made on `b`. -/
def Old (b e : Engine) (ref : Nat) (l : SamplingLoop) : Prop :=
  e.loops.find? ref = some l ∧ ref < b.loopsStarted

/-- No loop from before comes back, or forgets that it was told to end. -/
def Fades (b x y : Engine) : Prop :=
  ∀ ref l', Old b y ref l' → l'.cancelled = false →
    ∃ l, Old b x ref l ∧ l.cancelled = false ∧ l.owner = l'.owner ∧ l.plan = l'.plan

/-- Every loop from before was told to end if it belongs to the request or to its id. -/
def Freed (b e : Engine) (h : Handle) : Prop :=
  ∀ ref l, Old b e ref l → l.cancelled = false → l.owner ≠ h.key ∧ l.plan.request ≠ h.id

theorem Fades.refl (b x : Engine) : Fades b x x := fun _ l hold hc => ⟨l, hold, hc, rfl, rfl⟩

theorem Fades.trans (h : Fades b x y) (h' : Fades b y z) : Fades b x z := by
  intro ref l₂ hold hc
  obtain ⟨l₁, hold₁, hc₁, howner₁, hplan₁⟩ := h' ref l₂ hold hc
  obtain ⟨l, hold₀, hc₀, howner, hplan⟩ := h ref l₁ hold₁ hc₁
  exact ⟨l, hold₀, hc₀, howner.trans howner₁, hplan.trans hplan₁⟩

theorem Freed.fades (hf : Freed b x h) (hfades : Fades b x y) : Freed b y h := by
  intro ref l hold hc
  obtain ⟨l₀, hold₀, hc₀, howner, hplan⟩ := hfades ref l hold hc
  rw [← howner, ← hplan]
  exact hf ref l₀ hold₀ hc₀

/-- No loop is started or told to end, and loops are listed as before. -/
structure Steady (x y : Engine) : Prop where
  loops : ∀ ref l', y.loops.find? ref = some l' →
    ∃ l deadline, x.loops.find? ref = some l ∧ l' = { l with deadline }
  generation : ∀ h, (y.life h).generation = (x.life h).generation
  refs : ∀ h, (y.life h).loops = (x.life h).loops
  started : y.loopsStarted = x.loopsStarted
  made : x.handles ≤ y.handles

theorem Steady.of_same (loops : y.loops = x.loops) (lives : y.lives = x.lives)
    (started : y.loopsStarted = x.loopsStarted) (made : y.handles = x.handles) : Steady x y where
  loops ref l hl := ⟨l, l.deadline, loops ▸ hl, rfl⟩
  generation h := by rw [life, life, lives]
  refs h := by rw [life, life, lives]
  started := started
  made := Nat.le_of_eq made.symm

theorem Steady.setStatus (h : Handle) (status : Status) (x : Engine) :
    Steady x (x.setStatus h status) where
  loops ref l hl := ⟨l, l.deadline, hl, rfl⟩
  generation h' := by
    unfold Engine.setStatus
    rw [life_setLife]
    split
    · next hk => rw [life, life, hk]
    · rfl
  refs h' := by
    unfold Engine.setStatus
    rw [life_setLife]
    split
    · next hk => rw [life, life, hk]
    · rfl
  started := rfl
  made := Nat.le_refl _

theorem steady_due {ref : Nat} {l : SamplingLoop} (live : x.loops.find? ref = some l)
    (deadline : Nat) : Steady x { x with loops := x.loops.insert ref { l with deadline } } := by
  refine ⟨fun ref' l' hl' => ?_, fun _ => rfl, fun _ => rfl, rfl, Nat.le_refl _⟩
  rw [SortedMap.find?_insert] at hl'
  split at hl'
  · next heq =>
    cases hl'
    exact ⟨l, deadline, heq ▸ live, rfl⟩
  · exact ⟨l', l'.deadline, hl', rfl⟩

theorem steady_abortLoop (ref : Nat) (x : Engine) : Steady x (x.abortLoop ref) :=
  ⟨fun _ l' hl' => ⟨l', l'.deadline, SortedMap.find?_of_erase hl', rfl⟩, fun _ => rfl,
    fun _ => rfl, rfl, Nat.le_refl _⟩

theorem steady_endLoop {ref : Nat} {l : SamplingLoop} (live : x.loops.find? ref = some l) :
    Steady x (x.endLoop ref) := by
  rw [endLoop_eq live]
  exact ⟨fun _ l' hl' => ⟨l', l'.deadline, SortedMap.find?_of_erase hl', rfl⟩, fun _ => rfl,
    fun _ => rfl, rfl, Nat.le_refl _⟩

theorem steady_sampled (p : Sampling) (a : Except Error Leaves) : Steady x (x.sampled s p a) := by
  rw [sampled_eq]
  exact .of_same rfl rfl rfl rfl

/-- What happens without a call starts no loop and tells none to end. -/
theorem steady_stir {ns : List Note} (hst : Stir s x ns y) : Steady x y := by
  cases hst with
  | wait | data => exact .of_same rfl rfl rfl rfl
  | due live deadline => exact steady_due live deadline
  | tick => exact steady_sampled ..
  | ends live => exact steady_endLoop live

theorem Steady.old (st : Steady x y) {ref : Nat} {l' : SamplingLoop} (hold : Old b y ref l') :
    ∃ l deadline, Old b x ref l ∧ l' = { l with deadline } := by
  obtain ⟨l, deadline, hl, rfl⟩ := st.loops ref l' hold.1
  exact ⟨l, deadline, ⟨hl, hold.2⟩, rfl⟩

theorem Steady.fades (st : Steady x y) : Fades b x y := by
  intro ref l' hold hc
  obtain ⟨l, _, hold₀, rfl⟩ := st.old hold
  exact ⟨l, hold₀, hc, rfl, rfl⟩

end Engine

open Engine (Old Fades Freed Steady)

/-! ## What holds meanwhile -/

namespace Tally

/-- What a transaction did since the list was made, so that it can be undone. -/
def Settled (b : Engine) (t : Tally) (e : Engine) : Applied → Prop
  | .created h => t.joined h.id ∧ Freed b e h
  | .deleted h => (b.Registered h ∨ b.handles ≤ h.key) ∧ Freed b e h
  | .nothing => True

structure Holds (b : Engine) (t : Tally) (e : Engine) : Prop where
  started : b.loopsStarted ≤ e.loopsStarted
  made : b.handles ≤ e.handles
  /-- A loop from before belongs to a STREAM request that was on the list. -/
  origin : ∀ {ref l}, Old b e ref l → ∃ h, b.Registered h ∧ h.request.mode = .stream ∧
    l.owner = h.key ∧ l.plan.request = h.id
  /-- One that was not told to end will be, when it is the turn of its request. -/
  untold : ∀ {ref l h}, Old b e ref l → l.cancelled = false → b.Registered h → l.owner = h.key →
    l.plan.request = h.id ∧ e.Registered h ∧ (e.life h).generation = l.generation ∧
      ref ∈ (e.life h).loops ∧ h.id ∈ t.left
  told : ∀ {ref l}, Old b e ref l → l.cancelled = true → ∃ p, ref ∈ (t.errand p).awaited
  awaited : ∀ {ref l p}, Old b e ref l → ref ∈ (t.errand p).awaited → l.cancelled = true
  listed : ∀ {ref l h}, Old b e ref l → l.cancelled = false → ref ∈ (e.life h).loops →
    l.owner = h.key ∧ l.generation = (e.life h).generation
  registered : ∀ {id h}, e.registry.find? id = some h →
    h.id = id ∧ (b.Registered h ∨ b.handles ≤ h.key ∧ t.joined id)
  recent : ∀ {ref l}, e.loops.find? ref = some l → b.loopsStarted ≤ ref → t.joined l.plan.request
  /-- Leaves from before go when their request is halted, or with their loop. -/
  kept : ∀ {r sid}, e.cache.bucket r sid ≠ .empty → t.joined r ∨
    (∃ ref l, Old b e ref l ∧ l.plan.request = r ∧ l.plan.subscription = sid) ∨
    (r ∈ t.left ∧ (e.registry.find? r).isSome) ∨ ∃ p, (t.errand p).halting = some r
  pending : ∀ {p}, e.pending = some p → ∀ a ∈ p.applied, t.Settled b e a

variable {s : Setup} {b x y : Engine} {t t' : Tally} {h : Handle}

theorem Settled.later {a : Applied} (ha : t.Settled b x a) (joined : ∀ r, t.joined r → t'.joined r)
    (fades : Fades b x y) : t'.Settled b y a := by
  cases a with
  | created h => exact ⟨joined _ ha.1, ha.2.fades fades⟩
  | deleted h => exact ⟨ha.1, ha.2.fades fades⟩
  | nothing => trivial

/-- The list has just been made. -/
def ofList (b : Engine) : Tally := ⟨fun _ => False, b.registry.ids, fun _ => .free⟩

namespace Holds

theorem begin (hc : Calm s b) (hp : b.pending = none) : (ofList b).Holds b b where
  started := Nat.le_refl _
  made := Nat.le_refl _
  origin hold := by
    obtain ⟨h, hr, -, -, hm, sub, -, hserves⟩ := hc.sound.owner hold.1
    exact ⟨h, hr, hm, hserves.owner, by rw [hserves.plan]; rfl⟩
  untold {ref l h} hold _ hr howner := by
    obtain ⟨h', hr', hl, hrun, hm, sub, -, hserves⟩ := hc.sound.owner hold.1
    obtain rfl := hc.sound.sole hr' h hr (.inl (howner.symm.trans hserves.owner))
    have hlooping := hc.looping hr' hrun hm
    refine ⟨by rw [hserves.plan]; rfl, hr, (hlooping.loop hl).2.1.symm, hlooping.all hl,
      Registry.mem_ids.2 ?_⟩
    rw [show b.registry.find? h.id = some h from hr]
    rfl
  told {ref l} hold hcan := by
    obtain ⟨h, hr, hl, -⟩ := hc.sound.owner hold.1
    have huntold : l.still.cancelled = false := hc.untold hr hl
    rw [show l.still.cancelled = true from hcan] at huntold
    cases huntold
  awaited _ hm := by cases hm
  listed {ref l h} hold _ hm := by
    by_cases hk : ∃ h', b.Registered h' ∧ h'.key = h.key
    · obtain ⟨h', hr, hkey⟩ := hk
      have hlife : b.life h = b.life h' := by rw [Engine.life, Engine.life, hkey]
      rw [hlife] at hm ⊢
      obtain ⟨l', hl'⟩ := Engine.live_of_listed hc.sound (hc.sound.sole hr) hm
      obtain ⟨hrun, hstream, -⟩ := (hc.sound.fit hr).serves hl'
      have hgen := ((hc.looping hr hrun hstream).loop hl').2.1
      obtain ⟨l₀, hlive, howner, rfl⟩ := Engine.loopAt_eq_some.1 hl'
      rw [hold.1] at hlive
      cases hlive
      exact ⟨howner.trans hkey, hgen⟩
    · have hstray := (hc.sound.stray fun h' hr hkey => hk ⟨h', hr, hkey⟩).1
      unfold Engine.life at hm
      cases hf : b.lives.find? h.key with
      | none => rw [hf] at hm; cases hm
      | some life =>
        rw [hf] at hm
        rw [show (some life).getD Life.start = life from rfl, (hstray life hf).2] at hm
        cases hm
  registered hf := ⟨hc.sound.proper.ids hf, .inl (hc.sound.registered hf)⟩
  recent hl hge := absurd (hc.sound.numbered hl) (Nat.not_lt.2 hge)
  kept {r sid} hne := by
    cases hf : b.registry.find? r with
    | none => exact absurd (hc.sound.uncached hf sid) hne
    | some h => exact .inr (.inr (.inl ⟨Registry.mem_ids.2 (by rw [hf]; rfl), rfl⟩))
  pending hp' := by rw [hp] at hp'; cases hp'

/-! ### Who a loop from before belongs to -/

/-- A loop from before that has the key or the id of a request on the list belongs to it. -/
theorem kin (hb : Sound s b) (hx : t.Holds b x) {ref : Nat} {l : SamplingLoop} (hold : Old b x ref l)
    (hr : b.Registered h) (hor : l.owner = h.key ∨ l.plan.request = h.id) :
    l.owner = h.key ∧ h.request.mode = .stream := by
  obtain ⟨h', hr', hm, howner, hreq⟩ := hx.origin hold
  obtain rfl := hb.sole hr h' hr' (hor.imp (howner.symm.trans ·) (hreq.symm.trans ·))
  exact ⟨howner, hm⟩

/-- Nothing from before belongs to what was made since, under an id that is not taken. -/
theorem freed_of_new (hb : Sound s b) (hx : t.Holds b x) (new : b.handles ≤ h.key)
    (other : ∀ h', x.registry.find? h.id = some h' → h'.key = h.key) : Freed b x h := by
  intro ref l hold hc
  obtain ⟨h', hr', -, howner, hreq⟩ := hx.origin hold
  have hlt : h'.key < b.handles := hb.proper.made hr'
  refine ⟨by omega, fun hid => ?_⟩
  have hreg := (hx.untold hold hc hr' howner).2.1
  rw [Engine.Registered, ← hreq, hid] at hreg
  have := other h' hreg
  omega

/-- What is registered is to be freed, or was made since and has nothing from before. -/
theorem due (hb : Sound s b) (hx : t.Holds b x) {id : Nat} (hf : x.registry.find? id = some h) :
    (b.Registered h ∨ b.handles ≤ h.key) ∧ (b.Registered h ∨ Freed b x h) := by
  obtain ⟨rfl, hr | ⟨hnew, -⟩⟩ := hx.registered hf
  · exact ⟨.inl hr, .inl hr⟩
  · refine ⟨.inr hnew, .inr (hx.freed_of_new hb hnew fun h' hf' => ?_)⟩
    rw [hf] at hf'
    cases hf'
    rfl

/-- A request without loops has none from before. -/
theorem freed_of_mode (hb : Sound s b) (hx : t.Holds b x) (hdue : b.Registered h ∨ Freed b x h)
    (hm : h.request.mode ≠ .stream) : Freed b x h := by
  rcases hdue with hr | hf
  · intro ref l hold _
    exact ⟨fun howner => hm (hx.kin hb hold hr (.inl howner)).2,
      fun hreq => hm (hx.kin hb hold hr (.inr hreq)).2⟩
  · exact hf

/-- What is pending stays settled. -/
theorem settled (hx : t.Holds b x) (joined : ∀ r, t.joined r → t'.joined r) (fades : Fades b x y) :
    ∀ p, x.pending = some p → ∀ a ∈ p.applied, t'.Settled b y a :=
  fun _ hp a ha => (hx.pending hp a ha).later joined fades

/-! ### Steady changes -/

/-- A change that starts no loop and tells none to end. -/
theorem next (hx : t.Holds b x) (steady : Steady x y) (joined : ∀ r, t.joined r → t'.joined r)
    (awaited : ∀ ref l, Old b y ref l →
      ((∃ p, ref ∈ (t'.errand p).awaited) ↔ ∃ p, ref ∈ (t.errand p).awaited))
    (stays : ∀ ref l h, Old b y ref l → l.cancelled = false → l.plan.request = h.id →
      x.Registered h → h.id ∈ t.left → y.Registered h ∧ h.id ∈ t'.left)
    (registered : ∀ id h, y.registry.find? id = some h →
      h.id = id ∧ (b.Registered h ∨ b.handles ≤ h.key ∧ t'.joined id))
    (kept : ∀ r sid, y.cache.bucket r sid ≠ .empty → t'.joined r ∨
      (∃ ref l, Old b y ref l ∧ l.plan.request = r ∧ l.plan.subscription = sid) ∨
      (r ∈ t'.left ∧ (y.registry.find? r).isSome) ∨ ∃ p, (t'.errand p).halting = some r)
    (pending : ∀ p, y.pending = some p → ∀ a ∈ p.applied, t'.Settled b y a) : t'.Holds b y where
  started := steady.started ▸ hx.started
  made := Nat.le_trans hx.made steady.made
  origin hold := by
    obtain ⟨l₀, _, hold₀, rfl⟩ := steady.old hold
    exact (hx.origin hold₀ :)
  untold {ref l h} hold hc hr howner := by
    obtain ⟨l₀, _, hold₀, rfl⟩ := steady.old hold
    obtain ⟨hreq, hreg, hgen, hmem, hleft⟩ := hx.untold hold₀ hc hr howner
    obtain ⟨hreg', hleft'⟩ := stays ref _ h hold hc hreq hreg hleft
    exact ⟨hreq, hreg', (steady.generation h).trans hgen, by rwa [steady.refs], hleft'⟩
  told hold hc := by
    obtain ⟨l₀, _, hold₀, rfl⟩ := steady.old hold
    exact (awaited _ _ hold).2 (hx.told hold₀ hc)
  awaited {ref l p} hold hm := by
    obtain ⟨l₀, _, hold₀, rfl⟩ := steady.old hold
    obtain ⟨q, hq⟩ := (awaited _ _ hold).1 ⟨p, hm⟩
    exact (hx.awaited hold₀ hq :)
  listed {ref l h} hold hc hm := by
    obtain ⟨l₀, _, hold₀, rfl⟩ := steady.old hold
    rw [steady.refs] at hm
    rw [steady.generation]
    exact (hx.listed hold₀ hc hm :)
  registered hf := registered _ _ hf
  recent {ref l} hl hge := by
    obtain ⟨l₀, _, hl₀, rfl⟩ := steady.loops ref l hl
    exact joined _ (hx.recent hl₀ hge :)
  kept hne := kept _ _ hne
  pending hp := pending _ hp

theorem of_same (hx : t.Holds b x) (loops : y.loops = x.loops) (lives : y.lives = x.lives)
    (started : y.loopsStarted = x.loopsStarted) (made : y.handles = x.handles)
    (registry : y.registry = x.registry) (cache : y.cache = x.cache)
    (pending : ∀ p, y.pending = some p → ∀ a ∈ p.applied, t.Settled b x a) : t.Holds b y := by
  have steady := Steady.of_same loops lives started made
  refine hx.next steady (fun _ hr => hr) (fun _ _ _ => Iff.rfl)
    (fun ref l h _ _ _ hr hleft => ⟨?_, hleft⟩) (fun id h hf => ?_) (fun r sid hne => ?_)
    fun p hp a ha => (pending p hp a ha).later (fun _ hr => hr) steady.fades
  · rwa [Engine.Registered, registry]
  · rw [registry] at hf
    exact hx.registered hf
  · rw [cache] at hne
    rw [registry]
    unfold Old
    rw [loops]
    exact hx.kept hne

theorem hold (hx : t.Holds b x) (l : Lock) : t.Holds b (x.hold l) :=
  hx.of_same rfl rfl rfl rfl rfl rfl fun _ hp => hx.pending hp

theorem free (hx : t.Holds b x) (l : Lock) : t.Holds b (x.free l) :=
  hx.of_same rfl rfl rfl rfl rfl rfl fun _ hp => hx.pending hp

/-! ### What happens without a call -/

theorem sampled (hx : t.Holds b x) {ref : Nat} {l : SamplingLoop}
    (live : x.loops.find? ref = some l) (a : Except Error Leaves) :
    t.Holds b (x.sampled s l.plan a) := by
  have hchanges := Engine.sampled_changesAt (s := s) (e := x) l.plan a
  have heq := Engine.sampled_eq (s := s) (e := x) l.plan a
  rw [heq]
  refine hx.next (.of_same rfl rfl rfl rfl) (fun _ hr => hr) (fun _ _ _ => Iff.rfl)
    (fun _ _ _ _ _ _ hr hleft => ⟨hr, hleft⟩) (fun _ _ hf => hx.registered hf)
    (fun r sid hne => ?_) (fun _ hp => hx.pending hp)
  by_cases hk : r = l.plan.request ∧ sid = l.plan.subscription
  · obtain ⟨rfl, rfl⟩ := hk
    by_cases hlt : ref < b.loopsStarted
    · exact .inr (.inl ⟨ref, l, ⟨live, hlt⟩, rfl, rfl⟩)
    · exact .inl (hx.recent live (Nat.not_lt.1 hlt))
  · refine hx.kept fun hempty => hne ?_
    exact (hchanges.other r sid hk).trans hempty

theorem endLoop (hx : t.Holds b x) {ref : Nat} {l : SamplingLoop}
    (live : x.loops.find? ref = some l) : t.Holds b (x.endLoop ref) := by
  have steady := Engine.steady_endLoop live
  rw [Engine.endLoop_eq live] at steady ⊢
  refine hx.next steady (fun _ hr => hr) (fun _ _ _ => Iff.rfl)
    (fun _ _ _ _ _ _ hr hleft => ⟨hr, hleft⟩) (fun _ _ hf => hx.registered hf)
    (fun r sid hne => ?_) (hx.settled (fun _ hr => hr) steady.fades)
  have hbucket := Cache.bucket_removeSubscription x.cache l.plan.request l.plan.subscription r sid
  by_cases hk : r = l.plan.request ∧ sid = l.plan.subscription
  · exact absurd (hbucket.trans (if_pos hk)) hne
  · rw [hbucket.trans (if_neg hk)] at hne
    refine (hx.kept hne).imp_right (Or.imp_left ?_)
    rintro ⟨ref', l', hold, rfl, rfl⟩
    refine ⟨ref', l', ⟨?_, hold.2⟩, rfl, rfl⟩
    refine (SortedMap.find?_erase_of_ne fun heq => hk ?_).trans hold.1
    rw [heq] at hold
    rw [show l' = l from Option.some.inj (hold.1.symm.trans live)]
    exact ⟨rfl, rfl⟩

theorem due_again (hx : t.Holds b x) {ref : Nat} {l : SamplingLoop}
    (live : x.loops.find? ref = some l) (deadline : Nat) :
    t.Holds b { x with loops := x.loops.insert ref { l with deadline } } := by
  have steady := Engine.steady_due live deadline
  refine hx.next steady (fun _ hr => hr) (fun _ _ _ => Iff.rfl)
    (fun _ _ _ _ _ _ hr hleft => ⟨hr, hleft⟩) (fun _ _ hf => hx.registered hf)
    (fun r sid hne => (hx.kept hne).imp_right (Or.imp_left ?_))
    (hx.settled (fun _ hr => hr) steady.fades)
  rintro ⟨ref', l', hold, hreq, hsub⟩
  by_cases heq : ref' = ref
  · subst heq
    rw [show l' = l from Option.some.inj (hold.1.symm.trans live)] at hreq hsub
    exact ⟨ref', _, ⟨SortedMap.find?_insert_self .., hold.2⟩, hreq, hsub⟩
  · exact ⟨ref', l', ⟨(SortedMap.find?_insert_of_ne _ heq).trans hold.1, hold.2⟩, hreq, hsub⟩

theorem stir (hx : t.Holds b x) {ns : List Note} (hst : Stir s x ns y) : t.Holds b y := by
  cases hst with
  | wait | data => exact hx.of_same rfl rfl rfl rfl rfl rfl fun _ hp => hx.pending hp
  | due live deadline => exact hx.due_again live deadline
  | tick live expired => exact hx.sampled live _
  | ends live => exact hx.endLoop live

/-! ### Loops that are waited for -/

/-- A loop from before that is waited for was told to end, so waiting is over only with the loop. -/
theorem gone (hx : t.Holds b x) {p : Part} {ref : Nat} (hm : ref ∈ (t.errand p).awaited)
    (untold : ∀ l, x.loops.find? ref = some l → l.cancelled = false) (l : SamplingLoop) :
    ¬Old b x ref l := fun hold => by
  have htold := hx.awaited hold hm
  rw [untold l hold.1] at htold
  cases htold

/-- A loop that is gone need not be waited for. -/
theorem ended (hx : t.Holds b x) {p : Part} {halting : Option Nat} {ref : Nat} {rest : List Nat}
    (errand : t.errand p = ⟨halting, ref :: rest⟩) (gone : ∀ l, ¬Old b x ref l) :
    (t.put p ⟨halting, rest⟩).Holds b x := by
  have hsame (q : Part) : ((t.put p ⟨halting, rest⟩).errand q).halting = (t.errand q).halting := by
    by_cases hq : q = p
    · rw [hq, errand_put_self, errand]
    · rw [errand_put_of_ne hq]
  refine hx.next (.of_same rfl rfl rfl rfl) (fun _ hr => hr) (fun ref' l hold => ?_)
    (fun _ _ _ _ _ _ hr hleft => ⟨hr, hleft⟩) (fun _ _ hf => hx.registered hf)
    (fun r sid hne => ?_)
    (hx.settled (fun _ hr => hr) (.refl b x))
  · refine exists_congr fun q => ?_
    by_cases hq : q = p
    · rw [hq, errand_put_self, errand, List.mem_cons]
      exact ⟨.inr, fun hor => hor.resolve_left fun heq => gone l (heq ▸ hold)⟩
    · rw [errand_put_of_ne hq]
  · simpa only [hsame, joined_put, left_put] using hx.kept hne

theorem abortLoop (hx : t.Holds b x) {ref : Nat} (gone : ∀ l, ¬Old b x ref l) :
    t.Holds b (x.abortLoop ref) := by
  have steady := Engine.steady_abortLoop ref x
  refine hx.next steady (fun _ hr => hr) (fun _ _ _ => Iff.rfl)
    (fun _ _ _ _ _ _ hr hleft => ⟨hr, hleft⟩) (fun _ _ hf => hx.registered hf)
    (fun r sid hne => (hx.kept hne).imp_right (Or.imp_left ?_))
    (hx.settled (fun _ hr => hr) steady.fades)
  rintro ⟨ref', l', hold, hk⟩
  refine ⟨ref', l', ⟨(SortedMap.find?_erase_of_ne fun heq => ?_).trans hold.1, hold.2⟩, hk⟩
  exact gone l' (heq ▸ hold)

/-! ### Requests that come and go -/

/-- A request drops its leaves once nothing from before is left of it to be told. -/
theorem halted (hx : t.Holds b x) (freed : Freed b x h) {p : Part} {halting : Option Nat}
    (errand : t.errand p = ⟨halting, []⟩) (own : ∀ r, halting = some r → r = h.id) {left : List Nat}
    (keep : ∀ r ∈ t.left, r ∈ left ∨ r = h.id) :
    (({ t with left } : Tally).put p .free).Holds b (x.halted h) := by
  have steady : Steady x (x.halted h) :=
    let st := Steady.setStatus h .stopped (x.release h)
    ⟨st.loops, st.generation, st.refs, rfl, Nat.le_refl _⟩
  refine hx.next steady (fun _ hr => hr) (fun ref l hold => exists_congr fun q => ?_)
    (fun ref l h' hold hc hreq hr hleft => ⟨hr, (keep _ hleft).resolve_right fun hid => ?_⟩)
    (fun _ _ hf => hx.registered hf) (fun r sid hne => ?_)
    (hx.settled (fun _ hr => hr) steady.fades)
  · by_cases hq : q = p
    · rw [hq, errand_put_self, errand]
      rfl
    · rw [errand_put_of_ne hq]
  · exact (freed ref l hold hc).2 (hreq.trans hid)
  · have hbucket := Cache.bucket_removeRequest x.cache h.id r sid
    by_cases hid : r = h.id
    · exact absurd (hbucket.trans (if_pos hid)) hne
    · refine (hx.kept fun hempty => hne ((hbucket.trans (if_neg hid)).trans hempty)).imp_right
        (Or.imp_right (Or.imp (And.imp_left fun hleft => (keep r hleft).resolve_right hid) ?_))
      rintro ⟨q, hq⟩
      refine ⟨q, ?_⟩
      by_cases hqp : q = p
      · rw [hqp, errand] at hq
        exact absurd (own r hq) hid
      · rwa [errand_put_of_ne hqp]

/-- A request leaves the registry without a trace from before. -/
theorem withdrawn (hx : t.Holds b x) (freed : Freed b x h)
    (dropped : ∀ sid, x.cache.bucket h.id sid ≠ .empty → t.joined h.id) :
    t.Holds b (x.withdrawn h) := by
  have other {r : Nat} (hr : r ≠ h.id) : (x.withdrawn h).registry.find? r = x.registry.find? r :=
    (Registry.find?_erase ..).trans (if_neg hr)
  refine hx.next (.of_same rfl rfl rfl rfl) (fun _ hr => hr) (fun _ _ _ => Iff.rfl)
    (fun ref l h' hold hc hreq hr hleft => ⟨?_, hleft⟩) (fun id h' hf => ?_)
    (fun r sid hne => ?_) (fun _ hp => hx.pending hp)
  · rw [Engine.Registered, other fun hid => (freed ref l hold hc).2 (hreq.trans hid)]
    exact hr
  · exact hx.registered (SortedMap.find?_of_erase hf)
  · by_cases hid : r = h.id
    · subst hid
      exact .inl (dropped sid hne)
    · rw [other hid]
      exact hx.kept hne

/-- Something is registered under an id that nothing is registered under. -/
theorem enlisted (hx : t.Holds b x) (steady : Steady x y)
    (registry : y.registry = ⟨x.registry.entries.insert h.id h⟩) (loops : y.loops = x.loops)
    (cache : y.cache = x.cache) (pending : y.pending = x.pending)
    (absent : x.registry.find? h.id = none) (genuine : b.Registered h ∨ b.handles ≤ h.key) :
    (t.join h.id).Holds b y := by
  have hjoined (r : Nat) (hr : t.joined r) : (t.join h.id).joined r := .inr hr
  refine hx.next steady hjoined (fun _ _ _ => Iff.rfl)
    (fun ref l h' _ _ _ hr hleft => ⟨?_, hleft⟩) (fun id h' hf => ?_) (fun r sid hne => ?_)
    fun p hp a ha => ?_
  · rw [Engine.Registered, registry, Engine.registered_insert]
    refine .inr ⟨fun hid => ?_, hr⟩
    rw [Engine.Registered, hid, absent] at hr
    cases hr
  · rw [registry, Registry.find?_insert] at hf
    split at hf
    · next hid =>
      cases hf
      exact ⟨hid.symm, genuine.imp_right fun hnew => ⟨hnew, .inl hid⟩⟩
    · obtain ⟨hid, hor⟩ := hx.registered hf
      exact ⟨hid, hor.imp_right (And.imp_right .inr)⟩
  · rw [cache] at hne
    unfold Old
    rw [loops, registry, Registry.find?_insert]
    refine (hx.kept hne).imp .inr (Or.imp_right (Or.imp_left (And.imp_right fun hsome => ?_)))
    split
    · rfl
    · exact hsome
  · rw [pending] at hp
    exact (hx.pending hp a ha).later hjoined steady.fades

/-- What the shutdown has found nothing registered under is done with. -/
theorem skipped (hx : t.Holds b x) {id : Nat} {rest : List Nat} (hleft : t.left = id :: rest)
    (absent : x.registry.find? id = none) : ({ t with left := rest } : Tally).Holds b x := by
  have hrest {r : Nat} (hr : (x.registry.find? r).isSome) (hm : r ∈ t.left) : r ∈ rest := by
    rw [hleft] at hm
    refine (List.mem_cons.1 hm).resolve_left fun heq => ?_
    rw [heq, absent] at hr
    cases hr
  refine hx.next (.of_same rfl rfl rfl rfl) (fun _ hr => hr) (fun _ _ _ => Iff.rfl)
    (fun ref l h' _ _ _ hr hm => ⟨hr, hrest ?_ hm⟩) (fun _ _ hf => hx.registered hf)
    (fun r sid hne => ?_)
    (hx.settled (fun _ hr => hr) (.refl b x))
  · rw [show x.registry.find? h'.id = some h' from hr]
    rfl
  · exact (hx.kept hne).imp_right (Or.imp_right (Or.imp_left fun hk => ⟨hrest hk.2 hk.1, hk.2⟩))

/-- At the end of its list the shutdown empties the registry. -/
theorem cleared (hx : t.Holds b x) (hleft : t.left = []) :
    t.Holds b { x with registry := .empty } := by
  refine hx.next (.of_same rfl rfl rfl rfl) (fun _ hr => hr) (fun _ _ _ => Iff.rfl)
    (fun ref l h' _ _ _ _ hm => ?_) (fun _ _ hf => ?_) (fun r sid hne => ?_)
    (fun _ hp => hx.pending hp)
  · rw [hleft] at hm
    cases hm
  · cases hf
  · refine (hx.kept hne).imp_right (Or.imp_right (Or.imp_left fun hk => ?_))
    rw [hleft] at hk
    cases hk.1

/-! ### Loops that are told to end, and new ones -/

theorem old_cancelLoops {ref : Nat} {l' : SamplingLoop} (hold : Old b (x.cancelLoops h) ref l') :
    ∃ l, Old b x ref l ∧ Engine.toldToEnd h x l = l' := by
  obtain ⟨l, hl, htold⟩ := Option.map_eq_some_iff.1
    ((Engine.find?_cancelLoops h x ref).symm.trans hold.1)
  exact ⟨l, ⟨hl, hold.2⟩, htold⟩

theorem life_cancelLoops_of_ne {h' : Handle} (hk : h'.key ≠ h.key) :
    (x.cancelLoops h).life h' = x.life h' :=
  (Engine.life_setLife ..).trans (if_neg hk)

theorem fades_cancelLoops : Fades b x (x.cancelLoops h) := by
  intro ref l' hold hc
  obtain ⟨l, hold₀, rfl⟩ := old_cancelLoops hold
  refine ⟨l, hold₀, ?_, (Engine.owner_toldToEnd ..).symm, (Engine.plan_toldToEnd ..).symm⟩
  cases hcan : l.cancelled with
  | false => rfl
  | true =>
    rw [Engine.cancelled_toldToEnd (.inl hcan)] at hc
    cases hc

/-- What is not told to end with a request belongs to another request, under another id. -/
theorem spared (hb : Sound s b) (hx : t.Holds b x) (due : b.Registered h ∨ Freed b x h) {ref : Nat}
    {l : SamplingLoop} (hold : Old b x ref l) (hc : (Engine.toldToEnd h x l).cancelled = false) :
    Engine.toldToEnd h x l = l ∧ l.owner ≠ h.key ∧ l.plan.request ≠ h.id := by
  have hnot : ¬(l.cancelled = true ∨ l.owner = h.key ∧ l.generation = (x.life h).generation) :=
    fun htold => by rw [Engine.cancelled_toldToEnd htold] at hc; cases hc
  rw [not_or] at hnot
  have hunt : l.cancelled = false := by simpa using hnot.1
  have howner : l.owner ≠ h.key := by
    intro hk
    obtain ⟨h₁, hr₁, -, howner₁, -⟩ := hx.origin hold
    obtain ⟨-, -, hgen, -⟩ := hx.untold hold hunt hr₁ howner₁
    rw [show x.life h₁ = x.life h by rw [Engine.life, Engine.life, ← howner₁, hk]] at hgen
    exact hnot.2 ⟨hk, hgen.symm⟩
  refine ⟨if_neg hnot.2, howner, fun hid => ?_⟩
  rcases due with hr | hf
  · exact howner (hx.kin hb hold hr (.inr hid)).1
  · exact (hf ref l hold hunt).2 hid

/-- Once a request has told its loops to end, nothing from before is left of it that was not told. -/
theorem freed_cancelLoops (hb : Sound s b) (hx : t.Holds b x) (due : b.Registered h ∨ Freed b x h) :
    Freed b (x.cancelLoops h) h := by
  intro ref l' hold hc
  obtain ⟨l, hold₀, rfl⟩ := old_cancelLoops hold
  rw [Engine.owner_toldToEnd, Engine.plan_toldToEnd]
  exact (hx.spared hb due hold₀ hc).2

/-- What is told to end with a request is listed by it. -/
theorem listed_of_told (hx : t.Holds b x) {ref : Nat} {l : SamplingLoop} (hold : Old b x ref l)
    (hc : l.cancelled = false) (told : (Engine.toldToEnd h x l).cancelled = true) :
    ref ∈ (x.life h).loops := by
  obtain ⟨h₁, hr₁, -, howner₁, -⟩ := hx.origin hold
  obtain ⟨-, -, -, hmem, -⟩ := hx.untold hold hc hr₁ howner₁
  have hkey : l.owner = h.key := by
    by_contra hne
    rw [show Engine.toldToEnd h x l = l from if_neg fun hk => hne hk.1, hc] at told
    cases told
  rwa [show x.life h₁ = x.life h by rw [Engine.life, Engine.life, ← howner₁, hkey]] at hmem

/-- A request that has told its loops to end waits for those that it listed. -/
theorem cancelled (hb : Sound s b) (hx : t.Holds b x) (due : b.Registered h ∨ Freed b x h) {p : Part}
    (errand : t.errand p = .free) {left : List Nat} (keep : ∀ r ∈ t.left, r ∈ left ∨ r = h.id) :
    (({ t with left } : Tally).put p ⟨some h.id, (x.life h).loops⟩).Holds b (x.cancelLoops h) := by
  -- whoever is about something else still is
  have other {q : Part} {e : Errand} (hq : (t.errand q).halting ≠ none ∨ (t.errand q).awaited ≠ []) :
      (({ t with left } : Tally).put p e).errand q = t.errand q := by
    refine errand_put_of_ne fun heq => ?_
    rw [heq, errand] at hq
    exact hq.elim (· rfl) (· rfl)
  constructor
  case started => exact hx.started
  case made => exact hx.made
  case origin =>
    intro ref l' hold
    obtain ⟨l, hold₀, rfl⟩ := old_cancelLoops hold
    rw [Engine.owner_toldToEnd, Engine.plan_toldToEnd]
    exact hx.origin hold₀
  case untold =>
    intro ref l' h' hold hc hr howner
    obtain ⟨l, hold₀, rfl⟩ := old_cancelLoops hold
    obtain ⟨heq, hkey, hid⟩ := hx.spared hb due hold₀ hc
    rw [heq] at hc howner ⊢
    obtain ⟨hreq, hreg, hgen, hmem, hleft⟩ := hx.untold hold₀ hc hr howner
    rw [life_cancelLoops_of_ne fun hk => hkey (howner.trans hk)]
    exact ⟨hreq, hreg, hgen, hmem, (keep _ hleft).resolve_right fun heq => hid (hreq.trans heq)⟩
  case told =>
    intro ref l' hold hc
    obtain ⟨l, hold₀, rfl⟩ := old_cancelLoops hold
    cases hcan : l.cancelled with
    | true =>
      obtain ⟨q, hq⟩ := hx.told hold₀ hcan
      exact ⟨q, by rwa [other (.inr (List.ne_nil_of_mem hq))]⟩
    | false => exact ⟨p, by rw [errand_put_self]; exact hx.listed_of_told hold₀ hcan hc⟩
  case awaited =>
    intro ref l' q hold hm
    obtain ⟨l, hold₀, rfl⟩ := old_cancelLoops hold
    apply Engine.cancelled_toldToEnd
    by_cases hq : q = p
    · rw [hq, errand_put_self] at hm
      cases hcan : l.cancelled with
      | true => exact .inl rfl
      | false => exact .inr (hx.listed hold₀ hcan hm)
    · rw [errand_put_of_ne hq] at hm
      exact .inl (hx.awaited hold₀ hm)
  case listed =>
    intro ref l' h' hold hc hm
    obtain ⟨l, hold₀, rfl⟩ := old_cancelLoops hold
    by_cases hk : h'.key = h.key
    · rw [show (x.cancelLoops h).life h' = { x.life h with loops := [] } from
        (Engine.life_setLife ..).trans (if_pos hk)] at hm
      cases hm
    · rw [life_cancelLoops_of_ne hk] at hm ⊢
      obtain ⟨heq, -⟩ := hx.spared hb due hold₀ hc
      rw [heq] at hc ⊢
      exact hx.listed hold₀ hc hm
  case registered => exact fun hf => hx.registered hf
  case recent =>
    intro ref l' hl' hge
    rw [Engine.find?_cancelLoops, Option.map_eq_some_iff] at hl'
    obtain ⟨l, hl, rfl⟩ := hl'
    rw [Engine.plan_toldToEnd]
    exact hx.recent hl hge
  case kept =>
    intro r sid hne
    rcases hx.kept hne with hj | ⟨ref, l, hold, hreq, hsub⟩ | ⟨hm, hsome⟩ | ⟨q, hq⟩
    · exact .inl hj
    · refine .inr (.inl ⟨ref, Engine.toldToEnd h x l, ⟨?_, hold.2⟩, ?_⟩)
      · rw [Engine.find?_cancelLoops, hold.1]
        rfl
      · rw [Engine.plan_toldToEnd]
        exact ⟨hreq, hsub⟩
    · rcases keep r hm with hm | rfl
      · exact .inr (.inr (.inl ⟨hm, hsome⟩))
      · exact .inr (.inr (.inr ⟨p, by rw [errand_put_self]⟩))
    · exact .inr (.inr (.inr ⟨q, by rwa [other (.inl (by rw [hq]; exact nofun))]⟩))
  case pending => exact fun hp a ha => (hx.pending hp a ha).later (fun _ hr => hr) fades_cancelLoops

theorem old_begin (hx : t.Holds b x) {readings : List Snapshot.Reading} {ref : Nat}
    {l : SamplingLoop} : Old b (Engine.begin s h readings x) ref l ↔ Old b x ref l := by
  refine and_congr_left fun hlt => ?_
  rw [Engine.loops_begin, if_neg fun hnew => Nat.not_lt.2 hnew.2.1
    (Nat.lt_of_lt_of_le hlt hx.started)]

theorem fades_begin (hx : t.Holds b x) (readings : List Snapshot.Reading) :
    Fades b x (Engine.begin s h readings x) := fun _ l hold hc =>
  ⟨l, hx.old_begin.1 hold, hc, rfl, rfl⟩

/-- A request of which nothing is left from before starts loops of its own. -/
theorem begun (hx : t.Holds b x) (freed : Freed b x h) (hj : t.joined h.id)
    (readings : List Snapshot.Reading) : t.Holds b (Engine.begin s h readings x) := by
  have same {h' : Handle} (hk : h'.key ≠ h.key) :
      (Engine.begin s h readings x).life h' = x.life h' :=
    Engine.life_eq_of_find? ((Engine.find?_lives_begin ..).trans (if_neg hk))
  constructor
  case started =>
    exact Nat.le_trans hx.started (by rw [Engine.loopsStarted_begin]; exact Nat.le_add_right ..)
  case made =>
    rw [Engine.begin_frame]
    exact hx.made
  case origin => exact fun hold => hx.origin (hx.old_begin.1 hold)
  case untold =>
    intro ref l h' hold hc hr howner
    have hold₀ := hx.old_begin.1 hold
    obtain ⟨hreq, hreg, hgen, hmem, hleft⟩ := hx.untold hold₀ hc hr howner
    rw [same fun hk => (freed ref l hold₀ hc).1 (howner.trans hk)]
    refine ⟨hreq, ?_, hgen, hmem, hleft⟩
    rw [Engine.begin_frame]
    exact hreg
  case told => exact fun hold hc => hx.told (hx.old_begin.1 hold) hc
  case awaited => exact fun hold hm => hx.awaited (hx.old_begin.1 hold) hm
  case listed =>
    intro ref l h' hold hc hm
    have hold₀ := hx.old_begin.1 hold
    by_cases hk : h'.key = h.key
    · refine absurd ?_ (freed ref l hold₀ hc).1
      rw [show (Engine.begin s h readings x).life h' = (Engine.begin s h readings x).life h by
        rw [Engine.life, Engine.life, hk], Engine.life_begin] at hm
      refine (hx.listed (h := h) hold₀ hc ?_).1
      split at hm
      · refine (List.mem_append.1 hm).resolve_right fun hnew => ?_
        obtain ⟨i, -, rfl⟩ := List.mem_map.1 hnew
        have := hx.started
        have := hold.2
        omega
      · exact hm
    · rw [same hk] at hm ⊢
      exact hx.listed hold₀ hc hm
  case registered =>
    intro id h' hf
    rw [Engine.begin_frame] at hf
    exact hx.registered hf
  case recent =>
    intro ref l hl hge
    rw [Engine.loops_begin] at hl
    split at hl
    · obtain ⟨sub, -, rfl⟩ := Option.map_eq_some_iff.1 hl
      exact hj
    · exact hx.recent hl hge
  case kept =>
    intro r sid hne
    by_cases hid : r = h.id
    · subst hid
      exact .inl hj
    · have hbucket : (Engine.begin s h readings x).cache.bucket r sid = x.cache.bucket r sid := by
        rw [Engine.begin_frame]
        exact Snapshot.bucket_takeAll_of_notMem _ _ _ readings _ fun hk => hid hk.1
      rw [hbucket] at hne
      refine (hx.kept hne).imp_right (Or.imp ?_ (Or.imp_left (And.imp_right fun hsome => ?_)))
      · rintro ⟨ref, l, hold, hk⟩
        exact ⟨ref, l, hx.old_begin.2 hold, hk⟩
      · rw [Engine.begin_frame]
        exact hsome
  case pending =>
    intro p hp a ha
    rw [Engine.begin_frame] at hp
    exact (hx.pending hp a ha).later (fun _ hr => hr) (hx.fades_begin readings)

end Holds

end Tally

end Telemetry
