import Telemetry.Proofs.Tally

/-!
# What shutdowns and transactions keep of each other

A shutdown and the transactions beside it stop requests without agreeing on it, and each of them waits
in the middle: for loops, for locks, for reads. Here is what every piece of theirs comes to in the
company of the other, as a promise about the tally.

* `Tally.pact`: what each of the two does, and what it bears with.
* `Tally.stop_keeps`: after a stop nothing from before is left of the request, whoever else was at it.
* `Tally.stopIds_keeps`: a shutdown comes to the end of its list.
* `Tally.handleLocked_keeps`: a transaction leaves nothing that is waited for.
-/
namespace Telemetry

open Engine (Sound Old Fades Freed Steady Planned)
open Work (Keeps)

/-- Something is registered under an id that nothing was registered under. -/
def Engine.Enters (r : Nat) (x y : Engine) : Prop :=
  x.registry.find? r = none ∧ (y.registry.find? r).isSome

namespace Tally

variable {s : Setup} {b x y z : Engine} {t t' t'' : Tally} {h : Handle} {p : Part}

/-! ## The pact -/

/-- What does not go back: ids are joined, and loops from before end. -/
structure Later (b : Engine) (t : Tally) (x : Engine) (t' : Tally) (y : Engine) : Prop where
  joined : ∀ r, t.joined r → t'.joined r
  fades : Fades b x y

/-- What a part does: it keeps to its own errand, the list is for the shutdown to go through, and what
joins is what is registered. -/
structure Does (b : Engine) (p : Part) (t : Tally) (x : Engine) (t' : Tally) (y : Engine) : Prop
    extends Later b t x t' y where
  errand : ∀ q, q ≠ p → t'.errand q = t.errand q
  left : p = .transaction → t'.left = t.left
  entered : ∀ r, t'.joined r → t.joined r ∨ x.Enters r y

/-- What a part bears with: nobody meddles with its errand, or with the list of the shutdown. -/
structure Bears (b : Engine) (p : Part) (t : Tally) (x : Engine) (t' : Tally) (y : Engine) : Prop
    extends Later b t x t' y where
  errand : t'.errand p = t.errand p
  left : p = .shutdown → t'.left = t.left

theorem Later.of_fades (fades : Fades b x y) : Later b t x t y := ⟨fun _ hr => hr, fades⟩

theorem Later.refl (b : Engine) (t : Tally) (x : Engine) : Later b t x t x := .of_fades (.refl b x)

theorem Later.trans (h : Later b t x t' y) (h' : Later b t' y t'' z) : Later b t x t'' z :=
  ⟨fun r hr => h'.joined r (h.joined r hr), h.fades.trans h'.fades⟩

/-- The engine alone has changed. -/
theorem Bears.of_fades (fades : Fades b x y) : Bears b p t x t y :=
  ⟨.of_fades fades, rfl, fun _ => rfl⟩

theorem Bears.refl (b : Engine) (p : Part) (t : Tally) (x : Engine) : Bears b p t x t x :=
  .of_fades (.refl b x)

theorem Bears.trans (h : Bears b p t x t' y) (h' : Bears b p t' y t'' z) : Bears b p t x t'' z :=
  ⟨h.toLater.trans h'.toLater, h'.errand.trans h.errand, fun hp => (h'.left hp).trans (h.left hp)⟩

/-- What one part does the other bears with. -/
theorem Does.bears {q : Part} (h : Does b q t x t' y) (hne : p ≠ q) : Bears b p t x t' y :=
  ⟨h.toLater, h.errand p hne, fun hp => h.left (by cases q <;> simp_all)⟩

/-- What a part does to the engine alone. -/
theorem Does.of_fades (fades : Fades b x y) : Does b p t x t y :=
  ⟨.of_fades fades, fun _ _ => rfl, fun _ => rfl, fun _ => .inl⟩

/-- What a part does that turns to another errand. -/
theorem Does.of_put {e : Errand} (fades : Fades b x y) : Does b p t x (t.put p e) y :=
  ⟨⟨fun _ hr => hr, fades⟩, fun _ hq => errand_put_of_ne hq, fun _ => rfl, fun _ => .inl⟩

theorem Does.trans_put {e : Errand} (h : Does b p t x t' y) : Does b p t x (t'.put p e) y :=
  ⟨⟨h.joined, h.fades⟩, fun q hq => (errand_put_of_ne hq).trans (h.errand q hq), h.left, h.entered⟩

/-- What a part does that registers something. -/
theorem Does.of_join (fades : Fades b x y) (enters : x.Enters h.id y) :
    Does b p t x (t.join h.id) y where
  joined _ hr := .inr hr
  fades := fades
  errand _ _ := rfl
  left _ := rfl
  entered r hr := hr.symm.imp_right fun hid => by rwa [hid]

/-- What shutdowns and transactions keep of each other after the list was made on `b`. -/
def pact (b : Engine) (p : Part) : Pact Tally where
  inv t e := t.Holds b e
  does := Does b p
  bears := Bears b p
  bears_refl := .refl b p
  bears_trans := .trans
  inv_hold l hx := hx.hold l

/-- What one part does in a row the other bears with. -/
theorem bears_of_along {q : Part} {es : List Engine} (h : (pact b q).Along t x es t' y)
    (hne : p ≠ q) : Bears b p t x t' y := by
  induction h with
  | refl t x => exact .refl b p t x
  | note h _ ih => exact (h.bears hne).trans ih
  | change h _ ih => exact (h.bears hne).trans ih

/-- A part is back from what it was about, and waits for nothing. -/
structure Back (b : Engine) (p : Part) (t : Tally) (x : Engine) (t' : Tally) (y : Engine) : Prop
    extends Later b t x t' y where
  holds : t'.Holds b y
  free : t'.errand p = .free

theorem Back.refl (hx : t.Holds b x) (free : t.errand p = .free) : Back b p t x t x :=
  ⟨.refl b t x, hx, free⟩

theorem Back.after (hback : Back b p t' y t'' z) (h : Later b t x t' y) : Back b p t x t'' z :=
  ⟨h.trans hback.toLater, hback.holds, hback.free⟩

/-! ## Reading and joining -/

theorem readAll_keeps (subs : List Subscription) (hx : t.Holds b x) :
    (Engine.readAll subs).Keeps (pact b p)
      (fun t' _ y => Bears b p t x t' y ∧ t'.Holds b y) t x := by
  induction subs generalizing t x with
  | nil => exact ⟨.refl b p t x, hx⟩
  | cons sub rest ih =>
    intro t₁ x₁ a hbears hx₁
    cases a with
    | error => exact ⟨hbears, hx₁⟩
    | ok leaves =>
      refine Keeps.bind (Keeps.mono (fun t₂ out x₂ hq => ?_) (ih hx₁))
      obtain ⟨hbears₂, hx₂⟩ := hq
      cases out <;> exact ⟨hbears.trans hbears₂, hx₂⟩

/-- Waiting for loops is over for each of them when it has ended, and the tally is told. -/
theorem joinAll_keeps (refs : List Nat) {halting : Option Nat} (hx : t.Holds b x)
    (errand : t.errand p = ⟨halting, refs⟩) :
    (Engine.joinAll refs).Keeps (pact b p) (fun t' _ y => Later b t x t' y ∧ t'.Holds b y ∧
      t'.errand p = ⟨halting, []⟩ ∧ (p = .shutdown → t'.left = t.left)) t x := by
  induction refs generalizing t x with
  | nil => exact ⟨.refl b t x, hx, errand, fun _ => rfl⟩
  | cons ref rest ih =>
    intro t₁ x₁ hbears hx₁
    have herrand₁ : t₁.errand p = ⟨halting, ref :: rest⟩ := hbears.errand.trans errand
    have hm : ref ∈ (t₁.errand p).awaited := by
      rw [herrand₁]
      exact List.mem_cons_self
    have onward {x₂ : Engine} (hfades : Fades b x₁ x₂)
        (hx₂ : (t₁.put p ⟨halting, rest⟩).Holds b x₂) :
        (Engine.joinAll rest).Keeps (pact b p) (fun t' _ y => Later b t x t' y ∧ t'.Holds b y ∧
          t'.errand p = ⟨halting, []⟩ ∧ (p = .shutdown → t'.left = t.left))
          (t₁.put p ⟨halting, rest⟩) x₂ := by
      refine Keeps.mono (fun t' _ y hq => ?_) (ih hx₂ errand_put_self)
      obtain ⟨hlater, hy, herrand, hleft⟩ := hq
      have hfirst : Later b t x (t₁.put p ⟨halting, rest⟩) x₂ :=
        ⟨hbears.joined, hbears.fades.trans hfades⟩
      exact ⟨hfirst.trans hlater, hy, herrand, fun hp => (hleft hp).trans (hbears.left hp)⟩
    refine ⟨fun hended => ?_, fun l live untold => ?_⟩
    · have hx₂ := hx₁.ended herrand₁ fun l hold => by
        cases hended.symm.trans hold.1
      exact ⟨_, .of_put (.refl b x₁), hx₂, onward (.refl b x₁) hx₂⟩
    · have hgone := hx₁.gone hm fun l' hl' => by
        rw [live] at hl'
        cases hl'
        exact untold
      have hfades : Fades b x₁ (x₁.abortLoop ref) := (Engine.steady_abortLoop ref x₁).fades
      have hx₂ := (hx₁.ended herrand₁ hgone).abortLoop hgone
      exact Keeps.change _ (.of_put hfades) hx₂ (onward hfades hx₂)

/-! ## Stopping -/

/-- The shutdown strikes the first request off its list. A transaction has no list. -/
def strike (p : Part) (t : Tally) : Tally :=
  { t with left := match p with
      | .shutdown => t.left.tail
      | .transaction => t.left }

theorem left_strike (h : p = .transaction) : (t.strike p).left = t.left := by
  subst h
  rfl

/-- Who stops `h` has it first on the list, if there is one. -/
def First (p : Part) (t : Tally) (h : Handle) : Prop :=
  p = .shutdown → t.left.head? = some h.id

theorem First.keep (first : t.First p h) : ∀ r ∈ t.left, r ∈ (t.strike p).left ∨ r = h.id := by
  intro r hr
  cases p with
  | transaction => exact .inl hr
  | shutdown =>
    have hhead := first rfl
    cases hl : t.left with
    | nil =>
      rw [hl] at hhead
      cases hhead
    | cons id rest =>
      rw [hl] at hhead hr
      cases hhead
      rw [strike, hl]
      exact (List.mem_cons.1 hr).symm

theorem Does.strike {e : Errand} (fades : Fades b x y) : Does b p t x ((t.strike p).put p e) y :=
  Does.trans_put ⟨⟨fun _ hr => hr, fades⟩, fun _ _ => rfl, left_strike, fun _ => .inl⟩

/-- A stop has come to its end. -/
structure Stopped (b : Engine) (p : Part) (h : Handle) (t : Tally) (x : Engine) (t' : Tally)
    (y : Engine) : Prop extends Back b p t x t' y where
  freed : Freed b y h
  dropped : ∀ sid, y.cache.bucket h.id sid = .empty
  left : p = .shutdown → t'.left = (t.strike p).left

theorem bucket_halted (x : Engine) (h : Handle) (sid : Nat) :
    (x.halted h).cache.bucket h.id sid = .empty :=
  (Cache.bucket_removeRequest ..).trans (if_pos rfl)

/-- After a stop nothing from before is left of the request, whoever else was at it. -/
theorem stop_keeps (hb : Sound s b) (hx : t.Holds b x) (due : b.Registered h ∨ Freed b x h)
    (free : t.errand p = .free) (first : t.First p h) :
    (Engine.stop h).Keeps (pact b p) (fun t' _ y => Stopped b p h t x t' y) t x := by
  -- the request is halted at once, without loops to wait for
  have halts {t₁ : Tally} {x₁ : Engine} (hbears : Bears b p t x t₁ x₁) (hx₁ : t₁.Holds b x₁)
      (hfreed : Freed b x₁ h) : ((t₁.strike p).put p .free).Holds b (x₁.halted h) ∧
        Stopped b p h t x ((t₁.strike p).put p .free) (x₁.halted h) := by
    have hfirst : t₁.First p h := fun hp => by rw [hbears.left hp]; exact first hp
    have hy : ((t₁.strike p).put p .free).Holds b (x₁.halted h) :=
      hx₁.halted hfreed (hbears.errand.trans free) (fun _ hr => by cases hr) hfirst.keep
    refine ⟨hy, ⟨⟨⟨hbears.joined, hbears.fades⟩, hy, errand_put_self⟩, hfreed, bucket_halted x₁ h,
      fun hp => ?_⟩⟩
    have hleft := hbears.left hp
    subst hp
    exact congrArg List.tail hleft
  unfold Engine.stop
  split
  · next hm =>
    have hfreed := hx.freed_of_mode hb due (by rw [hm]; decide)
    obtain ⟨hy, hstopped⟩ := halts (.refl b p t x) hx hfreed
    exact ⟨_, Does.strike (.refl b x), hy, hstopped⟩
  · next hm =>
    have hfreed := hx.freed_of_mode hb due (by rw [hm]; decide)
    refine Keeps.acquire fun t₁ x₁ hbears hx₁ => ?_
    have hbears' : Bears b p t x t₁ (x₁.hold (.poll h.key)) := hbears.trans (.of_fades (.refl b x₁))
    obtain ⟨hy, hstopped⟩ := halts hbears' (hx₁.hold _) (hfreed.fades hbears.fades)
    refine Keeps.change _ (Does.strike (.refl b x₁)) hy ⟨_, Does.of_fades (.refl b _), hy.free _, ?_⟩
    exact ⟨⟨⟨hstopped.joined, hstopped.fades⟩, hy.free _, hstopped.free⟩, hstopped.freed,
      hstopped.dropped, hstopped.left⟩
  · refine Keeps.look t (.of_fades (.refl b x)) hx ?_
    have hx₁ := hx.cancelled hb due free first.keep
    have hfreed₁ := hx.freed_cancelLoops hb due
    refine Keeps.change _ (Does.strike Holds.fades_cancelLoops) hx₁ ?_
    refine Keeps.bind (Keeps.mono (fun t₂ _ x₂ hq => ?_) (joinAll_keeps _ hx₁ errand_put_self))
    obtain ⟨hlater, hx₂, herrand, hleft⟩ := hq
    have hfreed₂ := hfreed₁.fades hlater.fades
    have hy : (t₂.put p .free).Holds b (x₂.halted h) :=
      hx₂.halted hfreed₂ herrand (fun _ hr => (Option.some.inj hr).symm) fun _ => .inl
    have hback : Back b p t x (t₂.put p .free) (x₂.halted h) :=
      ⟨⟨hlater.joined, Holds.fades_cancelLoops.trans hlater.fades⟩, hy, errand_put_self⟩
    exact ⟨_, Does.of_put (.refl b x₂), hy, hback, hfreed₂, bucket_halted x₂ h, hleft⟩

/-- The shutdown comes to the end of its list, and nothing is waited for then. -/
theorem stopIds_keeps (hb : Sound s b) (ids : List Nat) (hx : t.Holds b x) (hleft : t.left = ids)
    (free : t.errand .shutdown = .free) :
    (Engine.stopIds ids).Keeps (pact b .shutdown)
      (fun t' _ y => Back b .shutdown t x t' y ∧ t'.left = []) t x := by
  induction ids generalizing t x with
  | nil => exact ⟨.refl hx free, hleft⟩
  | cons id rest ih =>
    cases hf : x.registry.find? id with
    | none =>
      have hx₁ := hx.skipped hleft hf
      have hdoes : Does b .shutdown t x { t with left := rest } x :=
        ⟨⟨fun _ hr => hr, .refl b x⟩, fun _ _ => rfl, nofun, fun _ => .inl⟩
      refine Keeps.look _ hdoes hx₁ ?_
      rw [hf]
      exact Keeps.mono (fun _ _ _ hq => ⟨hq.1.after ⟨fun _ hr => hr, .refl b x⟩, hq.2⟩)
        (ih hx₁ rfl free)
    | some h =>
      refine Keeps.look t (.of_fades (.refl b x)) hx ?_
      rw [hf]
      have first : t.First .shutdown h := fun _ => by
        rw [hleft, (hx.registered hf).1]
        rfl
      refine Keeps.bind (Keeps.mono (fun t₁ _ x₁ hq => ?_)
        (stop_keeps hb hx (hx.due hb hf).2 free first))
      have hleft₁ : t₁.left = rest := by
        rw [hq.left rfl, strike, hleft]
        rfl
      exact Keeps.mono (fun _ _ _ hq' => ⟨hq'.1.after hq.toLater, hq'.2⟩)
        (ih hq.holds hleft₁ hq.free)

/-! ## Starting and registering -/

theorem start_keeps (hx : t.Holds b x) (freed : Freed b x h) (hj : t.joined h.id)
    (free : t.errand p = .free) :
    (Engine.start s h).Keeps (pact b p) (fun t' _ y => Back b p t x t' y) t x := by
  refine Keeps.look t (.of_fades (.refl b x)) hx ?_
  split
  · exact .refl hx free
  · refine Keeps.bind (Keeps.mono (fun t₁ out x₁ hq => ?_) (readAll_keeps _ hx))
    obtain ⟨hbears, hx₁⟩ := hq
    have hfree₁ := hbears.errand.trans free
    cases out with
    | error => exact ⟨hbears.toLater, hx₁, hfree₁⟩
    | ok readings =>
      have hy := hx₁.begun (s := s) (freed.fades hbears.fades) (hbears.joined _ hj) readings
      have hfades := hx₁.fades_begin (s := s) (h := h) readings
      exact Keeps.change t₁ (.of_fades hfades) hy
        ⟨⟨hbears.joined, hbears.fades.trans hfades⟩, hy, hfree₁⟩

/-- Nothing is registered under the id of a request, or all that is has gone. -/
theorem unregister_cases (h : Handle) (x : Engine) :
    (∃ err, Engine.unregister h x = .error err) ∨
      Engine.unregister h x = .ok (x.withdrawn h) := by
  unfold Engine.unregister Registry.delete
  cases x.registry.find? h.id with
  | none => exact .inl ⟨_, rfl⟩
  | some => exact .inr rfl

theorem forgotten (hx : t.Holds b x) (freed : Freed b x h) (hj : t.joined h.id) :
    t.Holds b (Engine.forget h x) ∧ Fades b x (Engine.forget h x) := by
  unfold Engine.forget
  rcases unregister_cases h x with ⟨err, heq⟩ | heq
  · rw [heq]
    exact ⟨hx, .refl b x⟩
  · rw [heq]
    exact ⟨hx.withdrawn freed fun _ _ => hj, .refl b x⟩

/-- What a call came to that was to do something: it is settled. -/
def Applies (b : Engine) (p : Part) (t : Tally) (x : Engine) (t' : Tally)
    (out : Except Error Applied) (y : Engine) : Prop :=
  Back b p t x t' y ∧ ∀ a, out = .ok a → t'.Settled b y a

theorem create_keeps (hb : Sound s b) (r : Request) (hx : t.Holds b x) (free : t.errand p = .free) :
    (Engine.create s r).Keeps (pact b p) (Applies b p t x) t x := by
  refine Keeps.look t (.of_fades (.refl b x)) hx ?_
  simp only [Engine.make]
  rw [show ({ x with handles := x.handles + 1 } : Engine).setStatus ⟨x.handles, r⟩ .validated =
    x.born ⟨x.handles, r⟩ from rfl]
  cases hf : x.registry.find? r.id with
  | some h' =>
    rw [Engine.register_eq_error (e := x.born _) (h := ⟨x.handles, r⟩) hf]
    exact ⟨.refl hx free, fun _ ha => by cases ha⟩
  | none =>
    have hadd : Engine.register ⟨x.handles, r⟩ (x.born ⟨x.handles, r⟩) =
        .ok (x.enrolled ⟨x.handles, r⟩) := Engine.register_eq_ok hf
    rw [hadd]
    have hsteady : Steady x (x.enrolled ⟨x.handles, r⟩) :=
      let st := Steady.setStatus ⟨x.handles, r⟩ .validated x
      ⟨st.loops, st.generation, st.refs, rfl, Nat.le_succ _⟩
    have hself : (x.enrolled ⟨x.handles, r⟩).registry.find? r.id = some ⟨x.handles, r⟩ :=
      (Registry.find?_insert ..).trans (if_pos rfl)
    have hx₁ : (t.join r.id).Holds b (x.enrolled ⟨x.handles, r⟩) :=
      hx.enlisted (h := ⟨x.handles, r⟩) hsteady rfl rfl rfl rfl hf (.inr hx.made)
    have hfreed₁ : Freed b (x.enrolled ⟨x.handles, r⟩) ⟨x.handles, r⟩ :=
      hx₁.freed_of_new hb hx.made fun h' hf' => by
        rw [show (x.enrolled ⟨x.handles, r⟩).registry.find? r.id = some h' from hf'] at hself
        cases hself
        rfl
    have hfades₁ : Fades b x (x.enrolled ⟨x.handles, r⟩) := hsteady.fades
    refine Keeps.change _ (.of_join (h := ⟨x.handles, r⟩) hfades₁
      ⟨hf, congrArg Option.isSome hself⟩) hx₁ ?_
    refine Keeps.bind (Keeps.mono (fun t₂ out x₂ hq => ?_)
      (start_keeps hx₁ hfreed₁ (.inl rfl) free))
    have hlater : Later b t x t₂ x₂ :=
      ⟨fun r' hr => hq.joined r' (.inr hr), hfades₁.trans hq.fades⟩
    have hfreed₂ := hfreed₁.fades hq.fades
    have hj₂ : t₂.joined r.id := hq.joined _ (.inl rfl)
    cases out with
    | ok => exact ⟨⟨hlater, hq.holds, hq.free⟩, fun a ha => by cases ha; exact ⟨hj₂, hfreed₂⟩⟩
    | error =>
      obtain ⟨hy, hfades⟩ := forgotten hq.holds hfreed₂ hj₂
      exact Keeps.change t₂ (.of_fades hfades) hy
        ⟨⟨hlater.trans (.of_fades hfades), hy, hq.free⟩, fun _ ha => by cases ha⟩

/-- Requests that a transaction can delete: what was registered when the list was made, or later. -/
def Due (b x : Engine) (h : Handle) : Prop :=
  (b.Registered h ∨ b.handles ≤ h.key) ∧ (b.Registered h ∨ Freed b x h)

theorem Due.fades (due : Due b x h) (fades : Fades b x y) : Due b y h :=
  ⟨due.1, due.2.imp_right (·.fades fades)⟩

theorem delete_keeps (hb : Sound s b) (hx : t.Holds b x) (due : Due b x h)
    (free : t.errand .transaction = .free) :
    (Engine.delete h).Keeps (pact b .transaction) (Applies b .transaction t x) t x := by
  refine Keeps.bind (Keeps.mono (fun t₁ _ x₁ hq => ?_) (stop_keeps hb hx due.2 free nofun))
  refine Keeps.look t₁ (.of_fades (.refl b x₁)) hq.holds ?_
  rcases unregister_cases h x₁ with ⟨err, heq⟩ | heq
  · rw [heq]
    exact ⟨hq.toBack, nofun⟩
  · rw [heq]
    have hy := hq.holds.withdrawn hq.freed fun sid hne => absurd (hq.dropped sid) hne
    refine Keeps.change t₁ (.of_fades (.refl b x₁)) hy
      ⟨⟨⟨hq.joined, hq.fades⟩, hy, hq.free⟩, fun a ha => ?_⟩
    cases ha
    exact ⟨due.1, hq.freed⟩

/-! ## Transactions -/

/-- What is planned concerns requests that can be deleted. -/
def DuePlan (b x : Engine) : Planned → Prop
  | .delete h => Due b x h
  | _ => True

theorem DuePlan.fades {pl : Planned} (due : DuePlan b x pl) (fades : Fades b x y) :
    DuePlan b y pl := by
  cases pl with
  | delete h => exact Due.fades due fades
  | create | nothing => trivial

theorem apply_keeps (hb : Sound s b) {pl : Planned} (hx : t.Holds b x) (due : DuePlan b x pl)
    (free : t.errand .transaction = .free) :
    (Engine.apply s pl).Keeps (pact b .transaction) (Applies b .transaction t x) t x := by
  cases pl with
  | create r => exact create_keeps hb r hx free
  | delete h => exact delete_keeps hb hx due free
  | nothing => exact ⟨.refl hx free, fun a ha => by cases ha; trivial⟩

theorem revert_keeps (hb : Sound s b) {a : Applied} (hx : t.Holds b x) (settled : t.Settled b x a)
    (free : t.errand .transaction = .free) :
    (Engine.revert s a).Keeps (pact b .transaction) (fun t' _ y => Back b .transaction t x t' y)
      t x := by
  cases a with
  | created h =>
    obtain ⟨hj, hfreed⟩ := settled
    refine Keeps.bind (Keeps.mono (fun t₁ _ x₁ hq => ?_) (stop_keeps hb hx (.inr hfreed) free nofun))
    obtain ⟨hy, hfades⟩ := forgotten hq.holds hq.freed (hq.joined _ hj)
    exact ⟨t₁, .of_fades hfades, hy, ⟨hq.joined, hq.fades.trans hfades⟩, hy, hq.free⟩
  | deleted h =>
    obtain ⟨hgenuine, hfreed⟩ := settled
    refine Keeps.look t (.of_fades (.refl b x)) hx ?_
    cases hf : x.registry.find? h.id with
    | some h' =>
      rw [Engine.register_eq_error hf]
      exact .refl hx free
    | none =>
      rw [Engine.register_eq_ok hf]
      have hsteady : Steady x (x.reenrolled h) := .of_same rfl rfl rfl rfl
      have hx₁ : (t.join h.id).Holds b (x.reenrolled h) :=
        hx.enlisted hsteady rfl rfl rfl rfl hf hgenuine
      have hself : (x.reenrolled h).registry.find? h.id = some h :=
        (Registry.find?_insert ..).trans (if_pos rfl)
      refine Keeps.change _ (.of_join hsteady.fades ⟨hf, congrArg Option.isSome hself⟩) hx₁ ?_
      refine Keeps.bind (Keeps.mono (fun t₂ _ x₂ hq => ?_)
        (start_keeps hx₁ (hfreed.fades hsteady.fades) (.inl rfl) free))
      exact hq.after ⟨fun _ => .inr, hsteady.fades⟩
  | nothing => exact .refl hx free

theorem revertAll_keeps (hb : Sound s b) {applied : List Applied} (hx : t.Holds b x)
    (settled : ∀ a ∈ applied, t.Settled b x a) (free : t.errand .transaction = .free) :
    (Engine.revertAll s applied).Keeps (pact b .transaction)
      (fun t' _ y => Back b .transaction t x t' y) t x := by
  induction applied generalizing t x with
  | nil => exact .refl hx free
  | cons a rest ih =>
    refine Keeps.bind (Keeps.mono (fun t₁ _ x₁ hq => ?_)
      (revert_keeps hb hx (settled a List.mem_cons_self) free))
    refine Keeps.mono (fun _ _ _ hq' => hq'.after hq.toLater) (ih hq.holds (fun a ha => ?_) hq.free)
    exact (settled a (List.mem_cons_of_mem _ ha)).later hq.joined hq.fades

/-- What a transaction did is settled, and what it undid is gone. -/
theorem applyAll_keeps (hb : Sound s b) {before : List Applied} {ps : List Planned}
    (hx : t.Holds b x) (settled : ∀ a ∈ before, t.Settled b x a) (due : ∀ pl ∈ ps, DuePlan b x pl)
    (free : t.errand .transaction = .free) :
    (Engine.applyAll s before ps).Keeps (pact b .transaction) (fun t' out y =>
      Back b .transaction t x t' y ∧ ∀ applied, out = .ok applied → ∀ a ∈ applied,
        t'.Settled b y a) t x := by
  induction ps generalizing before t x with
  | nil => exact ⟨.refl hx free, fun applied hok => by cases hok; exact settled⟩
  | cons pl ps ih =>
    refine Keeps.bind (Keeps.mono (fun t₁ out x₁ hq => ?_)
      (apply_keeps hb hx (due pl List.mem_cons_self) free))
    obtain ⟨hback, hout⟩ := hq
    have hsettled (a : Applied) (ha : a ∈ before) : t₁.Settled b x₁ a :=
      (settled a ha).later hback.joined hback.fades
    cases out with
    | error err =>
      refine Keeps.bind (Keeps.mono (fun t₂ _ x₂ hq => ?_)
        (revertAll_keeps hb hback.holds hsettled hback.free))
      exact ⟨hq.after hback.toLater, nofun⟩
    | ok a =>
      refine Keeps.mono (fun t₂ out x₂ hq => ⟨hq.1.after hback.toLater, hq.2⟩)
        (ih hback.holds (fun a' ha' => ?_) (fun pl' hpl' => ?_) hback.free)
      · rcases List.mem_cons.1 ha' with rfl | ha'
        · exact hout _ rfl
        · exact hsettled a' ha'
      · exact (due pl' (List.mem_cons_of_mem _ hpl')).fades hback.fades

/-- What is planned to be deleted is registered. -/
theorem duePlan_of_planChanges (hb : Sound s b) (hx : t.Holds b x) {cs : List Change}
    {ps : List Planned} (plan : Engine.planChanges s x cs = .ok ps) : ∀ pl ∈ ps, DuePlan b x pl := by
  have hplans := (Engine.planChanges_eq_ok.1 plan).2
  clear plan
  induction hplans with
  | nil => nofun
  | cons h _ ih =>
    refine List.forall_mem_cons.2 ⟨?_, ih⟩
    cases h with
    | delete _ registered => exact hx.due hb registered
    | create | nothing => trivial

/-- A phase of a transaction leaves nothing that is waited for. -/
theorem handleLocked_keeps (hb : Sound s b) (ph : Phase) (hx : t.Holds b x)
    (free : t.errand .transaction = .free) :
    (Engine.handleLocked s ph).Keeps (pact b .transaction)
      (fun t' _ y => Back b .transaction t x t' y) t x := by
  have hsame {t₁ : Tally} {x₁ : Engine} {o : Option Pending} (hback : Back b .transaction t x t₁ x₁)
      (settled : ∀ p, o = some p → ∀ a ∈ p.applied, t₁.Settled b x₁ a) :
      Back b .transaction t x t₁ { x₁ with pending := o } :=
    ⟨⟨hback.joined, hback.fades⟩, hback.holds.of_same rfl rfl rfl rfl rfl rfl settled, hback.free⟩
  cases ph with
  | change txn cs =>
    refine Keeps.look t (.of_fades (.refl b x)) hx ?_
    cases x.pending with
    | some => exact .refl hx free
    | none =>
      refine Keeps.bind (Keeps.look t (.of_fades (.refl b x)) hx ?_)
      cases hplan : Engine.planChanges s x cs with
      | error err => exact .refl hx free
      | ok ps =>
        refine Keeps.mono (fun t₁ out x₁ hq => ?_) (applyAll_keeps hb hx (fun _ ha => by cases ha)
          (duePlan_of_planChanges hb hx hplan) free)
        obtain ⟨hback, hsettled⟩ := hq
        cases out with
        | error err => exact hback
        | ok applied =>
          have hy := hsame (o := some ⟨txn, applied, x₁.now + s.revertTimeout⟩) hback
            fun p hp => by cases hp; exact hsettled applied rfl
          exact Keeps.change t₁ (.of_fades (.refl b x₁)) hy.holds hy
  | done txn =>
    have hy : Back b .transaction t x t
        (if x.pending.any (·.txn = txn) then { x with pending := none } else x) := by
      split
      · exact hsame (.refl hx free) fun _ hp => by cases hp
      · exact .refl hx free
    exact Keeps.change t (.of_fades hy.fades) hy.holds hy
  | abort txn =>
    refine Keeps.look t (.of_fades (.refl b x)) hx ?_
    cases hp : x.pending with
    | none => exact .refl hx free
    | some p =>
      dsimp only
      split
      · have hy : Back b .transaction t x t { x with pending := none } :=
          hsame (.refl hx free) fun _ hp => by cases hp
        refine Keeps.change t (.of_fades hy.fades) hy.holds (Keeps.bind (Keeps.mono
          (fun t₁ _ x₁ hq => hq.after hy.toLater) (revertAll_keeps hb hy.holds (fun a ha => ?_) free)))
        exact (hx.pending hp a ha).later (fun _ hr => hr) hy.fades
      · exact .refl hx free

end Tally

end Telemetry
