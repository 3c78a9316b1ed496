import Telemetry.Proofs.Stopping
import Telemetry.Proofs.System

/-!
# Shutting down

A shutdown beside any number of transactions that are at work or arrive while it waits. Transactions
take turns, under the lock of what is pending, and the shutdown takes that lock only once, before it
makes its list; from then on nothing keeps them apart. They stop the same requests, and neither of
them leaves anything behind that was there when the list was made. But what a transaction registers
after that is not on the list, and the shutdown drops it from the registry without stopping it.

* `Crew.Queue`: of the transactions at most one is at work.
* `Crew.Beset`: the shutdown has its list, and the tally is right.
* `Crew.shutdown_leaves_newcomers`: what is left when all calls were answered belongs to requests that
  were registered after the list was made.
* `Small.newcomer_outlives_shutdown`: such a request may have a loop and leaves, and not be registered.
-/
namespace Telemetry

open Engine (Call Effect Rest Calm Sound)
open Tally (pact Bears)
open Work (Keeps Only)
open Relation (ReflTransGen)

/-- Somewhere along those engines something is registered under an id that nothing was registered
under before. -/
def Engine.Joins (r : Nat) (es : List Engine) : Prop := ∃ x y, [x, y] <:+: es ∧ x.Enters r y

theorem Engine.Joins.widen {r : Nat} {es es' : List Engine} (h : Engine.Joins r es)
    (within : es <:+: es') : Engine.Joins r es' :=
  let ⟨x, y, hxy, henters⟩ := h
  ⟨x, y, hxy.trans within, henters⟩

/-- A live loop or a cached leaf belongs to a request with that id. -/
def Engine.Traces (e : Engine) (r : Nat) : Prop :=
  (∃ ref l, e.loops.find? ref = some l ∧ l.plan.request = r) ∨ ∃ sid, e.cache.bucket r sid ≠ .empty

/-- What joins while a part is at work was registered then. -/
theorem Tally.joins_of_along {b x y : Engine} {t t' : Tally} {p : Part} {es : List Engine}
    (h : (pact b p).Along t x es t' y) {r : Nat} (hr : t'.joined r) :
    t.joined r ∨ Engine.Joins r (x :: es) := by
  induction h with
  | refl => exact .inl hr
  | @note t t₁ t₂ e e₂ es h _ ih =>
    refine (ih hr).elim (fun hr₁ => (h.entered r hr₁).imp_right fun henters => ?_) .inr
    rw [Engine.Enters, henters.1] at henters
    exact absurd henters.2 nofun
  | @change t t₁ t₂ e e₁ e₂ es h _ ih =>
    rcases ih hr with hr₁ | hj
    · exact (h.entered r hr₁).imp_right fun henters => ⟨e, e₁, ⟨[], es, rfl⟩, henters⟩
    · exact .inr (hj.widen (List.infix_cons (List.infix_refl _)))

namespace Crew

variable {s : Setup} {b e e' : Engine} {o : Option (Work (Except Error Unit))}
  {ws : List (Work (Except Error Unit))} {es : List Engine}

/-! ## Transactions take turns -/

/-- A call for a phase of a transaction gives the lock back and answers. -/
def leave (r : Except Error Unit) : Work (Except Error Unit) := do
  .unlock .pending
  return r

/-- A call for a phase that has not begun, or was answered. -/
def Apart (s : Setup) (w : Work (Except Error Unit)) : Prop :=
  (∃ p, w = Engine.handle s p) ∨ ∃ r, w = .done r

/-- The lock of what is pending is not given back. -/
def KeepsLock (x y : Engine) : Prop := .pending ∈ x.held → .pending ∈ y.held

theorem admits_keepsLock : Engine.Admits s KeepsLock where
  enroll _ _ := id
  registry _ _ := id
  begin _ _ _ h := by
    rw [Engine.begin_frame]
    exact h
  burst _ _ _ h := by
    rw [Engine.burst_eq]
    exact h
  cancel _ _ := id
  abort _ _ := id
  halt _ _ := id
  settle _ _ := id
  unlock _ _ := (List.mem_erase_of_ne (by simp)).2

theorem keepsLock_of_chain (h : ReflTransGen KeepsLock e e') : KeepsLock e e' := by
  intro hlocked
  induction h with
  | refl => exact hlocked
  | tail _ hstep ih => exact hstep ih

theorem keepsLock_of_stir {ns : List Note} (hst : Stir s e ns e') : KeepsLock e e' := fun h => by
  rwa [show e'.held = e.held from congrArg Engine.Core.held hst.core]

theorem keepsLock_of_only {w : Work (Except Error Unit)} (hw : w.Only KeepsLock e)
    (expired : Bool) : KeepsLock e (w.go s expired e).1 := by
  refine fun hlocked => keepsLock_of_chain (hw.resume (s := s) expired).flow.1 ?_
  rcases w.resume_fst s expired e with heq | ⟨l, heq⟩
  · rwa [heq]
  · rw [heq]
    exact List.mem_cons_of_mem _ hlocked

/-- Calls for phases, of which at most one is at work: then it has the lock. -/
inductive Queue (s : Setup) (e : Engine) (ws : List (Work (Except Error Unit))) :
    Option (Work (Except Error Unit)) → Prop where
  | idle (apart : ∀ (j : Nat) w, ws[j]? = some w → Apart s w) : Queue s e ws none
  | busy {i : Nat} {v : Work (Except Error Unit)} (at_work : ws[i]? = some (v >>= leave))
    (apart : ∀ (j : Nat) w, j ≠ i → ws[j]? = some w → Apart s w) (waits : v.waits = true)
    (only : ∀ e, v.Only KeepsLock e) (locked : .pending ∈ e.held) : Queue s e ws (some v)

/-- Who of them may go on, with what, and from which engine. -/
inductive Resumes (s : Setup) (e : Engine) : Option (Work (Except Error Unit)) →
    Work (Except Error Unit) → Engine → Work (Except Error Unit) → Prop where
  | enter (free : .pending ∉ e.held) (p : Phase) :
    Resumes s e none (Engine.handle s p) (e.hold .pending) (Engine.handleLocked s p)
  | further {v : Work (Except Error Unit)} (waits : v.waits = true) (ready : v.Ready e)
    (expired : Bool) :
    Resumes s e (some v) (v >>= leave) (v.resume s expired e).1 (v.resume s expired e).2

/-- What a turn of one of them comes to: it is answered, or it waits again. -/
inductive Outcome (x : Engine) (v : Work (Except Error Unit)) (es : List Engine) :
    Engine → Work (Except Error Unit) → Option (Work (Except Error Unit)) → Prop where
  | left {a : Except Error Unit} (ends : (v.flow x).2 = .done a) (passed : x :: v.track x <:+: es) :
    Outcome x v es ((v.flow x).1.free .pending) (.done a) none
  | stays (waits : (v.flow x).2.waits = true) (passed : x :: v.track x <:+: es) :
    Outcome x v es (v.flow x).1 ((v.flow x).2 >>= leave) (some (v.flow x).2)

namespace Queue

variable {v w : Work (Except Error Unit)} {i : Nat}

theorem mono (q : Queue s e ws o) (h : KeepsLock e e') : Queue s e' ws o := by
  cases q with
  | idle apart => exact .idle apart
  | busy at_work apart waits only locked => exact .busy at_work apart waits only (h locked)

theorem eq_none (q : Queue s e ws o) (free : .pending ∉ e.held) : o = none := by
  cases q with
  | idle => rfl
  | busy _ _ _ _ locked => exact absurd locked free

/-- When all of them were answered none is at work. -/
theorem eq_none_of_done (q : Queue s e ws o) (done : ∀ w ∈ ws, ∃ r, w = .done r) : o = none := by
  cases q with
  | idle => rfl
  | @busy i v at_work apart waits =>
    obtain ⟨r, hr⟩ := done _ (List.mem_of_getElem? at_work)
    have hwaits := Work.waits_bind (f := leave) waits
    rw [hr] at hwaits
    cases hwaits

/-- Before its turn one of them has not begun, or it is the one at work. -/
theorem resumes (q : Queue s e ws o) (at_work : ws[i]? = some w) (ready : w.Ready e) (expired : Bool) :
    ∃ x v, Resumes s e o w x v ∧
      w.resume s expired e = (x, v >>= leave) ∧ v.Only KeepsLock x ∧ .pending ∈ x.held ∧
      ∀ (j : Nat) w', j ≠ i → ws[j]? = some w' → Apart s w' := by
  have fresh {p : Phase} (hw : w = Engine.handle s p) : .pending ∉ e.held := by
    rw [hw] at ready
    exact ready
  cases q with
  | idle apart =>
    obtain ⟨p, rfl⟩ | ⟨r, rfl⟩ := apart i w at_work
    · exact ⟨e.hold .pending, Engine.handleLocked s p, .enter ready p, rfl,
        admits_keepsLock.handleLocked p _, List.mem_cons_self, fun j w' _ => apart j w'⟩
    · exact ready.elim
  | @busy k v hk apart waits only locked =>
    by_cases hik : i = k
    · subst hik
      obtain rfl : v >>= leave = w := Option.some.inj (hk.symm.trans at_work)
      refine ⟨_, _, .further waits ((Work.ready_bind waits).1 ready) expired,
        Work.resume_bind s expired e waits, (only e).resume expired, ?_, apart⟩
      rcases v.resume_fst s expired e with heq | ⟨l, heq⟩
      · rwa [heq]
      · rw [heq]
        exact List.mem_cons_of_mem _ locked
    · obtain ⟨p, hw⟩ | ⟨r, rfl⟩ := apart i w hik at_work
      · exact absurd locked (fresh hw)
      · exact ready.elim

/-- After its turn at most one of them is at work again. -/
theorem turn (q : Queue s e ws o) (at_work : ws[i]? = some w) (ready : w.Ready e) (expired : Bool) :
    ∃ x v o', Resumes s e o w x v ∧
      Outcome x v (w.passed s expired e) (w.go s expired e).1 (w.go s expired e).2 o' ∧
      Queue s (w.go s expired e).1 (ws.set i (w.go s expired e).2) o' := by
  obtain ⟨x, v, hresumes, heq, honly, hlocked, hapart⟩ := q.resumes at_work ready expired
  have hi : i < ws.length := (List.getElem?_eq_some_iff.1 at_work).1
  have hpassed : w.passed s expired e = x :: (v >>= leave).track x := by
    unfold Work.passed
    rw [heq]
  have hgo : w.go s expired e = (v >>= leave).flow x := by
    unfold Work.go
    rw [heq]
  have hwithin : x :: v.track x <:+: w.passed s expired e := by
    rw [hpassed, Work.track_bind]
    exact (List.prefix_append (x :: v.track x) _).isInfix
  have others {w' : Work (Except Error Unit)} (j : Nat) (w'' : Work (Except Error Unit)) (hj : j ≠ i)
      (hw'' : (ws.set i w')[j]? = some w'') : Apart s w'' := by
    rw [List.getElem?_set_ne hj.symm] at hw''
    exact hapart j w'' hj hw''
  rw [hgo, Work.flow_bind]
  rcases v.flow_done_or_waits x with ⟨a, ha⟩ | hwaits
  · rw [ha]
    refine ⟨x, v, none, hresumes, .left ha hwithin, .idle fun j w' hw' => ?_⟩
    by_cases hji : j = i
    · subst hji
      rw [List.getElem?_set_self hi] at hw'
      cases hw'
      exact .inr ⟨a, rfl⟩
    · exact others j w' hji hw'
  · rw [Work.flow_of_rests (Work.rests_of_waits (Work.waits_bind hwaits))]
    exact ⟨x, v, _, hresumes, .stays hwaits hwithin, .busy (List.getElem?_set_self hi) others hwaits
      honly.flow.2 (keepsLock_of_chain honly.flow.1 hlocked)⟩

end Queue

/-! ## Before the list is made -/

/-- With none of them at work an engine is at rest, and the one at work leaves it so. -/
def Orderly (s : Setup) (e : Engine) : Option (Work (Except Error Unit)) → Prop
  | none => Rest s e
  | some v => (v >>= leave).Meets s (Effect s fun _ => True) (fun _ _ e => Rest s e) e

/-- The shutdown has not begun. -/
inductive Unlisted (s : Setup) (x : Crew) : Prop where
  | mk {ws : List (Work (Except Error Unit))} {o : Option (Work (Except Error Unit))}
    (calls : x.calls = Call.stop.work s :: ws) (queue : Queue s x.engine ws o)
    (orderly : Orderly s x.engine o)

theorem Orderly.stir {ns : List Note} (h : Orderly s e o) (q : Queue s e ws o)
    (hst : Stir s e ns e') : Orderly s e' o := by
  cases q with
  | idle => exact Rest.of_core h (hst.sound h.sound) hst.core
  | busy _ _ waits => exact (Work.Meets.move (.stir (Work.waits_bind waits) hst) h).2

/-- Before its turn a call of a transaction is bound to leave an engine at rest. -/
theorem Resumes.meets {w v : Work (Except Error Unit)} {x : Engine} (h : Resumes s e o w x v)
    (orderly : Orderly s e o) :
    w.Meets s (Effect s fun _ => True) (fun _ _ e => Rest s e) e := by
  cases h with
  | enter _ p => exact Call.meets orderly (.phase p)
  | further => exact orderly

/-- And so it is after it. -/
theorem Orderly.turn {w v w' : Work (Except Error Unit)} {x : Engine} {expired : Bool}
    {o' : Option (Work (Except Error Unit))} (orderly : Orderly s e o) (ready : w.Ready e)
    (resumes : Resumes s e o w x v) (out : Outcome x v es (w.go s expired e).1 w' o')
    (hw' : w' = (w.go s expired e).2) : Orderly s (w.go s expired e).1 o' := by
  obtain ⟨ns, c⟩ := Work.go_course s expired ready
  have hmeets := (Work.Meets.along c (resumes.meets orderly)).2
  rw [← hw'] at hmeets
  generalize (w.go s expired e).1 = e' at out hmeets
  cases out with
  | left => exact hmeets
  | stays => exact hmeets

/-! ## After the list was made -/

/-- The one at work keeps to the tally, or there is none and nothing is waited for. -/
def Bound (b : Engine) (t : Tally) (e : Engine) : Option (Work (Except Error Unit)) → Prop
  | none => t.errand .transaction = .free
  | some v => v.Keeps (pact b .transaction) (fun t _ _ => t.errand .transaction = .free) t e

/-- The shutdown is at work beside transactions, and what joined since was registered in `es`. -/
inductive Beset (s : Setup) (b : Engine) (es : List Engine) (x : Crew) : Prop where
  | mk {t : Tally} {w : Work (Except Error Unit)} {ws : List (Work (Except Error Unit))}
    {o : Option (Work (Except Error Unit))} (calls : x.calls = w :: ws)
    (queue : Queue s x.engine ws o) (holds : t.Holds b x.engine) (rests : w.Rests)
    (only : ∀ e, w.Only KeepsLock e)
    (keeps : w.Keeps (pact b .shutdown) (fun t _ _ => t.left = [] ∧ t.errand .shutdown = .free) t
      x.engine)
    (bound : Bound b t x.engine o) (joined : ∀ r, t.joined r → Engine.Joins r es)

variable {t t' : Tally}

theorem Bound.bear (h : Bound b t e o) (q : Queue s e' ws o)
    (hbears : Bears b .transaction t e t' e') : Bound b t' e' o := by
  cases q with
  | idle => exact hbears.errand.trans h
  | busy _ _ waits => exact Keeps.bear (Work.rests_of_waits waits) hbears hbears.errand.trans h

/-- Past a wait nothing has happened to bear with. -/
theorem bears_resume (p : Part) (t : Tally) (w : Work (Except Error Unit)) (expired : Bool)
    (e : Engine) : Bears b p t e t (w.resume s expired e).1 := by
  rcases w.resume_fst s expired e with heq | ⟨l, heq⟩
  · rw [heq]
    exact .refl b p t e
  · rw [heq]
    exact .of_fades (.refl b e)

/-- A turn of a transaction is within its pact. -/
theorem Resumes.along {w v : Work (Except Error Unit)} {x : Engine} (hb : Sound s b)
    (h : Resumes s e o w x v) (holds : t.Holds b e) (bound : Bound b t e o) :
    Bears b .shutdown t e t x ∧ ∃ t', (pact b .transaction).Along t x (v.track x) t' (v.flow x).1 ∧
      t'.Holds b (v.flow x).1 ∧ (v.flow x).2.Keeps (pact b .transaction)
        (fun t _ _ => t.errand .transaction = .free) t' (v.flow x).1 := by
  cases h with
  | enter _ p =>
    have hkeeps := Tally.handleLocked_keeps hb p (holds.hold .pending) bound
    exact ⟨.of_fades (.refl b e),
      Keeps.flow (Keeps.mono (fun _ _ _ hq => hq.free) hkeeps) (holds.hold .pending)⟩
  | further waits ready expired =>
    exact ⟨bears_resume .shutdown t _ expired e,
      Keeps.turn expired (Work.rests_of_waits waits) ready bound holds⟩

/-- When it is over it is answered, and the lock is free, or it is bound as before. -/
theorem Outcome.bound {w' v : Work (Except Error Unit)} {x : Engine}
    {o' : Option (Work (Except Error Unit))} (out : Outcome x v es e' w' o')
    (holds : t.Holds b (v.flow x).1) (keeps : (v.flow x).2.Keeps (pact b .transaction)
      (fun t _ _ => t.errand .transaction = .free) t (v.flow x).1) :
    t.Holds b e' ∧ Bound b t e' o' ∧ (Bears b .shutdown t (v.flow x).1 t e') := by
  cases out with
  | left ends =>
    rw [ends] at keeps
    exact ⟨holds.free .pending, keeps, .of_fades (.refl b _)⟩
  | stays => exact ⟨holds, keeps, .refl b .shutdown t _⟩

theorem Outcome.passed {w' v : Work (Except Error Unit)} {x : Engine}
    {o' : Option (Work (Except Error Unit))} (out : Outcome x v es e' w' o') :
    x :: v.track x <:+: es := by
  cases out with
  | left _ passed | stays _ passed => exact passed

variable {x y z : Crew} {es' : List Engine}

theorem Beset.step (hb : Sound s b) (h : Beset s b es x) (st : Step s x es' y) :
    Beset s b (es ++ es') y := by
  obtain ⟨calls, queue, holds, rests, only, keeps, bound, joined⟩ := h
  rename_i t w ws o
  have joined' {es₁ : List Engine} (within : es₁ <:+: es') {r : Nat}
      (hr : t.joined r ∨ Engine.Joins r es₁) : Engine.Joins r (es ++ es') :=
    hr.elim (fun hr => (joined r hr).widen (List.prefix_append es es').isInfix) fun hj =>
      hj.widen (within.trans (List.suffix_append es es').isInfix)
  cases st with
  | @stir e ns hst =>
    have hfades := (Engine.steady_stir hst).fades (b := b)
    have bears (p : Part) : Bears b p t x.engine t e := .of_fades hfades
    have queue' := queue.mono (keepsLock_of_stir hst)
    exact .mk calls queue' (holds.stir hst) rests only (Keeps.bear rests (bears _) id keeps)
      (bound.bear queue' (bears _)) fun r hr => joined' (List.infix_refl _) (.inl hr)
  | @call i w' at_work ready expired =>
    rw [calls] at at_work
    cases i with
    | zero =>
      cases at_work
      obtain ⟨t', halong, hholds, hkeeps⟩ := Keeps.turn expired rests ready keeps holds
      have hbears : Bears b .transaction t x.engine t' (w.go s expired x.engine).1 :=
        (bears_resume _ t w expired x.engine).trans (Tally.bears_of_along halong nofun)
      have queue' := queue.mono (keepsLock_of_only (s := s) (only x.engine) expired)
      refine .mk ?_ queue' hholds (Work.flow_rests ..) ((only x.engine).resume expired).flow.2
        hkeeps (bound.bear queue' hbears) fun r hr =>
          joined' (List.infix_refl _) (Tally.joins_of_along halong hr)
      rw [calls]
      rfl
    | succ k =>
      obtain ⟨x₁, v, o', hresumes, hout, queue'⟩ := queue.turn at_work ready expired
      obtain ⟨hbears₁, t', halong, hholds, hkeeps⟩ := hresumes.along hb holds bound
      obtain ⟨hholds', hbound, hbears'⟩ := hout.bound hholds hkeeps
      have hbears := (hbears₁.trans (Tally.bears_of_along halong nofun)).trans hbears'
      refine .mk ?_ queue' hholds' rests only (Keeps.bear rests hbears (fun hq => ?_) keeps) hbound
        fun r hr => joined' hout.passed (Tally.joins_of_along halong hr)
      · rw [calls]
        rfl
      · exact ⟨(hbears.left rfl).trans hq.1, hbears.errand.trans hq.2⟩

/-- The turn in which the shutdown lists what is registered, after it has dropped what was pending. It
goes on to the first loop it has to wait for. -/
structure Lists (s : Setup) (x : Crew) (es : List Engine) (y : Crew) : Prop where
  at_work : x.calls[0]? = some (Call.stop.work s)
  free : .pending ∉ x.engine.held
  passed : es = (Call.stop.work s).passed s false x.engine
  turned : y = ⟨((Call.stop.work s).go s false x.engine).1,
    x.calls.set 0 ((Call.stop.work s).go s false x.engine).2⟩

/-- An engine of which the shutdown lists what is registered. -/
def listed (e : Engine) : Engine := ({ e.hold .pending with pending := none } : Engine).free .pending

/-- What is left of a shutdown that has its list. -/
def stopping (ids : List Nat) : Work (Except Error Unit) :=
  (Engine.stopIds ids >>= fun _ => .change fun e => { e with registry := .empty }) >>=
    fun _ => pure (.ok ())

theorem go_shutdown (s : Setup) (expired : Bool) (e : Engine) :
    (Call.stop.work s).go s expired e =
      (stopping (listed e).registry.ids).flow (listed e) := rfl

theorem passed_shutdown (s : Setup) (expired : Bool) (e : Engine) :
    (Call.stop.work s).passed s expired e =
      e.hold .pending :: { e.hold .pending with pending := none } :: listed e ::
        (stopping (listed e).registry.ids).track (listed e) := rfl

theorem stopping_keeps (hb : Sound s b) (ids : List Nat) {t : Tally} (holds : t.Holds b e)
    (left : t.left = ids) (free : t.errand .shutdown = .free) : (stopping ids).Keeps (pact b .shutdown)
      (fun t _ _ => t.left = [] ∧ t.errand .shutdown = .free) t e := by
  refine Keeps.bind (Keeps.bind (Keeps.mono (fun t₁ _ e₁ hq => ?_)
    (Tally.stopIds_keeps hb ids holds left free)))
  obtain ⟨hback, hleft⟩ := hq
  exact Keeps.change t₁ (.of_fades (.refl b e₁)) (hback.holds.cleared hleft) ⟨hleft, hback.free⟩

theorem stopping_only (s : Setup) (ids : List Nat) (e : Engine) :
    (stopping ids).Only KeepsLock e :=
  Only.bind (Only.bind (admits_keepsLock (s := s).stopIds ids e) fun _ e =>
    Only.change (admits_keepsLock (s := s).registry _ e)) fun _ _ => trivial

/-- When it makes its list no transaction is at work, so that the tally can begin. -/
theorem Unlisted.lists (h : Unlisted s x) (ready : Work.Ready x.engine (Call.stop.work s))
    (expired : Bool) : Sound s (listed x.engine) ∧
      Beset s (listed x.engine) ((Call.stop.work s).passed s expired x.engine)
        ⟨((Call.stop.work s).go s expired x.engine).1,
          x.calls.set 0 ((Call.stop.work s).go s expired x.engine).2⟩ := by
  obtain ⟨calls, queue, orderly⟩ := h
  rename_i ws o
  obtain rfl := queue.eq_none ready
  have hrest : Rest s x.engine := orderly
  have hcalm : Calm s (listed x.engine) := hrest.toCalm.of_same rfl rfl rfl rfl rfl rfl
  have hbegin := Tally.Holds.begin hcalm rfl
  obtain ⟨t, halong, hholds, hkeeps⟩ := Keeps.flow (stopping_keeps hcalm.sound
    (listed x.engine).registry.ids hbegin rfl rfl) hbegin
  rw [go_shutdown, passed_shutdown, calls]
  refine ⟨hcalm.sound, .mk (o := none) rfl ?_ hholds (Work.flow_rests ..)
    (stopping_only s _ _).flow.2 hkeeps ?_ fun r hr => ?_⟩
  · cases queue with
    | idle apart => exact .idle apart
  · exact (Tally.bears_of_along (p := .transaction) halong nofun).errand
  · have hjoins := (Tally.joins_of_along halong hr).resolve_left id
    exact hjoins.widen (List.infix_cons (List.infix_cons (List.infix_refl _)))

theorem Unlisted.step (h : Unlisted s x) (st : Step s x es y) : Unlisted s y ∨
    Lists s x es y ∧ Sound s (listed x.engine) ∧ Beset s (listed x.engine) es y := by
  cases st with
  | stir hst =>
    obtain ⟨calls, queue, orderly⟩ := h
    exact .inl (.mk calls (queue.mono (keepsLock_of_stir hst)) (orderly.stir queue hst))
  | @call i w at_work ready expired =>
    cases i with
    | zero =>
      obtain rfl : Call.stop.work s = w := by
        obtain ⟨calls⟩ := h
        rw [calls] at at_work
        exact Option.some.inj at_work
      exact .inr ⟨⟨at_work, ready, rfl, rfl⟩, h.lists ready expired⟩
    | succ k =>
      obtain ⟨calls, queue, orderly⟩ := h
      rw [calls] at at_work
      obtain ⟨x₁, v, o', hresumes, hout, queue'⟩ := queue.turn at_work ready expired
      refine .inl (.mk ?_ queue' (orderly.turn ready hresumes hout rfl))
      rw [calls]
      rfl

/-! ## Runs -/

variable {ps : List Phase}

theorem unlisted_of_rest (rest : Rest s e) : Unlisted s (.of s e (.stop :: ps.map .phase)) := by
  refine .mk (o := none) rfl (.idle fun j w hw => ?_) rest
  rw [List.getElem?_map, Option.map_eq_some_iff] at hw
  obtain ⟨c, hc, rfl⟩ := hw
  rw [List.getElem?_map, Option.map_eq_some_iff] at hc
  obtain ⟨p, -, rfl⟩ := hc
  exact .inl ⟨p, rfl⟩

/-- In a run the shutdown makes its list once, or it has not begun. -/
theorem Run.unlisted_or_beset (rest : Rest s e) (run : Run s (.of s e (.stop :: ps.map .phase)) es y) :
    Unlisted s y ∨ ∃ es₁ x es₂ z es₃, Run s (.of s e (.stop :: ps.map .phase)) es₁ x ∧
      Lists s x es₂ z ∧ Run s z es₃ y ∧ es = es₁ ++ (es₂ ++ es₃) ∧
      Sound s (listed x.engine) ∧ Beset s (listed x.engine) (es₂ ++ es₃) y := by
  induction run with
  | refl => exact .inl (unlisted_of_rest rest)
  | @step y y' es es' before st ih =>
    rcases ih with h | ⟨es₁, x, es₂, z, es₃, hbefore, hlists, hafter, rfl, hb, h⟩
    · refine (h.step st).imp_right fun ⟨hlists, hb, hbeset⟩ => ?_
      refine ⟨es, y, es', y', [], before, hlists, .refl, ?_⟩
      rw [List.append_nil]
      exact ⟨rfl, hb, hbeset⟩
    · refine .inr ⟨es₁, x, es₂, z, es₃ ++ es', hbefore, hlists, hafter.step st, ?_⟩
      rw [← List.append_assoc es₂]
      exact ⟨List.append_assoc .., hb, h.step hb st⟩

/-- What was live in `x` has ended, and what is left belongs to requests that were registered in
`es`. -/
structure Purged (x : Engine) (es : List Engine) (y : Engine) : Prop where
  ended : ∀ {ref l}, x.loops.find? ref = some l → y.loops.find? ref = none
  newcomers : ∀ {r}, y.Traces r → Engine.Joins r es

/-- When the shutdown and all transactions are done, nothing that was there is waited for. -/
theorem Beset.purged (hb : Sound s b) (h : Beset s b es y) (finished : y.Finished) :
    Purged b es y.engine := by
  obtain ⟨calls, queue, holds, rests, only, keeps, bound, joined⟩ := h
  rename_i t w ws o
  have hdone (w' : Work (Except Error Unit)) (hm : w' ∈ w :: ws) : ∃ r, w' = .done r :=
    finished w' (calls ▸ hm)
  obtain rfl := queue.eq_none_of_done fun w' hw' => hdone w' (List.mem_cons_of_mem _ hw')
  obtain ⟨r, rfl⟩ := hdone w List.mem_cons_self
  obtain ⟨hleft, hfree⟩ := keeps
  have herrand (p : Part) : t.errand p = .free := by
    cases p with
    | shutdown => exact hfree
    | transaction => exact bound
  have gone (ref : Nat) (l : SamplingLoop) : ¬Engine.Old b y.engine ref l := by
    intro hold
    cases hc : l.cancelled with
    | true =>
      obtain ⟨p, hp⟩ := holds.told hold hc
      rw [herrand p] at hp
      cases hp
    | false =>
      obtain ⟨h, hr, -, howner, -⟩ := holds.origin hold
      obtain ⟨-, -, -, -, hm⟩ := holds.untold hold hc hr howner
      rw [hleft] at hm
      cases hm
  refine ⟨fun {ref l} hl => ?_, fun {r} htraces => joined r ?_⟩
  · refine Option.eq_none_iff_forall_ne_some.2 fun l' hl' => ?_
    exact gone ref l' ⟨hl', hb.numbered hl⟩
  · rcases htraces with ⟨ref, l, hl, rfl⟩ | ⟨sid, hne⟩
    · exact holds.recent hl (Nat.not_lt.1 fun hlt => gone ref l ⟨hl, hlt⟩)
    · rcases holds.kept hne with hj | ⟨ref, l, hold, -⟩ | ⟨hm, -⟩ | ⟨p, hp⟩
      · exact hj
      · exact absurd hold (gone ref l)
      · rw [hleft] at hm
        cases hm
      · rw [herrand p] at hp
        cases hp

/-- However a shutdown and transactions interleave: once all of them were answered, every loop that was
live when the list was made has ended, and loops and leaves belong to requests that were registered
after that. -/
theorem shutdown_leaves_newcomers (rest : Rest s e)
    (run : Run s (.of s e (.stop :: ps.map .phase)) es y) (finished : y.Finished) :
    ∃ es₁ x es₂ z es₃, Run s (.of s e (.stop :: ps.map .phase)) es₁ x ∧ Lists s x es₂ z ∧
      Run s z es₃ y ∧ es = es₁ ++ (es₂ ++ es₃) ∧ Purged x.engine (es₂ ++ es₃) y.engine := by
  rcases run.unlisted_or_beset rest with h | ⟨es₁, x, es₂, z, es₃, h₁, h₂, h₃, heq, hb, h⟩
  · obtain ⟨calls, -, -⟩ := h
    obtain ⟨r, hr⟩ := finished (Call.stop.work s) (by rw [calls]; exact List.mem_cons_self)
    cases hr
  · have hpurged := h.purged hb finished
    exact ⟨es₁, x, es₂, z, es₃, h₁, h₂, h₃, heq, ⟨hpurged.ended, hpurged.newcomers⟩⟩

/-! ## A newcomer -/

/-- The turn of the call with that number. -/
def turn (s : Setup) (i : Nat) (x : Crew) : Crew :=
  match x.calls[i]? with
  | none => x
  | some w => ⟨(w.go s false x.engine).1, x.calls.set i (w.go s false x.engine).2⟩

theorem Run.turn {i : Nat} (run : Run s x es y)
    (ready : (y.calls[i]?).any fun w => w.Ready y.engine) : ∃ es', Run s x es' (y.turn s i) := by
  obtain ⟨w, hw, hready⟩ := Option.any_eq_true .. |>.1 ready
  unfold Crew.turn
  rw [hw]
  exact ⟨_, run.step (.call hw (of_decide_eq_true hready) false)⟩

/-- A loop that was told to end does so. -/
theorem Run.ends (run : Run s x es y) (ref : Nat)
    (told : (y.engine.loops.find? ref).any (·.cancelled)) :
    ∃ es', Run s x es' { y with engine := y.engine.endLoop ref } := by
  obtain ⟨l, hl, hc⟩ := Option.any_eq_true .. |>.1 told
  exact ⟨_, run.step (.stir (.ends hl hc))⟩

end Crew

namespace Small

open Crew (Run Lists Purged)

/-- As `creation`, of another request. -/
def newcomer : Change := .creation "/t:subscribe-requests/subscribe-request[id='2']" payload

/-- A server with request 1 is shut down while a transaction creates request 2. -/
def besieged : Crew := .of setup established (.stop :: [.change 8 [newcomer]].map .phase)

/-- The shutdown has told the loop of request 1 to end, request 2 is registered and about to start,
and the loop has ended. -/
def newcomerRegistered : Crew :=
  let x := (besieged.turn setup 0).turn setup 1
  { x with engine := x.engine.endLoop 0 }

/-- The shutdown has emptied the registry, and request 2 has started. -/
def newcomerLeft : Crew := (newcomerRegistered.turn setup 0).turn setup 1

theorem run_besieged : ∃ es, Run setup besieged es newcomerLeft := by
  obtain ⟨es₁, told⟩ := (Run.refl (s := setup) (x := besieged)).turn (i := 0) (by decide +kernel)
  obtain ⟨es₂, registered⟩ := told.turn (i := 1) (by decide +kernel)
  obtain ⟨es₃, ended⟩ := Run.ends registered 0 (by decide +kernel)
  obtain ⟨es₄, emptied⟩ := ended.turn (i := 0) (by decide +kernel)
  exact emptied.turn (i := 1) (by decide +kernel)

theorem newcomer_cached : newcomerLeft.engine.cache.bucket 2 5 ≠ .empty := by
  have hcached : (newcomerLeft.engine.cache.bucket 2 5).isEmpty = false := by decide +kernel
  intro hempty
  rw [hempty] at hcached
  cases hcached

theorem small_shutdown_leaves_newcomer : ∃ es, Run setup besieged es newcomerLeft ∧
    newcomerLeft.Finished ∧ newcomerLeft.engine.Traces 2 ∧ ∃ es₁ x es₂ z es₃,
      Run setup besieged es₁ x ∧ Lists setup x es₂ z ∧ Run setup z es₃ newcomerLeft ∧
      es = es₁ ++ (es₂ ++ es₃) ∧ Purged x.engine (es₂ ++ es₃) newcomerLeft.engine := by
  obtain ⟨es, run⟩ := run_besieged
  have finished : newcomerLeft.Finished := by decide +kernel
  exact ⟨es, run, finished, .inr ⟨5, newcomer_cached⟩,
    Crew.shutdown_leaves_newcomers reachable_established.good.rest run finished⟩

/-- Not all that is left is registered: once all calls were answered there is a loop that nobody told to
end, and leaves in the cache, of a request that is in no registry. -/
theorem newcomer_outlives_shutdown : ∃ es, Engine.Rest setup established ∧
    Run setup (.of setup established (.stop :: [.change 8 [newcomer]].map .phase)) es newcomerLeft ∧
    newcomerLeft.Finished ∧ newcomerLeft.engine.registry.find? 2 = none ∧
    (newcomerLeft.engine.loops.find? 1).map (fun l => (l.plan.request, l.cancelled)) =
      some (2, false) ∧ newcomerLeft.engine.cache.bucket 2 5 ≠ .empty := by
  obtain ⟨es, run⟩ := run_besieged
  exact ⟨es, reachable_established.good.rest, run, by decide +kernel, by decide +kernel,
    by decide +kernel, newcomer_cached⟩

end Small

end Telemetry
