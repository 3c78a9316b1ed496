import Mathlib.Logic.Relation
import Telemetry.Proofs.Calls

/-!
# Calls at work together

Any number of calls are at work on one engine. Each goes on by itself until it has to wait: for a
read, for a lock, for the end of a loop. Only there do others come in, and what happens without any
call happens there too. Nothing is assumed about who comes next, so that a call that arrives late is
one whose first turn comes late.

* `Work.flow`: work goes on until it waits or is done.
* `Work.Only`: every change that work makes is within a relation, whatever happened while it waited.
* `Engine.Admits.call`: the changes that calls make, one by one.
* `Crew.Run.only`: what holds of all of them holds of everything that happens in a run.
* `Crew.go_course`: a turn of a call is a course of it.
-/
namespace Telemetry

open Engine (Call)
open Relation (ReflTransGen)

/-! ## Turns of one call -/

namespace Work

variable {α β : Type}

/-- Work goes on until it has to wait, or to its end. -/
def flow : Work α → Engine → Engine × Work α
  | look k, e => (k e).flow e
  | update f k, e => k.flow (f e)
  | w, e => (e, w)

/-- What work waits for is there: the lock is free, the loop has ended or nobody told it to end. The
answer to a read may come at any time. -/
def Ready (e : Engine) : Work α → Prop
  | done _ => False
  | look _ | update .. | read .. => True
  | lock l _ => l ∉ e.held
  | join ref _ => ∀ l, e.loops.find? ref = some l → l.cancelled = false

instance (e : Engine) : (w : Work α) → Decidable (w.Ready e)
  | done _ => .isFalse id
  | look _ | update .. | read .. => .isTrue trivial
  | lock l _ => inferInstanceAs (Decidable (l ∉ e.held))
  | join ref _ => inferInstanceAs (Decidable (∀ l ∈ e.loops.find? ref, l.cancelled = false))

instance : (w : Work α) → Decidable (∃ a, w = done a)
  | done a => .isTrue ⟨a, rfl⟩
  | look _ | update .. | read .. | lock .. | join .. => .isFalse nofun

/-- The turn of a call that is ready. -/
def go (s : Setup) (expired : Bool) (w : Work α) (e : Engine) : Engine × Work α :=
  (w.resume s expired e).2.flow (w.resume s expired e).1

/-- The engines that work comes through until it has to wait. -/
def track : Work α → Engine → List Engine
  | look k, e => (k e).track e
  | update f k, e => f e :: k.track (f e)
  | _, _ => []

/-- The engines that a turn comes through. -/
def passed (s : Setup) (expired : Bool) (w : Work α) (e : Engine) : List Engine :=
  (w.resume s expired e).1 :: (w.resume s expired e).2.track (w.resume s expired e).1

/-- Work stands at a wait, or it is done. -/
def Rests : Work α → Prop
  | look _ | update .. => False
  | _ => True

theorem flow_rests (w : Work α) (e : Engine) : (w.flow e).2.Rests := by
  induction w generalizing e with
  | look k ih => exact ih e e
  | update f k ih => exact ih (f e)
  | done | read | lock | join => trivial

theorem flow_of_rests {w : Work α} (h : w.Rests) (e : Engine) : w.flow e = (e, w) := by
  cases w with
  | look | update => exact h.elim
  | done | read | lock | join => rfl

/-- Work before other work goes on by itself, and if it comes to its end the other follows. -/
theorem flow_bind (w : Work α) (f : α → Work β) (e : Engine) :
    (w >>= f).flow e = ((w.flow e).2 >>= f).flow (w.flow e).1 := by
  change (w.bind f).flow e = ((w.flow e).2.bind f).flow (w.flow e).1
  induction w generalizing e with
  | look k ih => exact ih e e
  | update g k ih => exact ih (g e)
  | done | read | lock | join => rfl

/-- So do the engines that it comes through. -/
theorem track_bind (w : Work α) (f : α → Work β) (e : Engine) :
    (w >>= f).track e = w.track e ++ ((w.flow e).2 >>= f).track (w.flow e).1 := by
  change (w.bind f).track e = w.track e ++ ((w.flow e).2.bind f).track (w.flow e).1
  induction w generalizing e with
  | look k ih => exact ih e e
  | update g k ih => exact congrArg (g e :: ·) (ih (g e))
  | done | read | lock | join => rfl

/-- Work that goes on by itself comes to its end, or to a wait. -/
theorem flow_done_or_waits (w : Work α) (e : Engine) :
    (∃ a, (w.flow e).2 = .done a) ∨ (w.flow e).2.waits = true := by
  induction w generalizing e with
  | look k ih => exact ih e e
  | update f k ih => exact ih (f e)
  | done a => exact .inl ⟨a, rfl⟩
  | read | lock | join => exact .inr rfl

theorem rests_of_waits {w : Work α} (h : w.waits = true) : w.Rests := by
  cases w with
  | look | update => cases h
  | done | read | lock | join => trivial

theorem waits_bind {w : Work α} {f : α → Work β} (h : w.waits = true) : (w >>= f).waits = true := by
  cases w with
  | done | look | update => cases h
  | read | lock | join => rfl

/-- Before work that waits is done nothing is to be seen of what comes after it. -/
theorem resume_bind (s : Setup) (expired : Bool) {w : Work α} {f : α → Work β} (e : Engine)
    (h : w.waits = true) : (w >>= f).resume s expired e =
      ((w.resume s expired e).1, (w.resume s expired e).2 >>= f) := by
  cases w with
  | done | look | update => cases h
  | read | lock | join => rfl

theorem ready_bind {w : Work α} {f : α → Work β} {e : Engine} (h : w.waits = true) :
    (w >>= f).Ready e ↔ w.Ready e := by
  cases w with
  | done | look | update => cases h
  | read | lock | join => rfl

theorem flow_course (s : Setup) (w : Work α) (e : Engine) :
    ∃ ns, Course s w e ns (w.flow e).2 (w.flow e).1 := by
  induction w generalizing e with
  | look k ih =>
    obtain ⟨ns, c⟩ := ih e e
    exact ⟨_, .head (.look k e) c⟩
  | update f k ih =>
    obtain ⟨ns, c⟩ := ih (f e)
    exact ⟨_, .head (.update f k e) c⟩
  | done | read | lock | join => exact ⟨[], .refl _ _⟩

/-- A turn of a call that is ready is a course of it. -/
theorem go_course (s : Setup) (expired : Bool) {w : Work α} {e : Engine} (ready : w.Ready e) :
    ∃ ns, Course s w e ns (w.go s expired e).2 (w.go s expired e).1 := by
  obtain ⟨ns, c⟩ := resume_course (s := s) expired w e
    (fun l k hw => by subst hw; exact ready) (fun ref k l hw => by subst hw; exact ready l)
  obtain ⟨ns', c'⟩ := flow_course s (w.resume s expired e).2 (w.resume s expired e).1
  exact ⟨_, c.trans c'⟩

/-! ## Changes -/

/-- From engine `e` on every change that the work makes is within `D`, whatever may have happened
while it waited. -/
def Only (D : Engine → Engine → Prop) : Work α → Engine → Prop
  | done _, _ => True
  | look k, e => (k e).Only D e
  | update f k, e => D e (f e) ∧ k.Only D (f e)
  | read _ k, _ => ∀ e a, (k a).Only D e
  | lock l k, _ => ∀ e : Engine, k.Only D (e.hold l)
  | join _ k, _ => ∀ e ended, (k ended).Only D e

namespace Only

variable {D : Engine → Engine → Prop} {w : Work α} {e : Engine}

theorem bind {f : α → Work β} (hw : w.Only D e) (hf : ∀ a e, (f a).Only D e) :
    (w >>= f).Only D e := by
  change (w.bind f).Only D e
  induction w generalizing e with
  | done a => exact hf a e
  | look k ih => exact ih e hw
  | update g k ih => exact ⟨hw.1, ih hw.2⟩
  | read path k ih => exact fun e a => ih a (hw e a)
  | lock l k ih => exact fun e => ih (hw e)
  | join ref k ih => exact fun e ended => ih ended (hw e ended)

/-- Work is all of what comes before other work. -/
theorem of_bind {f : α → Work β} (h : (w >>= f).Only D e) : w.Only D e := by
  change (w.bind f).Only D e at h
  induction w generalizing e with
  | done => trivial
  | look k ih => exact ih e h
  | update g k ih => exact ⟨h.1, ih h.2⟩
  | read path k ih => exact fun e a => ih a (h e a)
  | lock l k ih => exact fun e => ih (h e)
  | join ref k ih => exact fun e ended => ih ended (h e ended)

theorem look {k : Engine → Work α} (h : (k e).Only D e) : (Work.look k).Only D e := h

theorem change {f : Engine → Engine} (h : D e (f e)) : (Work.change f).Only D e := ⟨h, trivial⟩

theorem change_bind {f : Engine → Engine} {k : Unit → Work α} (h : D e (f e))
    (hk : (k ()).Only D (f e)) : (Work.change f >>= k).Only D e := ⟨h, hk⟩

theorem acquire {l : Lock} {k : Unit → Work α} (hk : ∀ e : Engine, (k ()).Only D (e.hold l)) :
    ((Work.lock l (Work.done ())) >>= k).Only D e := hk

/-- At a wait it does not matter what the engine is. -/
theorem rests (h : w.Rests) (hw : w.Only D e) (e' : Engine) : w.Only D e' := by
  cases w with
  | look | update => exact h.elim
  | done | read | lock | join => exact hw

/-- Past a wait. -/
theorem resume {s : Setup} (expired : Bool) (hw : w.Only D e) :
    (w.resume s expired e).2.Only D (w.resume s expired e).1 := by
  cases w with
  | done | look | update => exact hw
  | read path k => exact hw e _
  | lock l k => exact hw e
  | join ref k => exact hw e _

/-- What goes on by itself is a chain of such changes, and so is what is left. -/
theorem flow (hw : w.Only D e) :
    ReflTransGen D e (w.flow e).1 ∧ ∀ e', (w.flow e).2.Only D e' := by
  induction w generalizing e with
  | look k ih => exact ih e hw
  | update f k ih =>
    obtain ⟨hchain, hrest⟩ := ih hw.2
    exact ⟨.head hw.1 hchain, hrest⟩
  | done | read | lock | join => exact ⟨.refl, hw.rests trivial⟩

end Only

/-- Past a wait the engine is as it was, but for a lock. -/
theorem resume_fst (s : Setup) (expired : Bool) (w : Work α) (e : Engine) :
    (w.resume s expired e).1 = e ∨ ∃ l, (w.resume s expired e).1 = e.hold l := by
  cases w with
  | done | look | update | read | join => exact .inl rfl
  | lock l => exact .inr ⟨l, rfl⟩

end Work

/-! ## What calls change -/

namespace Engine

open Work (Only)

/-- The changes that calls make, whatever the engine is when they make them. Giving back the lock of
the pending transaction is not among them. -/
structure Admits (s : Setup) (D : Engine → Engine → Prop) : Prop where
  enroll : ∀ h e, D e (e.enrolled h)
  registry : ∀ g e, D e { e with registry := g }
  begin : ∀ h readings e, D e (begin s h readings e)
  burst : ∀ h readings e, D e (burst s h readings e)
  cancel : ∀ h e, D e (cancelLoops h e)
  abort : ∀ ref e, D e (abortLoop ref e)
  halt : ∀ h e, D e (e.halted h)
  settle : ∀ p e, D e { e with pending := p }
  unlock : ∀ key e, D e (e.free (.poll key))

variable {s : Setup} {D : Engine → Engine → Prop}

theorem readAll_only (subs : List Subscription) (e : Engine) : (readAll subs).Only D e := by
  induction subs generalizing e with
  | nil => trivial
  | cons sub rest ih =>
    intro e a
    cases a with
    | error => trivial
    | ok leaves =>
      refine Only.bind (ih e) fun out e => ?_
      cases out <;> trivial

theorem joinAll_only (ha : Admits s D) (refs : List Nat) (e : Engine) :
    (joinAll refs).Only D e := by
  induction refs generalizing e with
  | nil => trivial
  | cons ref rest ih =>
    intro e ended
    cases ended with
    | true => exact ih e
    | false => exact ⟨ha.abort ref e, ih _⟩

namespace Admits

variable (ha : Admits s D)
include ha

theorem forget (h : Handle) (e : Engine) : D e (Engine.forget h e) := by
  have heq : Engine.forget h e = { e with registry := (Engine.forget h e).registry } := by
    unfold Engine.forget unregister
    cases e.registry.delete h.id <;> rfl
  rw [heq]
  exact ha.registry _ e

theorem start (h : Handle) (e : Engine) : (start s h).Only D e := by
  unfold Engine.start
  refine .look ?_
  split
  · trivial
  · refine .bind (readAll_only _ e) fun out e => ?_
    cases out with
    | error => trivial
    | ok readings => exact .change_bind (ha.begin h readings e) trivial

theorem stop (h : Handle) (e : Engine) : (stop h).Only D e := by
  unfold Engine.stop
  split
  · exact .change (ha.halt h e)
  · exact .acquire fun e => .change_bind (ha.halt h _) (.change (ha.unlock h.key _))
  · exact .look (.change_bind (ha.cancel h e)
      (.bind (joinAll_only ha _ _) fun _ e => .change (ha.halt h e)))

theorem create (r : Request) (e : Engine) : (create s r).Only D e := by
  unfold Engine.create
  refine .look ?_
  simp only [make]
  cases hreg : register ⟨e.handles, r⟩ (({ e with handles := e.handles + 1 } : Engine).setStatus
      ⟨e.handles, r⟩ .validated) with
  | error => trivial
  | ok registered =>
    have henrolled : registered = e.enrolled ⟨e.handles, r⟩ := by
      unfold register at hreg
      split at hreg
      · cases hreg
      · next g hadd =>
        cases hreg
        obtain ⟨-, rfl⟩ := Registry.add_eq_ok.1 hadd
        rfl
    refine .change_bind (henrolled ▸ ha.enroll _ e) (.bind (ha.start _ _) fun out e => ?_)
    cases out with
    | error => exact .change_bind (ha.forget _ e) trivial
    | ok => trivial

theorem delete (h : Handle) (e : Engine) : (delete h).Only D e := by
  refine .bind (ha.stop h e) fun _ e => .look ?_
  unfold unregister
  cases e.registry.delete h.id with
  | error => trivial
  | ok => exact .change_bind (ha.registry _ e) trivial

theorem apply (p : Planned) (e : Engine) : (apply s p).Only D e := by
  cases p with
  | create r => exact ha.create r e
  | delete h => exact ha.delete h e
  | nothing => trivial

theorem revert (a : Applied) (e : Engine) : (revert s a).Only D e := by
  cases a with
  | created h => exact .bind (ha.stop h e) fun _ e => .change (ha.forget h e)
  | deleted h =>
    refine .look ?_
    unfold register
    cases e.registry.add h.id h with
    | error => trivial
    | ok => exact .change_bind (ha.registry _ e) (.bind (ha.start h _) fun _ _ => trivial)
  | nothing => trivial

theorem revertAll (applied : List Applied) (e : Engine) : (revertAll s applied).Only D e := by
  induction applied generalizing e with
  | nil => trivial
  | cons a rest ih => exact .bind (ha.revert a e) fun _ e => ih e

theorem applyAll (ps : List Planned) (before : List Applied) (e : Engine) :
    (applyAll s before ps).Only D e := by
  induction ps generalizing before e with
  | nil => trivial
  | cons p ps ih =>
    refine .bind (ha.apply p e) fun out e => ?_
    cases out with
    | error => exact .bind (ha.revertAll before e) fun _ _ => trivial
    | ok a => exact ih (a :: before) e

theorem applyChanges (cs : List Change) (e : Engine) : (applyChanges s cs).Only D e := by
  refine .look ?_
  cases planChanges s e cs with
  | error => trivial
  | ok ps => exact ha.applyAll ps [] e

theorem handleLocked (p : Phase) (e : Engine) : (handleLocked s p).Only D e := by
  cases p with
  | change txn cs =>
    refine .look ?_
    cases e.pending with
    | some => trivial
    | none =>
      refine .bind (ha.applyChanges cs e) fun out e => ?_
      cases out with
      | error => trivial
      | ok applied => exact .change_bind (ha.settle _ e) trivial
  | done txn =>
    refine .change_bind ?_ trivial
    split
    · exact ha.settle none e
    · exact ha.settle e.pending e
  | abort txn =>
    refine .look ?_
    cases e.pending with
    | none => trivial
    | some p =>
      dsimp only
      split
      · exact .change_bind (ha.settle none e) (.bind (ha.revertAll _ _) fun _ _ => trivial)
      · trivial

theorem poll (h : Handle) (e : Engine) : (poll s h).Only D e := by
  unfold Engine.poll
  split
  · refine .acquire fun e => .bind ?_ fun r e => .change_bind (ha.unlock h.key e) trivial
    refine .look ?_
    split
    · trivial
    · refine .bind (readAll_only _ _) fun out e => ?_
      cases out with
      | error => trivial
      | ok readings => exact .change_bind (ha.burst h readings e) trivial
  · trivial

theorem pollId (id : Nat) (e : Engine) : (pollId s id).Only D e := by
  refine .look ?_
  cases e.registry.get id with
  | error => trivial
  | ok h => exact ha.poll h e

theorem stopIds (ids : List Nat) (e : Engine) : (stopIds ids).Only D e := by
  induction ids generalizing e with
  | nil => trivial
  | cons id rest ih =>
    refine .look ?_
    cases e.registry.find? id with
    | none => exact ih e
    | some h => exact .bind (ha.stop h e) fun _ e => ih e

/-- With giving back the lock of the pending transaction these are all changes that calls make. -/
theorem call (hfree : ∀ e : Engine, D e (e.free .pending)) (c : Call) (e : Engine) :
    (c.work s).Only D e := by
  cases c with
  | phase p =>
    exact .acquire fun e => .bind (ha.handleLocked p _) fun _ e => .change_bind (hfree e) trivial
  | expire =>
    refine .bind (.acquire fun e => .look ?_) fun _ _ => trivial
    cases (e.hold .pending).pending with
    | none => exact .change (hfree _)
    | some p =>
      dsimp only
      split
      · exact .change_bind (ha.settle none _)
          (.bind (ha.revertAll _ _) fun _ e => .change (hfree e))
      · exact .change (hfree _)
  | poll id => exact ha.pollId id e
  | stop =>
    refine .bind (.acquire fun e => ?_) fun _ _ => trivial
    refine .change_bind (ha.settle none _) (.change_bind (hfree _) (.look ?_))
    exact .bind (ha.stopIds _ _) fun _ e => .change (ha.registry _ e)

end Admits

end Engine

/-! ## Crews -/

/-- An engine, and what is left of the calls at work on it. -/
structure Crew where
  engine : Engine
  calls : List (Work (Except Error Unit))

namespace Crew

variable {s : Setup}

/-- An engine that is called. -/
def of (s : Setup) (e : Engine) (cs : List Call) : Crew := ⟨e, cs.map (·.work s)⟩

/-- Every call was answered. -/
def Finished (x : Crew) : Prop := ∀ w ∈ x.calls, ∃ r, w = .done r

instance (x : Crew) : Decidable x.Finished :=
  inferInstanceAs (Decidable (∀ w ∈ x.calls, ∃ r, w = .done r))

/-- One step, with the engines that it comes through. -/
inductive Step (s : Setup) (x : Crew) : List Engine → Crew → Prop where
  | call {i : Nat} {w : Work (Except Error Unit)} (at_work : x.calls[i]? = some w)
    (ready : w.Ready x.engine) (expired : Bool) :
    Step s x (w.passed s expired x.engine)
      ⟨(w.go s expired x.engine).1, x.calls.set i (w.go s expired x.engine).2⟩
  | stir {e : Engine} {ns : List Note} (h : Stir s x.engine ns e) : Step s x [e] ⟨e, x.calls⟩

/-- Any number of steps. -/
inductive Run (s : Setup) (x : Crew) : List Engine → Crew → Prop where
  | refl : Run s x [] x
  | step {y z : Crew} {es es' : List Engine} (before : Run s x es y) (st : Step s y es' z) :
    Run s x (es ++ es') z

variable {x y z : Crew} {es es' : List Engine}

/-- If all that calls do is within `D`, and so are taking a lock and what happens without a call, then
so is all that happens. -/
theorem Run.only {D : Engine → Engine → Prop} (r : Run s x es y)
    (hcalls : ∀ w ∈ x.calls, ∀ e, w.Only D e) (hhold : ∀ (e : Engine) l, D e (e.hold l))
    (hstir : ∀ {e ns e'}, Stir s e ns e' → D e e') :
    ReflTransGen D x.engine y.engine := by
  suffices h : ReflTransGen D x.engine y.engine ∧ ∀ w ∈ y.calls, ∀ e, w.Only D e from h.1
  induction r with
  | refl => exact ⟨.refl, hcalls⟩
  | @step y _ _ _ _ st ih =>
    obtain ⟨hchain, hy⟩ := ih
    cases st with
    | stir h => exact ⟨.tail hchain (hstir h), hy⟩
    | @call i w at_work ready expired =>
      have hw := hy w (List.mem_of_getElem? at_work)
      have hresume : ReflTransGen D y.engine (w.resume s expired y.engine).1 := by
        rcases w.resume_fst s expired y.engine with heq | ⟨l, heq⟩
        · rw [heq]
        · rw [heq]
          exact .single (hhold y.engine l)
      obtain ⟨hflow, hrest⟩ := ((hw y.engine).resume (s := s) expired).flow
      refine ⟨hchain.trans (hresume.trans hflow), fun w' hw' => ?_⟩
      rcases List.mem_or_eq_of_mem_set hw' with hw' | rfl
      · exact hy w' hw'
      · exact hrest

end Crew

end Telemetry
