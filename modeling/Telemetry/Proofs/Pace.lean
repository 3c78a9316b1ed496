import Telemetry.Proofs.Crew
import Telemetry.Timeline.Turn

/-!
# Loops that keep their time

When a loop samples next is its own affair. Whatever calls and the server do to an engine takes no
time, leaves the deadlines of the loops that are there as they are, and gives a loop that starts its
first deadline one period ahead.

* `Engine.Paced`: a change of that kind.
* `Engine.paced_admits`: all changes that calls make are.
* `Work.advance_paced`, `Work.resume_paced`: work that makes no others goes on within that.
* `Script.Tame`: a caller that does nothing else. `Script.tame_commitDirect` and its neighbours: all
  callers that there are.
-/
namespace Telemetry

open Engine (Admits)
open Work (Only)

/-! ## Changes -/

namespace Engine

/-- No time passes, loops keep plan and deadline, nobody takes back that a loop was told to end, and
new loops are due a period from now. -/
structure Paced (e e' : Engine) : Prop where
  now : e'.now = e.now
  started : e.loopsStarted ≤ e'.loopsStarted
  loops : ∀ {ref l'}, e'.loops.find? ref = some l' →
    (∃ l, e.loops.find? ref = some l ∧ l'.plan = l.plan ∧ l'.deadline = l.deadline ∧
      (l.cancelled = true → l'.cancelled = true)) ∨
    (e.loopsStarted ≤ ref ∧ ref < e'.loopsStarted ∧ l'.deadline = e.now + l'.plan.period)

namespace Paced

variable {e e' e'' : Engine}

theorem of_same (now : e'.now = e.now) (started : e'.loopsStarted = e.loopsStarted)
    (loops : e'.loops = e.loops) : Paced e e' where
  now := now
  started := Nat.le_of_eq started.symm
  loops {_ l'} live := .inl ⟨l', loops ▸ live, rfl, rfl, id⟩

theorem refl (e : Engine) : Paced e e := of_same rfl rfl rfl

theorem trans (h : Paced e e') (h' : Paced e' e'') : Paced e e'' where
  now := h'.now.trans h.now
  started := Nat.le_trans h.started h'.started
  loops {ref l''} live := by
    rcases h'.loops live with ⟨l', live', plan, deadline, told⟩ | ⟨new, before, deadline⟩
    · rcases h.loops live' with ⟨l, live, plan', deadline', told'⟩ | ⟨new, before, deadline'⟩
      · exact .inl ⟨l, live, plan.trans plan', deadline.trans deadline', told ∘ told'⟩
      · refine .inr ⟨new, Nat.lt_of_lt_of_le before h'.started, ?_⟩
        rw [deadline, deadline', plan]
    · exact .inr ⟨Nat.le_trans h.started new, before, by rw [deadline, h.now]⟩

/-- The end of a loop is nothing to the others. -/
theorem of_erase (now : e'.now = e.now) (started : e'.loopsStarted = e.loopsStarted) (ref : Nat)
    (gone : e'.loops = e.loops.erase ref) : Paced e e' where
  now := now
  started := Nat.le_of_eq started.symm
  loops {ref' l'} live := by
    rw [gone, SortedMap.find?_erase] at live
    split at live
    · cases live
    · exact .inl ⟨l', live, rfl, rfl, id⟩

theorem numbered (h : Paced e e') (hn : e.Numbered) : e'.Numbered := by
  intro ref l live
  rcases h.loops live with ⟨l', live', -⟩ | ⟨-, before, -⟩
  · exact Nat.lt_of_lt_of_le (hn ref l' live') h.started
  · exact before

end Paced

variable {s : Setup}

theorem paced_begin (h : Handle) (readings : List Snapshot.Reading) (e : Engine) :
    Paced e (begin s h readings e) where
  now := by rw [begin_frame]; rfl
  started := by rw [loopsStarted_begin]; exact Nat.le_add_right ..
  loops {ref l'} live := by
    rw [loops_begin] at live
    rw [loopsStarted_begin]
    split at live
    · next hnew =>
      obtain ⟨stream, new, before⟩ := hnew
      obtain ⟨sub, -, rfl⟩ := Option.map_eq_some_iff.1 live
      exact .inr ⟨new, by rwa [if_pos stream], rfl⟩
    · exact .inl ⟨l', live, rfl, rfl, id⟩

theorem paced_cancelLoops (h : Handle) (e : Engine) : Paced e (cancelLoops h e) where
  now := rfl
  started := Nat.le_refl _
  loops {ref l'} live := by
    rw [find?_cancelLoops] at live
    obtain ⟨l, hl, rfl⟩ := Option.map_eq_some_iff.1 live
    refine .inl ⟨l, hl, plan_toldToEnd .., ?_, fun told => cancelled_toldToEnd (.inl told)⟩
    unfold toldToEnd
    split <;> rfl

theorem paced_endLoop (ref : Nat) (e : Engine) : Paced e (e.endLoop ref) := by
  cases live : e.loops.find? ref with
  | none =>
    have : e.endLoop ref = e := by simp only [endLoop, live]
    rw [this]
    exact .refl e
  | some l =>
    rw [endLoop_eq live]
    exact .of_erase rfl rfl ref rfl

theorem paced_observe (p : Sampling) (leaves : Leaves) (e : Engine) :
    Paced e (observe s p leaves e) := by
  rw [observe_eq]
  exact .of_same rfl rfl rfl

theorem paced_datastore (d : Datastore Event) (e : Engine) : Paced e { e with datastore := d } :=
  .of_same rfl rfl rfl

theorem paced_free (l : Lock) (e : Engine) : Paced e (e.free l) := .of_same rfl rfl rfl

theorem paced_hold (l : Lock) (e : Engine) : Paced e (e.hold l) := .of_same rfl rfl rfl

/-- All changes that calls make keep loops in time. -/
theorem paced_admits (s : Setup) : Admits s Paced where
  enroll _ _ := .of_same rfl rfl rfl
  registry _ _ := .of_same rfl rfl rfl
  begin h readings e := paced_begin h readings e
  burst h readings e := by rw [burst_eq]; exact .of_same rfl rfl rfl
  cancel h e := paced_cancelLoops h e
  abort ref _ := .of_erase rfl rfl ref rfl
  halt _ _ := .of_same rfl rfl rfl
  settle _ _ := .of_same rfl rfl rfl
  unlock _ _ := .of_same rfl rfl rfl

/-! ## Work of a server and of loops -/

theorem call_paced (s : Setup) (c : Call) (e : Engine) : (c.work s).Only Paced e :=
  (paced_admits s).call (paced_free .pending) c e

theorem expire_paced (s : Setup) (e : Engine) : (expire s).Only Paced e :=
  .of_bind (call_paced s .expire e)

theorem shutdown_paced (s : Setup) (e : Engine) : shutdown.Only Paced e :=
  .of_bind (call_paced s .stop e)

theorem serve_paced (s : Setup) (m : Message) (e : Engine) : (serve s m).Only Paced e := by
  cases m with
  | phase _ p =>
    refine .bind (call_paced s (.phase p) e) fun r e => ?_
    cases r <;> trivial
  | call name input =>
    change (call s name input).Only Paced e
    unfold call
    split
    · trivial
    · cases (input.member? "id").bind Json.nat? with
      | none => trivial
      | some id =>
        refine .bind (call_paced s (.poll id) e) fun r e => ?_
        cases r <;> trivial
  | read => trivial

theorem sample_paced (s : Setup) (p : Sampling) (e : Engine) : (sample s p).Only Paced e := by
  intro e a
  cases a with
  | error => trivial
  | ok leaves => exact .change (paced_observe p leaves e)

end Engine

open Engine (Paced)

/-! ## Going on -/

namespace Work

variable {α : Type} {w : Work α} {e : Engine}

/-- What is left of work keeps loops in time. Where it waits it does so on any engine. -/
def Reached.Paced (e : Engine) : Reached α → Prop
  | .done _ => True
  | .going w => w.Only Engine.Paced e
  | .waiting w _ | .yielding w _ => w.Rests ∧ w.Only Engine.Paced e

theorem advance_paced (s : Setup) (canTake : Engine → Lock → Bool) (n : Nat)
    (hw : w.Only Paced e) : Paced e (w.advance s canTake n e).1 ∧
      (w.advance s canTake n e).2.2.Paced (w.advance s canTake n e).1 := by
  induction w generalizing n e with
  | done => exact ⟨.refl e, trivial⟩
  | look k ih => exact ih e n hw
  | update f k => exact hw
  | read path k ih =>
    unfold advance
    split
    · exact ih _ _ (hw e _)
    · exact ⟨.refl e, trivial, hw⟩
    · split
      · exact ih _ _ (hw e _)
      · exact ⟨.refl e, trivial, hw⟩
  | lock l k ih =>
    cases n with
    | zero => exact ⟨.refl e, trivial, hw⟩
    | succ n =>
      unfold advance
      split
      · obtain ⟨paced, rest⟩ := ih n (hw e)
        exact ⟨(Engine.paced_hold l e).trans paced, rest⟩
      · exact ⟨.refl e, trivial, hw⟩
  | join ref k ih =>
    cases n with
    | zero => exact ⟨.refl e, trivial, hw⟩
    | succ n =>
      unfold advance
      split
      · exact ih true n (hw e true)
      · split
        · exact ih false n (hw e false)
        · exact ⟨.refl e, trivial, hw⟩

theorem resume_paced (s : Setup) (expired : Bool) (hw : w.Only Paced e) :
    Paced e (w.resume s expired e).1 ∧
      (w.resume s expired e).2.Only Paced (w.resume s expired e).1 := by
  refine ⟨?_, hw.resume expired⟩
  rcases w.resume_fst s expired e with heq | ⟨l, heq⟩
  · rw [heq]
    exact .refl e
  · rw [heq]
    exact Engine.paced_hold l e

end Work

/-! ## Callers -/

namespace Script

/-- Whatever the answers are, all work of a caller keeps loops in time. -/
def Tame : Script → Prop
  | done _ => True
  | sleep _ next | halt next => next.Tame
  | work w next => (∀ e, w.Only Paced e) ∧ ∀ o, (next o).Tame
  | number next => ∀ txn, (next txn).Tame
  | ask _ next => ∀ o, (next o).Tame

theorem tame_direct {w : Work Outcome} (h : ∀ e, w.Only Paced e) : (direct w).Tame :=
  ⟨h, fun _ => trivial⟩

theorem tame_instant {f : Engine → Engine} (h : ∀ e, Paced e (f e)) : (instant f).Tame :=
  tame_direct fun e => ⟨h e, trivial⟩

theorem tame_observe (f : Engine → Outcome) : (observe f).Tame := tame_direct fun _ => trivial

theorem tame_revise (f : Datastore Event → Except Error (Datastore Event)) : (revise f).Tame := by
  refine tame_direct fun e => Only.look ?_
  cases f e.datastore with
  | error => trivial
  | ok d => exact ⟨Engine.paced_datastore d e, trivial⟩

theorem tame_send (m : Message) : (send m).Tame := fun _ => trivial

theorem phase_paced (s : Setup) (p : Phase) (e : Engine) : (phase s p).Only Paced e :=
  .bind (Engine.call_paced s (.phase p) e) fun _ _ => trivial

theorem tame_announceDirect (s : Setup) (txn : Nat) (changes : List Change) :
    (announceDirect s txn changes).Tame := ⟨phase_paced s _, fun _ => trivial⟩

theorem tame_commitDirect (s : Setup) (txn : Nat) (changes : List Change) :
    (commitDirect s txn changes).Tame := by
  refine ⟨phase_paced s _, fun o => ?_⟩
  cases o with
  | error => trivial
  | ok => exact tame_direct (phase_paced s _)

theorem tame_announce (moduleName : String) (changes : List Change) :
    (announce moduleName changes).Tame := by
  intro txn o
  cases o <;> trivial

theorem tame_commit (moduleName : String) (changes : List Change) :
    (commit moduleName changes).Tame := by
  intro txn o
  cases o with
  | error => trivial
  | ok => exact fun _ => trivial

theorem tame_command (moduleName line : String) : (command moduleName line).Tame := by
  unfold command
  split
  · trivial
  · exact fun _ => trivial
  · intro txn o
    cases o with
    | error => trivial
    | ok => exact fun _ => trivial
  · exact fun _ => trivial
  · trivial
  · trivial

end Script

end Telemetry
