import Telemetry.Proofs.System

/-!
# Histories

A run from one moment without a call to another is a number of whole calls, and of things that happen
between them. A `History` is such a run told call by call. It starts with an engine at rest, and every
call in it begins and ends with one.

* `System.Run.history`, `System.reachable_iff_history`: every run is a history.
* `History.split`: what came before a call and what comes after it.
* `History.of_calls`: calls with nothing in between have a history.
-/
namespace Telemetry

open Engine (Call Performs Rest)
open Work (Course Meets)

/-- A call that was made, and what it came to. -/
structure Entry where
  call : Call
  before : Engine
  notes : List Note
  answer : Except Error Unit
  after : Engine

/-- The entry tells of a course of the call. -/
def Entry.Made (s : Setup) (x : Entry) : Prop :=
  Performs s x.call x.before x.notes x.answer x.after

/-- Calls one after the other, and what happens between them. -/
inductive History (s : Setup) : Engine → List Entry → Engine → Prop where
  | here (e : Engine) : History s e [] e
  | stir {e e₁ e₂ : Engine} {ns : List Note} {log : List Entry} (h : Stir s e ns e₁)
    (rest : History s e₁ log e₂) : History s e log e₂
  | call {x : Entry} {e : Engine} {log : List Entry} (made : x.Made s)
    (rest : History s x.after log e) : History s x.before (x :: log) e

variable {s : Setup}

/-! ## Single calls -/

namespace Engine

variable {c : Call} {e e' : Engine} {ns : List Note} {r : Except Error Unit}

theorem Performs.rest (hp : Performs s c e ns r e') (hr : Rest s e) : Rest s e' :=
  (Meets.course hp (c.meets hr)).2

theorem Performs.now (hp : Performs s c e ns r e') (hr : Rest s e) : e.now ≤ e'.now :=
  (Meets.course hp (later_meets (c.meets hr))).2.2

/-- Calls one after the other, with nothing in between: the answers, and what they lead to. -/
def runAll (s : Setup) (e : Engine) : List Call → List (Except Error Unit) × Engine
  | [] => ([], e)
  | c :: cs =>
    let (e', r) := (c.work s).run s e
    let (rs, e'') := e'.runAll s cs
    (r :: rs, e'')

end Engine

/-! ## Histories -/

namespace History

variable {e e₁ e₂ : Engine} {log log' : List Entry}

theorem trans (h : History s e log e₁) (h' : History s e₁ log' e₂) :
    History s e (log ++ log') e₂ := by
  induction h with
  | here => exact h'
  | stir st _ ih => exact .stir st (ih h')
  | call made _ ih => exact .call made (ih h')

theorem rest (h : History s e log e₁) (hr : Rest s e) : Rest s e₁ := by
  induction h with
  | here => exact hr
  | stir st _ ih => exact ih (hr.of_core (st.sound hr.sound) st.core)
  | call made _ ih => exact ih (made.rest hr)

theorem now (h : History s e log e₁) (hr : Rest s e) : e.now ≤ e₁.now := by
  induction h with
  | here => exact Nat.le_refl _
  | stir st _ ih =>
    exact Nat.le_trans st.now (ih (hr.of_core (st.sound hr.sound) st.core))
  | call made _ ih => exact Nat.le_trans (made.now hr) (ih (made.rest hr))

/-- Before its first call nothing happens but what happens without calls. -/
theorem first {x : Entry} (h : History s e (x :: log) e₁) :
    ∃ ns, Stirs s e ns x.before ∧ x.Made s ∧ History s x.after log e₁ := by
  generalize hl : x :: log = l at h
  induction h with
  | here => cases hl
  | stir st _ ih =>
    obtain ⟨ns, hst, made, rest⟩ := ih hl
    exact ⟨_, .head st hst, made, rest⟩
  | call made rest =>
    cases hl
    exact ⟨[], .refl _, made, rest⟩

theorem of_stirs {ns : List Note} (h : Stirs s e ns e₁) : History s e [] e₁ := by
  induction h with
  | refl => exact .here _
  | head st _ ih => exact .stir st ih

/-- What came before a call and what comes after it. -/
theorem split {front back : List Entry} {x : Entry} (h : History s e (front ++ x :: back) e₁) :
    History s e front x.before ∧ x.Made s ∧ History s x.after back e₁ := by
  induction front generalizing e with
  | nil =>
    obtain ⟨ns, hst, made, rest⟩ := h.first
    exact ⟨of_stirs hst, made, rest⟩
  | cons y front ih =>
    obtain ⟨ns, hst, made, rest⟩ := h.first
    obtain ⟨before, madex, after⟩ := ih rest
    exact ⟨(of_stirs hst).trans (.call made before), madex, after⟩

theorem reachable (h : History s e log e₁) (hx : System.Reachable s ⟨e, none⟩) :
    System.Reachable s ⟨e₁, none⟩ := by
  induction h with
  | here => exact hx
  | stir st _ ih => exact ih (hx.step (.stir st))
  | call made _ ih => exact ih (made.reachable hx)

/-- Calls with nothing in between have a history. -/
theorem of_calls (hr : Rest s e) (cs : List Call) : ∃ log, History s e log (e.runAll s cs).2 ∧
    log.map (·.call) = cs ∧ log.map (·.answer) = (e.runAll s cs).1 := by
  induction cs generalizing e with
  | nil => exact ⟨[], .here e, rfl, rfl⟩
  | cons c cs ih =>
    obtain ⟨ns, hperf⟩ := hr.performs c
    obtain ⟨log, h, hcalls, hanswers⟩ := ih (hperf.rest hr)
    exact ⟨_, .call (x := ⟨c, e, ns, _, _⟩) hperf h, congrArg (c :: ·) hcalls,
      congrArg (_ :: ·) hanswers⟩

end History

namespace System

variable {e e' : Engine}

/-- Every run is a history, and perhaps part of a call. -/
theorem Run.history_and_course {P : System → Prop} {ns : List Note} {x : System}
    (r : Run s P ⟨e, none⟩ ns x) : ∃ log e₁, History s e log e₁ ∧
      match x.call with
      | none => x.engine = e₁
      | some w => ∃ (c : Call) (ns' : List Note), Course s (c.work s) e₁ ns' w x.engine := by
  induction r with
  | here => exact ⟨[], e, .here e, rfl⟩
  | step _ st _ ih =>
    obtain ⟨log, e₁, hist, hcourse⟩ := ih
    cases st with
    | call _ c =>
      cases hcourse
      exact ⟨log, _, hist, c, [], .refl _ _⟩
    | stir st =>
      cases hcourse
      exact ⟨log, _, List.append_nil log ▸ hist.trans (.stir st (.here _)), rfl⟩
    | move m =>
      obtain ⟨c, ns', hcourse⟩ := hcourse
      exact ⟨log, e₁, hist, c, _, hcourse.trans (.head m (.refl _ _))⟩
    | answer e₂ r =>
      obtain ⟨c, ns', hcourse⟩ := hcourse
      exact ⟨_, _, hist.trans (.call (x := ⟨c, e₁, ns', r, e₂⟩) hcourse (.here _)), rfl⟩

/-- From one moment without a call to another, every run is a history. -/
theorem Run.history {P : System → Prop} {ns : List Note}
    (r : Run s P ⟨e, none⟩ ns ⟨e', none⟩) : ∃ log, History s e log e' := by
  obtain ⟨log, e₁, hist, rfl⟩ := r.history_and_course
  exact ⟨log, hist⟩

/-- What a fresh engine can come to between calls is what its histories lead to. -/
theorem reachable_iff_history :
    Reachable s ⟨e, none⟩ ↔ ∃ d log, History s (.fresh d) log e := by
  constructor
  · rintro ⟨d, ns, r⟩
    exact ⟨d, r.history⟩
  · rintro ⟨d, log, hist⟩
    exact hist.reachable ⟨d, [], .here trivial⟩

end System

end Telemetry
