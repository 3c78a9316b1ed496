import Telemetry.Proofs.Starting

/-!
# Calls that queue for a lock

Any number of polls of one request and stops of it are at work at the same time. A `Pool` has the
engine and what is left of every call; a step is the next step of some call, or something that
happens without them. Nothing is assumed about whose step comes next, so that a call that begins
late is one whose first step comes late.

Results:
* `Pool.run_of_course`: what a call can do alone it can do among the others;
* `Engine.Stage.settles`: what one step of the call that has the lock can come to;
* `Engine.Stage.meets`: that call comes to its end and gives the lock back;
* `Pool.finish_waiting`: when nobody has the lock, all calls come to their ends.
-/
namespace Telemetry

open Engine (Tried)
open Work (Move Course Meets)

/-! ## Pools -/

/-- An engine, and what is left of the calls at work on it. -/
structure Pool where
  engine : Engine
  calls : List (Work (Except Error Unit))

/-- Whether the next step is to take a lock. -/
def Work.locks {α : Type} : Work α → Bool
  | .lock .. => true
  | _ => false

namespace Pool

variable {s : Setup}

/-- One step, with the number of the call that takes a lock in it, if one does. -/
inductive Step (s : Setup) : Pool → List Nat → List Note → Pool → Prop where
  | take {e : Engine} {ws : List (Work (Except Error Unit))} {i : Nat} {l : Lock}
    {k : Work (Except Error Unit)} (call : ws[i]? = some (.lock l k)) (free : l ∉ e.held) :
    Step s ⟨e, ws⟩ [i] [] ⟨e.hold l, ws.set i k⟩
  | move {e e' : Engine} {ws : List (Work (Except Error Unit))} {i : Nat}
    {w w' : Work (Except Error Unit)} {ns : List Note} (call : ws[i]? = some w)
    (unlocked : w.locks = false) (m : Move s w e ns w' e') :
    Step s ⟨e, ws⟩ [] ns ⟨e', ws.set i w'⟩
  | stir {e e' : Engine} {ws : List (Work (Except Error Unit))} {ns : List Note}
    (h : Stir s e ns e') : Step s ⟨e, ws⟩ [] ns ⟨e', ws⟩

/-- Any number of steps, with the numbers of the calls in the order in which they take locks. -/
inductive Run (s : Setup) (x : Pool) : List Nat → List Note → Pool → Prop where
  | here : Run s x [] [] x
  | step {y z : Pool} {taken taken' : List Nat} {ns ns' : List Note} (before : Run s x taken ns y)
    (st : Step s y taken' ns' z) : Run s x (taken ++ taken') (ns ++ ns') z

theorem Run.trans {x y z : Pool} {taken taken' : List Nat} {ns ns' : List Note}
    (r : Run s x taken ns y) (r' : Run s y taken' ns' z) : Run s x (taken ++ taken') (ns ++ ns') z := by
  induction r' with
  | here => simpa using r
  | step _ st ih =>
    rw [← List.append_assoc, ← List.append_assoc]
    exact .step ih st

/-- A move of one call is a step. -/
theorem step_of_move {e e' : Engine} {ws : List (Work (Except Error Unit))} {i : Nat}
    {w w' : Work (Except Error Unit)} {ns : List Note} (call : ws[i]? = some w)
    (m : Move s w e ns w' e') : ∃ taken, Step s ⟨e, ws⟩ taken ns ⟨e', ws.set i w'⟩ := by
  cases hl : w.locks with
  | false => exact ⟨[], .move call hl m⟩
  | true =>
    cases m with
    | lock free k => exact ⟨[i], .take call free⟩
    | stir _ h =>
      obtain ⟨hi, rfl⟩ := List.getElem?_eq_some_iff.1 call
      rw [List.set_getElem_self]
      exact ⟨[], .stir h⟩
    | _ => cases hl

/-- So is a whole course of it. -/
theorem run_of_course {e e' : Engine} {ws : List (Work (Except Error Unit))} {i : Nat}
    {w w' : Work (Except Error Unit)} {ns : List Note} (call : ws[i]? = some w)
    (c : Course s w e ns w' e') : ∃ taken, Run s ⟨e, ws⟩ taken ns ⟨e', ws.set i w'⟩ := by
  induction c generalizing ws with
  | refl w e =>
    obtain ⟨hi, rfl⟩ := List.getElem?_eq_some_iff.1 call
    rw [List.set_getElem_self]
    exact ⟨[], .here⟩
  | @head w w₁ w₂ e e₁ e₂ ns ns' m _ ih =>
    obtain ⟨taken, st⟩ := step_of_move call m
    have hi : i < ws.length := (List.getElem?_eq_some_iff.1 call).1
    have hcall : (ws.set i w₁)[i]? = some w₁ := by simp [hi]
    obtain ⟨taken', r⟩ := ih hcall
    rw [List.set_set] at r
    have r₁ : Run s ⟨e, ws⟩ ([] ++ taken) ([] ++ ns) ⟨e₁, ws.set i w₁⟩ := .step .here st
    exact ⟨taken ++ taken', r₁.trans r⟩

end Pool

/-! ## Calls that take the lock of a request -/

/-- A call that takes the lock of a request. -/
inductive Visit where
  | poll
  | stop
  deriving DecidableEq, Repr

/-- What came of such a call. -/
inductive Upshot where
  | burst (time : Nat) (readings : List Snapshot.Reading)
  | failed (err : Error)
  | refused
  | stopped

namespace Visit

def work (s : Setup) (h : Handle) : Visit → Work (Except Error Unit)
  | poll => Engine.poll s h
  | stop => do
    Engine.stop h
    return .ok ()

end Visit

namespace Upshot

def visit : Upshot → Visit
  | burst .. | failed _ | refused => .poll
  | stopped => .stop

def answer (h : Handle) : Upshot → Except Error Unit
  | burst .. | stopped => .ok ()
  | failed err => .error err
  | refused => .error (.notRunning h.id)

end Upshot

/-! ## The lock holder -/

namespace Engine

variable {s : Setup} {h : Handle} {e e' : Engine}

/-- Gives the lock back and answers. -/
def leave (h : Handle) (r : Except Error Unit) : Work (Except Error Unit) :=
  .update (·.free (.poll h.key)) (.done r)

/-- What a poll does when it has read, and its end. -/
def conclude (s : Setup) (h : Handle) :
    Except Error (List Snapshot.Reading) → Work (Except Error Unit)
  | .error err => leave h (.error err)
  | .ok readings => .update (burst s h readings) (leave h (.ok ()))

theorem work_poll (hm : h.request.mode = .poll) :
    Visit.poll.work s h = .lock (.poll h.key) (pollLocked s h >>= leave h) := by
  unfold Visit.work poll
  rw [hm]
  rfl

theorem work_stop (hm : h.request.mode = .poll) :
    Visit.stop.work s h = .lock (.poll h.key) (.update (halted h) (leave h (.ok ()))) := by
  unfold Visit.work stop
  rw [hm]
  rfl

theorem pollLocked_leave : pollLocked s h >>= leave h = .look fun e =>
    if e.status h ≠ .running then leave h (.error (.notRunning h.id))
    else readAll h.request.subscriptions >>= conclude s h := by
  change Work.look _ = _
  congr 1
  funext e
  by_cases hrun : e.status h = .running
  · simp only [hrun, ne_eq, not_true, if_false]
    refine (Work.bind_assoc _ _ _).trans ?_
    congr 1
    funext out
    cases out <;> rfl
  · simp only [hrun, ne_eq, not_false_eq_true, if_true]
    rfl

theorem readAll_cons_bind {β : Type} (sub : Subscription) (rest : List Subscription)
    (k : Except Error (List Snapshot.Reading) → Work β) :
    readAll (sub :: rest) >>= k = .read sub.path fun
      | .error err => k (.error err)
      | .ok leaves => readAll rest >>= fun out => k (out.map ((sub.id, leaves) :: ·)) := by
  change Work.read _ _ = _
  congr 1
  funext a
  cases a with
  | error err => rfl
  | ok leaves =>
    refine (Work.bind_assoc _ _ _).trans ?_
    congr 1
    funext out
    cases out <;> rfl

/-- Where the lock holder stands while nothing has come of its call, with the reads it has made. -/
inductive Stage (s : Setup) (h : Handle) (running : Bool) :
    Visit → List (String × Except Error Leaves) → Work (Except Error Unit) → Prop where
  | entered : Stage s h running .poll [] (pollLocked s h >>= leave h)
  | reading {rest : List Subscription} {pre : List Snapshot.Reading}
    {rs : List (String × Except Error Leaves)} (run : running = true)
    (sofar : ∀ rs' out, Tried rest rs' out →
      Tried h.request.subscriptions (rs ++ rs') (out.map (pre ++ ·))) :
    Stage s h running .poll rs (readAll rest >>= fun out => conclude s h (out.map (pre ++ ·)))
  | stopping : Stage s h running .stop [] (.update (halted h) (leave h (.ok ())))

/-- What the last step of a stage comes to. -/
inductive Settles (s : Setup) (h : Handle) (running : Bool)
    (rs : List (String × Except Error Leaves)) (e : Engine) :
    List Note → Upshot → Engine → Prop where
  | burst {readings : List Snapshot.Reading} (run : running = true)
    (tried : Tried h.request.subscriptions rs (.ok readings)) :
    Settles s h running rs e [.wrote e (burst s h readings e)] (.burst e.now readings)
      (burst s h readings e)
  | failed {path : String} {err : Error} (run : running = true)
    (tried : Tried h.request.subscriptions (rs ++ [(path, .error err)]) (.error err)) :
    Settles s h running rs e [.read path (.error err)] (.failed err) e
  | refused (ended : running = false) (unread : rs = []) : Settles s h running rs e [] .refused e
  | stopped (unread : rs = []) :
    Settles s h running rs e [.wrote e (e.halted h)] .stopped (e.halted h)

theorem Settles.held {running : Bool} {rs : List (String × Except Error Leaves)} {ns : List Note}
    {o : Upshot} (st : Settles s h running rs e ns o e') : e'.held = e.held := by
  cases st with
  | burst => rw [burst_eq]
  | failed | refused | stopped => rfl

/-- One step of the lock holder: something happens without it, or it gets further, or something
comes of its call. -/
theorem Stage.settles {running : Bool} {v : Visit} {rs : List (String × Except Error Leaves)}
    {w w' : Work (Except Error Unit)} {ns : List Note} (st : Stage s h running v rs w)
    (hrun : e.status h = if running then .running else .stopped) (m : Move s w e ns w' e') :
    (w' = w ∧ Stir s e ns e') ∨
    (e' = e ∧ Stage s h running v (rs ++ Note.reads ns) w') ∨
    ∃ o, Settles s h running rs e ns o e' ∧ o.visit = v ∧ w' = leave h (o.answer h) := by
  cases st with
  | entered =>
    rw [pollLocked_leave] at m
    cases m with
    | stir waiting => cases waiting
    | look =>
      cases running with
      | true =>
        refine .inr (.inl ⟨rfl, ?_⟩)
        have hstatus : e.status h = .running := hrun
        simp only [hstatus, ne_eq, not_true, if_false]
        have hsofar : ∀ rs' out, Tried h.request.subscriptions rs' out →
            Tried h.request.subscriptions ([] ++ rs') (out.map ([] ++ ·)) := by
          intro rs' out t
          cases out <;> exact t
        have hwork : readAll h.request.subscriptions >>= conclude s h =
            readAll h.request.subscriptions >>= fun out => conclude s h (out.map ([] ++ ·)) := by
          congr 1
          funext out
          cases out <;> rfl
        rw [hwork]
        exact .reading rfl hsofar
      | false =>
        have hstatus : e.status h = .stopped := hrun
        refine .inr (.inr ⟨.refused, .refused rfl rfl, rfl, ?_⟩)
        simp [hstatus, Upshot.answer]
  | @reading rest pre rs run sofar =>
    cases rest with
    | nil =>
      have hready : Tried h.request.subscriptions rs (.ok pre) := by
        simpa [Except.map] using sofar [] (.ok []) .nil
      have hwork : (readAll [] >>= fun out => conclude s h (out.map (pre ++ ·))) =
          .update (burst s h pre) (leave h (.ok ())) := by
        change conclude s h (.ok (pre ++ [])) = _
        rw [List.append_nil]
        rfl
      rw [hwork] at m
      cases m with
      | stir waiting => cases waiting
      | update => exact .inr (.inr ⟨_, .burst run hready, rfl, rfl⟩)
    | cons sub rest =>
      rw [readAll_cons_bind] at m ⊢
      cases m with
      | stir _ hst => exact .inl ⟨rfl, hst⟩
      | read path k e expired =>
        cases ha : e.answer s sub.path expired with
        | error err =>
          refine .inr (.inr ⟨_, .failed run ?_, rfl, rfl⟩)
          exact sofar _ _ (.failed sub rest err)
        | ok leaves =>
          refine .inr (.inl ⟨rfl, ?_⟩)
          have hsofar : ∀ rs' out, Tried rest rs' out → Tried h.request.subscriptions
              (rs ++ [(sub.path, .ok leaves)] ++ rs') (out.map (pre ++ [(sub.id, leaves)] ++ ·)) := by
            intro rs' out t
            have hmore := sofar _ _ (.read sub leaves t)
            cases out <;> simpa [Except.map] using hmore
          have hwork : (readAll rest >>= fun out =>
              conclude s h ((out.map ((sub.id, leaves) :: ·)).map (pre ++ ·))) =
              readAll rest >>= fun out =>
                conclude s h (out.map (pre ++ [(sub.id, leaves)] ++ ·)) := by
            congr 1
            funext out
            cases out <;> simp [Except.map]
          simp only [hwork]
          exact .reading run hsofar
  | stopping =>
    cases m with
    | stir waiting => cases waiting
    | update => exact .inr (.inr ⟨_, .stopped rfl, rfl, rfl⟩)

/-- The lock holder takes no lock. -/
theorem Stage.locks {running : Bool} {v : Visit} {rs : List (String × Except Error Leaves)}
    (st : Stage s h running v rs w) : w.locks = false := by
  cases st with
  | entered => rw [pollLocked_leave]; rfl
  | @reading rest =>
    cases rest with
    | nil => rfl
    | cons => rw [readAll_cons_bind]; rfl
  | stopping => rfl

theorem Stage.ne_done {running : Bool} {v : Visit}
    {rs : List (String × Except Error Leaves)} {r : Except Error Unit} :
    ¬Stage s h running v rs (.done r) := by
  intro st
  generalize hw : Work.done r = w at st
  cases st with
  | entered =>
    rw [pollLocked_leave] at hw
    cases hw
  | @reading rest =>
    cases rest with
    | nil => cases hw
    | cons =>
      rw [readAll_cons_bind] at hw
      cases hw
  | stopping => cases hw

/-! ## Every call comes to its end -/

/-- A call that leaves has nothing to wait for. -/
theorem leave_meets {rest : List Lock} (held : e.held = .poll h.key :: rest)
    (free : .poll h.key ∉ rest) (r : Except Error Unit) :
    (leave h r).Meets s (fun _ _ => True) (fun _ _ e' => .poll h.key ∉ e'.held) e := by
  refine ⟨trivial, ?_⟩
  change .poll h.key ∉ e.held.erase (.poll h.key)
  rwa [held, List.erase_cons_head]

theorem readAll_conclude_meets {rest : List Lock} (held : e.held = .poll h.key :: rest)
    (free : .poll h.key ∉ rest) (subs : List Subscription)
    (f : Except Error (List Snapshot.Reading) → Except Error (List Snapshot.Reading)) :
    (readAll subs >>= fun out => conclude s h (f out)).Meets s (fun _ _ => True)
      (fun _ _ e' => .poll h.key ∉ e'.held) e := by
  refine Meets.bind (Meets.mono (fun ns out x hq => ?_) (readAll_stirs subs e))
  obtain ⟨-, ⟨ns', hst⟩, -⟩ := hq
  have hheld : x.held = .poll h.key :: rest := (congrArg Core.held hst.core).trans held
  cases f out with
  | error err => exact leave_meets hheld free _
  | ok readings =>
    have hheld' : (burst s h readings x).held = .poll h.key :: rest := by
      rw [burst_eq]
      exact hheld
    exact ⟨trivial, leave_meets hheld' free _⟩

/-- The lock holder comes to its end and gives the lock back. -/
theorem Stage.meets {running : Bool} {v : Visit} {rs : List (String × Except Error Leaves)}
    {w : Work (Except Error Unit)} (st : Stage s h running v rs w) {rest : List Lock}
    (held : e.held = .poll h.key :: rest) (free : .poll h.key ∉ rest) :
    w.Meets s (fun _ _ => True) (fun _ _ e' => .poll h.key ∉ e'.held) e := by
  cases st with
  | entered =>
    rw [pollLocked_leave]
    change (if e.status h ≠ .running then _ else _ : Work _).Meets s _ _ e
    split
    · exact leave_meets held free _
    · exact readAll_conclude_meets held free _ id
  | reading => exact readAll_conclude_meets held free _ _
  | stopping => exact ⟨trivial, leave_meets (s := s) (e := e.halted h) held free _⟩

end Engine

open Engine (Stage work_poll work_stop)

variable {s : Setup} {h : Handle} {e : Engine}

theorem work_locks (hm : h.request.mode = .poll) (v : Visit) :
    ∃ k, v.work s h = .lock (.poll h.key) k ∧ ∀ running, Stage s h running v [] k := by
  cases v with
  | poll => exact ⟨_, work_poll hm, fun _ => .entered⟩
  | stop => exact ⟨_, work_stop hm, fun _ => .stopping⟩

theorem Visit.work_meets (hm : h.request.mode = .poll) (free : .poll h.key ∉ e.held) (v : Visit) :
    (v.work s h).Meets s (fun _ _ => True) (fun _ _ e' => .poll h.key ∉ e'.held) e := by
  obtain ⟨k, hk, hstage⟩ := work_locks (s := s) hm v
  rw [hk]
  exact ⟨free, fun ns x _ hfree => (hstage true).meets rfl hfree⟩

namespace Pool

/-- Every call was answered. -/
def Finished (x : Pool) : Prop := ∀ w ∈ x.calls, ∃ r, w = .done r

/-- A call that comes to its end alone does so among the others. -/
theorem run_of_meets {e : Engine} {ws : List (Work (Except Error Unit))} {i : Nat}
    {w : Work (Except Error Unit)} {Q : List Note → Except Error Unit → Engine → Prop}
    (call : ws[i]? = some w) (hmeets : w.Meets s (fun _ _ => True) Q e) :
    ∃ taken ns r e', Run s ⟨e, ws⟩ taken ns ⟨e', ws.set i (.done r)⟩ ∧ ∃ ns, Q ns r e' := by
  obtain ⟨ns, c⟩ := hmeets.run
  obtain ⟨taken, r⟩ := run_of_course call c
  exact ⟨taken, ns, _, _, r, ns, (hmeets.course c).2⟩

/-- When nobody has the lock, the calls that wait for it come to their end in turn. -/
theorem finish_waiting (hm : h.request.mode = .poll) (waiting : List (Work (Except Error Unit)))
    (finished : List (Work (Except Error Unit))) (free : .poll h.key ∉ e.held)
    (hf : ∀ w ∈ finished, ∃ r, w = .done r)
    (hwait : ∀ w ∈ waiting, (∃ r, w = .done r) ∨ ∃ v : Visit, w = v.work s h) :
    ∃ taken ns y, Run s ⟨e, finished ++ waiting⟩ taken ns y ∧ y.Finished := by
  induction waiting generalizing finished e with
  | nil => exact ⟨[], [], _, .here, by simpa [Finished] using hf⟩
  | cons w rest ih =>
    have hrest : ∀ w ∈ rest, (∃ r, w = .done r) ∨ ∃ v : Visit, w = v.work s h :=
      fun w hm => hwait w (.tail _ hm)
    -- once the first of them is done it is one of the finished calls
    have more {e : Engine} (free : .poll h.key ∉ e.held) (r : Except Error Unit) :
        ∃ taken ns y, Run s ⟨e, finished ++ .done r :: rest⟩ taken ns y ∧ y.Finished := by
      have hf' : ∀ w ∈ finished ++ [.done r], ∃ r, w = .done r := by
        intro w hm
        rcases List.mem_append.1 hm with hm | hm
        · exact hf w hm
        · exact ⟨r, List.mem_singleton.1 hm⟩
      have hrun := ih (finished ++ [.done r]) free hf' hrest
      rwa [List.append_assoc] at hrun
    rcases hwait w (.head _) with ⟨r, rfl⟩ | ⟨v, rfl⟩
    · exact more free r
    · have call : (finished ++ v.work s h :: rest)[finished.length]? = some (v.work s h) := by simp
      obtain ⟨taken₁, ns₁, r, e₁, hrun₁, _, hfree₁⟩ :=
        run_of_meets call (v.work_meets (s := s) hm free)
      rw [List.set_append_right _ _ (Nat.le_refl _), Nat.sub_self, List.set_cons_zero] at hrun₁
      obtain ⟨taken₂, ns₂, y, hrun₂, hy⟩ := more hfree₁ r
      exact ⟨_, _, y, hrun₁.trans hrun₂, hy⟩

end Pool

end Telemetry
