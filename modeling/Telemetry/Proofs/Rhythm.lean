import Telemetry.Proofs.Moments
import Telemetry.Proofs.System

/-!
# Loops in step

A loop that starts at a time `s` with a period `P` is due at `s + P`, `s + 2 * P` and so on, and at
no other time, however long its reads take and whatever else is going on. A tick that comes late
leaves out deadlines and moves none.

## Assumptions

Timers are not the program's own.

* `Cadence.Skips`: the timer of a loop goes on one period after a deadline that was met, and after
  one that was missed by more than the tolerance at the next that lies in step with it. It does so for
  the periods up to the horizon, thirty years, and for no others (`Cadence.skips_iff`).
* Timers go off at the first whole millisecond at or after their time (`Cadence.firing`).

## Results

* `Cadence.Skips.in_step`, `Cadence.Skips.next_of_prompt`: the rule keeps to the grid, and a deadline
  that was met is followed by the next on it.
* `Timeline.Move`, `Timeline.Beat`: what one step does to all loops and to one.
* `Timeline.InStep.beat`, `Timeline.Prompt.beat`: what each step keeps.
* `Timeline.ticks_in_step`: the ticks of a loop in any run.
-/
namespace Telemetry

/-! ## The rule -/

namespace Cadence

/-- What is assumed of the timer of a loop. -/
def Skips (period : Nat) : Prop :=
  ∀ deadline now, next period deadline now =
    if now ≤ deadline + tolerance then deadline + period
    else now + period - (now - deadline) % period

/-- It holds of a period that is not cut short. -/
theorem skips_iff {period : Nat} : Skips period ↔ period ≤ horizon := by
  constructor
  · intro skips
    have whole : next period 0 0 = period := by simpa using skips 0 0
    have cut : next period 0 0 = min period horizon := by simp [next, bounded]
    omega
  · intro within deadline now
    rw [next, bounded, Nat.min_eq_left within]

variable {period deadline now : Nat}

/-- The next deadline lies some periods after the last one. -/
theorem Skips.in_step (skips : Skips period) (due : deadline ≤ now) :
    ∃ n, 1 ≤ n ∧ next period deadline now = deadline + n * period := by
  rw [skips]
  split
  · exact ⟨1, Nat.le_refl 1, by rw [Nat.one_mul]⟩
  · refine ⟨(now - deadline) / period + 1, Nat.le_add_left .., ?_⟩
    have hdiv := Nat.div_add_mod (now - deadline) period
    rw [Nat.add_mul, Nat.one_mul, Nat.mul_comm _ period]
    omega

/-- After a tick that comes seven milliseconds late three deadlines are left out. -/
example : next (2 * millisecond) (4 * millisecond) (11 * millisecond) = 12 * millisecond := by decide

/-- A deadline that was met is followed by the next. -/
theorem Skips.next_of_prompt (skips : Skips period) (prompt : now ≤ firing deadline) :
    next period deadline now = deadline + period := by
  have := firing_lt deadline
  rw [skips, if_pos]
  simp only [tolerance]
  omega

end Cadence

/-- Of numbers that grow there are no more than there is room for. -/
theorem length_le_of_increasing {ms : List Nat} {a n : Nat} (increasing : ms.Pairwise (· < ·))
    (within : ∀ m ∈ ms, a < m ∧ m ≤ n) : ms.length ≤ n - a := by
  induction ms generalizing a with
  | nil => exact Nat.zero_le _
  | cons m ms ih =>
    obtain ⟨first, increasing⟩ := List.pairwise_cons.1 increasing
    obtain ⟨hm, within⟩ := List.forall_mem_cons.1 within
    have := ih increasing fun m' hm' => ⟨first m' hm', (within m' hm').2⟩
    rw [List.length_cons]
    omega

namespace Timeline

open Engine (Paced)
open Cadence (millisecond firing Skips)

/-! ## What a step does to loops -/

/-- What a step can do. -/
inductive Move (t : Timeline) : List Tick → Timeline → Prop where
  | still {t' : Timeline} (paced : Paced t.engine t'.engine) : Move t [] t'
  | tick {t' : Timeline} {ref : Nat} {l : SamplingLoop} (idle : t.Idle ref l)
    (due : firing l.deadline ≤ t.engine.now) (paced : Paced (t.tick ref l).engine t'.engine) :
    Move t [⟨ref, l.deadline, t.engine.now⟩] t'
  | jump {t' : Timeline} {u : Nat} (nobody : t.turns = [])
    (now : t'.engine.now = max t.engine.now u) (loops : t'.engine.loops = t.engine.loops)
    (started : t'.engine.loopsStarted = t.engine.loopsStarted) (samples : t'.samples = t.samples)
    (first : ∀ p ∈ t.parked, ∀ v, t.alarm? p = some v → u ≤ v) : Move t [] t'

variable {t t' t₀ t₁ t₂ : Timeline} {ks ks' : List Tick} {ref s period : Nat}

theorem Step.move (st : Step t ks t') (g : t.Good) : Move t ks t' := by
  cases st with
  | @take p current =>
    obtain ⟨turn, wait⟩ := p
    have turned := g.turned current
    generalize t.ticks _ = ks at turned ⊢
    cases turned with
    | still taken => exact .still taken.paced
    | tick idle due taken => exact .tick ⟨idle.live, idle.wanted, idle.between⟩ due taken.paced
  | begin | call | calls => exact .still (.refl _)
  | regroup =>
    obtain ⟨_, _, _, _, heq, -⟩ := t.regroup_eq
    rw [heq]
    exact .still (.refl _)
  | jump between queue yielded jump =>
    obtain ⟨u, rfl, first⟩ := jump_eq jump
    exact .jump (by simp [turns, between, queue, yielded]) rfl rfl rfl rfl first
  | collect | serve => exact .still (Engine.paced_datastore ..)

theorem Move.started (m : Move t ks t') : t.engine.loopsStarted ≤ t'.engine.loopsStarted := by
  cases m with
  | still paced | tick _ _ paced => exact paced.started
  | jump _ _ _ started => exact Nat.le_of_eq started.symm

/-- The ticks of one loop. -/
def ticksBy (ref : Nat) (ks : List Tick) : List Tick := ks.filter (·.loop = ref)

/-- What a step does to a loop that was started before. -/
inductive Beat (t : Timeline) (ref : Nat) : List Tick → Timeline → Prop where
  /-- Something else happens. -/
  | rest {t' : Timeline} (now : t'.engine.now = t.engine.now)
    (same : ∀ l', t'.engine.loops.find? ref = some l' → ∃ l, t.engine.loops.find? ref = some l ∧
      l'.plan = l.plan ∧ l'.deadline = l.deadline ∧ (l.cancelled = true → l'.cancelled = true)) :
    Beat t ref [] t'
  | tick {t' : Timeline} {l : SamplingLoop} (idle : t.Idle ref l)
    (due : firing l.deadline ≤ t.engine.now) (now : t'.engine.now = t.engine.now)
    (next : ∀ l', t'.engine.loops.find? ref = some l' → l'.plan = l.plan ∧
      l'.deadline = Cadence.next l.plan.period l.deadline t.engine.now) :
    Beat t ref [⟨ref, l.deadline, t.engine.now⟩] t'
  /-- Time passes. -/
  | jump {t' : Timeline} (loops : t'.engine.loops = t.engine.loops)
    (inTime : ∀ l, t.Idle ref l → t.engine.now ≤ firing l.deadline →
      t'.engine.now ≤ firing l.deadline) (samples : t'.samples = t.samples) : Beat t ref [] t'

theorem Move.beat (m : Move t ks t') (g : t.Good) (started : ref < t.engine.loopsStarted) :
    Beat t ref (ticksBy ref ks) t' := by
  have old {e : Engine} (paced : Paced e t'.engine) (hn : e.loopsStarted = t.engine.loopsStarted)
      {l' : SamplingLoop} (live : t'.engine.loops.find? ref = some l') :
      ∃ l, e.loops.find? ref = some l ∧ l'.plan = l.plan ∧ l'.deadline = l.deadline ∧
        (l.cancelled = true → l'.cancelled = true) :=
    (paced.loops live).resolve_right fun h => absurd started (Nat.not_lt.2 (hn ▸ h.1))
  cases m with
  | still paced => exact .rest paced.now fun _ => old paced rfl
  | @tick _ ref' l idle due paced =>
    by_cases heq : ref' = ref
    · subst heq
      rw [ticksBy, List.filter_cons_of_pos (by simp)]
      refine .tick idle due paced.now fun l' live => ?_
      obtain ⟨l₁, live₁, plan, deadline, -⟩ := old paced rfl live
      cases (SortedMap.find?_insert_self ..).symm.trans live₁
      exact ⟨plan, deadline⟩
    · rw [ticksBy, List.filter_cons_of_neg (by simp [heq])]
      refine .rest paced.now fun l' live => ?_
      obtain ⟨l₁, live₁, kept⟩ := old paced rfl live
      exact ⟨l₁, (SortedMap.find?_insert_of_ne _ fun h => heq h.symm).symm.trans live₁, kept⟩
  | jump nobody now loops _ samples first =>
    refine .jump loops (fun l idle before => ?_) samples
    rw [now]
    rcases g.attended ref l idle with ⟨wait, hw⟩ | ⟨v, hv, hw⟩
    · rw [nobody] at hw
      cases hw
    · exact Nat.max_le.2 ⟨before, Nat.le_trans (first _ hw v rfl) hv⟩

/-- A loop that starts is due a period later. -/
theorem Move.start (m : Move t ks t') (g : t.Good) (new : t.engine.loopsStarted ≤ ref)
    {l : SamplingLoop} (live : t'.engine.loops.find? ref = some l) :
    l.deadline = t'.engine.now + l.plan.period := by
  have fresh {e : Engine} (hn : e.Numbered) (heq : e.loopsStarted = t.engine.loopsStarted)
      (paced : Paced e t'.engine) : l.deadline = t'.engine.now + l.plan.period := by
    rcases paced.loops live with ⟨l₀, live₀, -⟩ | ⟨-, -, deadline⟩
    · exact absurd (hn ref l₀ live₀) (Nat.not_lt.2 (heq ▸ new))
    · rw [deadline, paced.now]
  cases m with
  | still paced => exact fresh g.numbered rfl paced
  | tick idle _ paced => exact fresh (numbered_tick g.numbered idle) rfl paced
  | jump _ _ loops =>
    rw [loops] at live
    exact absurd (g.numbered ref l live) (Nat.not_lt.2 new)

/-! ## On the grid -/

/-- What holds of a loop started at `s` and of the ticks it has taken. -/
structure InStep (ref s period : Nat) (ks : List Tick) (t : Timeline) : Prop where
  started : ref < t.engine.loopsStarted
  late : ∀ k ∈ ks, k.deadline ≤ k.time
  grid : ∃ ms : List Nat, ms.Pairwise (· < ·) ∧ (∀ m ∈ ms, 1 ≤ m) ∧
    ks.map (·.deadline) = ms.map (fun m => s + m * period) ∧
    ∀ l, t.engine.loops.find? ref = some l → l.plan.period = period ∧
      ∃ m, 1 ≤ m ∧ (∀ m' ∈ ms, m' < m) ∧ l.deadline = s + m * period

theorem InStep.beat (h : InStep ref s period ks t) (skips : Skips period) (b : Beat t ref ks' t')
    (started : t.engine.loopsStarted ≤ t'.engine.loopsStarted) :
    InStep ref s period (ks ++ ks') t' := by
  obtain ⟨ms, increasing, positive, deadlines, due⟩ := h.grid
  refine ⟨Nat.lt_of_lt_of_le h.started started, ?_, ?_⟩
  · intro k hk
    rcases List.mem_append.1 hk with hk | hk
    · exact h.late k hk
    · cases b with
      | rest | jump => cases hk
      | tick idle due =>
        cases List.mem_singleton.1 hk
        exact Nat.le_trans (Cadence.le_firing _) due
  · cases b with
    | rest _ same =>
      rw [List.append_nil]
      refine ⟨ms, increasing, positive, deadlines, fun l' live => ?_⟩
      obtain ⟨l, live, plan, deadline, -⟩ := same l' live
      rw [plan, deadline]
      exact due l live
    | jump loops =>
      rw [List.append_nil]
      exact ⟨ms, increasing, positive, deadlines, fun l live => due l (loops ▸ live)⟩
    | @tick _ l idle hdue _ next =>
      obtain ⟨hperiod, m, hm, above, hdeadline⟩ := due l idle.live
      refine ⟨ms ++ [m], ?_, ?_, ?_, fun l' live => ?_⟩
      · exact List.pairwise_append.2 ⟨increasing, List.pairwise_singleton .., fun m' hm' m'' hm'' =>
          List.mem_singleton.1 hm'' ▸ above m' hm'⟩
      · intro m' hm'
        rcases List.mem_append.1 hm' with hm' | hm'
        · exact positive m' hm'
        · exact List.mem_singleton.1 hm' ▸ hm
      · rw [List.map_append, List.map_append, deadlines, List.map_singleton, List.map_singleton,
          hdeadline]
      · obtain ⟨plan, deadline⟩ := next l' live
        obtain ⟨n, hn, hnext⟩ :=
          (hperiod ▸ skips : Skips l.plan.period).in_step (Nat.le_trans (Cadence.le_firing _) hdue)
        refine ⟨plan ▸ hperiod, m + n, Nat.le_trans hm (Nat.le_add_right ..), fun m' hm' => ?_, ?_⟩
        · rcases List.mem_append.1 hm' with hm' | hm'
          · exact Nat.lt_of_lt_of_le (above m' hm') (Nat.le_add_right ..)
          · rw [List.mem_singleton.1 hm']
            omega
        · rw [deadline, hnext, hdeadline, hperiod, Nat.add_mul, Nat.add_assoc]

/-- There is no more than one tick to a period. -/
theorem InStep.few (h : InStep ref s period ks t) (positive : 0 < period) (T : Nat) :
    ks.countP (fun k => k.time ≤ s + T) ≤ T / period := by
  obtain ⟨ms, increasing, above, deadlines, -⟩ := h.grid
  calc ks.countP (fun k => k.time ≤ s + T)
      ≤ ks.countP (fun k => k.deadline ≤ s + T) := by
        refine List.countP_mono_left fun k hk hT => ?_
        exact decide_eq_true (Nat.le_trans (h.late k hk) (of_decide_eq_true hT))
    _ = (ms.map fun m => s + m * period).countP (· ≤ s + T) := by
        rw [← deadlines, List.countP_map]
        rfl
    _ = (ms.filter fun m => s + m * period ≤ s + T).length := by
        rw [List.countP_map, List.countP_eq_length_filter]
        rfl
    _ ≤ T / period - 0 := by
        refine length_le_of_increasing (increasing.filter _) fun m hm => ?_
        obtain ⟨hm, hT⟩ := List.mem_filter.1 hm
        refine ⟨above m hm, (Nat.le_div_iff_mul_le positive).2 ?_⟩
        have := of_decide_eq_true hT
        omega

/-! ## Without leaving out any -/

/-- A sample that is under way has not reached the next deadline. -/
def InTime (t : Timeline) (ref : Nat) : Prop :=
  ∀ l ∈ t.engine.loops.find? ref, (t.samples.find? ref).isSome → t.engine.now < l.deadline

instance (t : Timeline) (ref : Nat) : Decidable (t.InTime ref) :=
  inferInstanceAs (Decidable (∀ l ∈ t.engine.loops.find? ref,
    (t.samples.find? ref).isSome → t.engine.now < l.deadline))

/-- What holds of a loop started at `s` and of the ticks it has taken, if no sample reaches the
deadline after its own. -/
structure Prompt (ref s period : Nat) (ks : List Tick) (t : Timeline) : Prop where
  deadlines : ks.map (·.deadline) = (List.range' 1 ks.length).map fun m => s + m * period
  due : ∀ l, t.engine.loops.find? ref = some l →
    l.plan.period = period ∧ l.deadline = s + (ks.length + 1) * period
  now : ∀ l, t.engine.loops.find? ref = some l → l.cancelled = false →
    t.engine.now ≤ firing l.deadline

theorem Prompt.beat (h : Prompt ref s period ks t) (skips : Skips period)
    (least : millisecond ≤ period) (b : Beat t ref ks' t') (inTime : t'.InTime ref) :
    Prompt ref s period (ks ++ ks') t' := by
  cases b with
  | rest now same =>
    rw [List.append_nil]
    refine ⟨h.deadlines, fun l' live => ?_, fun l' live wanted => ?_⟩
    · obtain ⟨l, live, plan, deadline, -⟩ := same l' live
      rw [plan, deadline]
      exact h.due l live
    · obtain ⟨l, live, -, deadline, told⟩ := same l' live
      rw [now, deadline]
      exact h.now l live (Bool.eq_false_iff.2 fun hl => Bool.false_ne_true (wanted.symm.trans (told hl)))
  | jump loops idle samples =>
    rw [List.append_nil]
    refine ⟨h.deadlines, fun l live => h.due l (loops ▸ live), fun l live wanted => ?_⟩
    cases under : t'.samples.find? ref with
    | some w =>
      -- the clock does not move past a deadline while a sample is under way
      exact Nat.le_trans (Nat.le_of_lt (inTime l live (by rw [under]; rfl))) (Cadence.le_firing _)
    | none =>
      have live : t.engine.loops.find? ref = some l := loops ▸ live
      exact idle l ⟨live, wanted, samples ▸ under⟩ (h.now l live wanted)
  | @tick _ l idle due now next =>
    obtain ⟨hperiod, hdeadline⟩ := h.due l idle.live
    have met : t.engine.now ≤ firing l.deadline := h.now l idle.live idle.wanted
    have hnext := (hperiod ▸ skips : Skips l.plan.period).next_of_prompt met
    refine ⟨?_, fun l' live => ?_, fun l' live _ => ?_⟩
    · rw [List.map_append, List.length_append, List.length_singleton, List.range'_1_concat,
        List.map_append, h.deadlines, List.map_singleton, List.map_singleton, hdeadline,
        Nat.add_comm 1]
    · obtain ⟨plan, deadline⟩ := next l' live
      refine ⟨plan ▸ hperiod, ?_⟩
      rw [deadline, hnext, hdeadline, hperiod, List.length_append, List.length_singleton,
        Nat.add_mul (ks.length + 1), Nat.one_mul, Nat.add_assoc]
    · obtain ⟨-, deadline⟩ := next l' live
      have := Cadence.firing_lt l.deadline
      have := Cadence.le_firing l'.deadline
      rw [now]
      omega

/-! ## Any run -/

theorem ticksBy_append (ref : Nat) (ks ks' : List Tick) :
    ticksBy ref (ks ++ ks') = ticksBy ref ks ++ ticksBy ref ks' := List.filter_append ..

theorem Run.inStep {Q : Timeline → Prop} (r : Run Q t ks t') (g : t.Good)
    (h : InStep ref s period [] t) (skips : Skips period) :
    InStep ref s period (ticksBy ref ks) t' := by
  induction r with
  | here => exact h
  | step before st _ ih =>
    rw [ticksBy_append]
    have move := st.move (g.run before)
    exact ih.beat skips (move.beat (g.run before) ih.started) move.started

theorem Run.prompt {Q : Timeline → Prop} (r : Run Q t ks t') (g : t.Good)
    (h : InStep ref s period [] t) (hp : Prompt ref s period [] t) (skips : Skips period)
    (least : millisecond ≤ period) (inTime : ∀ t, Q t → t.InTime ref) :
    Prompt ref s period (ticksBy ref ks) t' := by
  induction r with
  | here => exact hp
  | step before st next ih =>
    rw [ticksBy_append]
    have started := (before.inStep g h skips).started
    exact ih.beat skips least ((st.move (g.run before)).beat (g.run before) started)
      (inTime _ next)

/-- The sampling cadence does not drift. A loop that is started at a time `s` with a period `P` of at
least a millisecond, and with a timer as assumed, has its ticks at deadlines `s + m * P` for growing
`m`, takes none before its deadline, and so no more than `T / P` by `s + T`, whatever happens and
however long its reads take.
If no sample reaches the deadline after its own no deadline is left out. -/
theorem ticks_in_step {Q : Timeline → Prop} {ks₀ : List Tick} {l : SamplingLoop}
    (reachable : t₀.Reachable) (st : Step t₀ ks₀ t₁) (new : t₀.engine.loopsStarted ≤ ref)
    (live : t₁.engine.loops.find? ref = some l) (least : millisecond ≤ l.plan.period)
    (skips : Skips l.plan.period) (run : Run Q t₁ ks t₂) :
    (∃ ms : List Nat, ms.Pairwise (· < ·) ∧ (∀ m ∈ ms, 1 ≤ m) ∧
      (ticksBy ref ks).map (·.deadline) = ms.map fun m => t₁.engine.now + m * l.plan.period) ∧
    (∀ k ∈ ticksBy ref ks, k.deadline ≤ k.time) ∧
    (∀ T, (ticksBy ref ks).countP (fun k => k.time ≤ t₁.engine.now + T) ≤ T / l.plan.period) ∧
    ((∀ t, Q t → t.InTime ref) → (ticksBy ref ks).map (·.deadline) =
      (List.range' 1 (ticksBy ref ks).length).map fun m => t₁.engine.now + m * l.plan.period) := by
  have good₀ := reachable.good
  have good₁ := good₀.step st
  have deadline : l.deadline = t₁.engine.now + 1 * l.plan.period := by
    rw [Nat.one_mul]
    exact (st.move good₀).start good₀ new live
  have first : InStep ref t₁.engine.now l.plan.period [] t₁ := by
    refine ⟨good₁.numbered ref l live, nofun, [], .nil, nofun, rfl, fun l' live' => ?_⟩
    cases live.symm.trans live'
    exact ⟨rfl, 1, Nat.le_refl 1, nofun, deadline⟩
  have prompt : Prompt ref t₁.engine.now l.plan.period [] t₁ := by
    refine ⟨rfl, fun l' live' => ?_, fun l' live' _ => ?_⟩
    · cases live.symm.trans live'
      exact ⟨rfl, deadline⟩
    · cases live.symm.trans live'
      have := Cadence.le_firing l.deadline
      omega
  have inStep := run.inStep good₁ first skips
  obtain ⟨ms, increasing, positive, deadlines, -⟩ := inStep.grid
  refine ⟨⟨ms, increasing, positive, deadlines⟩, inStep.late, inStep.few ?_, fun inTime => ?_⟩
  · exact Nat.lt_of_lt_of_le (by decide) least
  · exact (run.prompt good₁ first prompt skips least inTime).deadlines

end Timeline

/-! ## A small timeline -/

namespace Small.Ticking

open Timeline

/-- A STREAM request is created, and then time passes. -/
def script : Script :=
  .work (Script.phase setup (.change 7 [creation])) fun _ => .sleep 5_000_000_000 (.done (.ok .null))

def called : Timeline := { ofEngine setup engine with
  calls := [.script script], alone := true, foreground := some ⟨.call 0, .ready⟩, batch := 0 }

/-- The timeline just before the loop of the request is there. -/
def before : Timeline := run 2 called

def started : Timeline := run 1 before

/-- The loop: it samples every two seconds. -/
def loop : SamplingLoop := ⟨0, 1, ⟨1, 5, "/m:c", 2_000_000_000, false, none⟩, 2_000_000_000, false⟩

theorem reachable_before : before.Reachable := by
  have tame : script.Tame := ⟨Script.phase_paced setup _, fun _ => trivial⟩
  exact ⟨setup, _, _, ((Step.call tame).run trivial trivial).trans
    (run_course 2 called trivial fun _ _ => trivial)⟩

theorem step_started : Step before (before.ticks (.call 0)) started := by
  have current : before.current = some ⟨.call 0, .ready⟩ := by decide +kernel
  have start := run_take current 0
  rw [started, start]
  exact .take current

/-- Two samples are taken in five seconds. -/
theorem two_ticks_in_step :
    Run (·.InTime 0) started (ticksOf (started.course 24)) (run 24 started) ∧
      (ticksBy 0 (ticksOf (started.course 24))).length = 2 ∧
      (ticksBy 0 (ticksOf (started.course 24))).map (·.deadline) =
        (List.range' 1 2).map fun m => started.engine.now + m * loop.plan.period := by
  have live : started.engine.loops.find? 0 = some loop := by decide +kernel
  have inTime : ∀ x ∈ started.course 24, x.2.InTime 0 := by decide +kernel
  have run := run_course 24 started (P := (·.InTime 0)) (by decide +kernel) inTime
  have two : (ticksBy 0 (ticksOf (started.course 24))).length = 2 := by decide +kernel
  obtain ⟨-, -, -, met⟩ := ticks_in_step reachable_before step_started (by decide +kernel) live
    (by decide) (Cadence.skips_iff.2 (by decide)) run
  exact ⟨run, two, two ▸ met fun _ => id⟩

end Small.Ticking

end Telemetry
