import Telemetry.Proofs.Turns
import Telemetry.Timeline.Run

/-!
# The moments of a timeline

A timeline goes from moment to moment: a turn begins, a piece of it is taken, a new batch begins, the
clock moves, and from outside come callers that keep loops in time, whatever else they do. All
callers that there are do so (`Script.tame_commit` and its neighbours).

* `Timeline.Step`, `Timeline.Run`: one step and any number of them, with the ticks taken on the way.
* `Timeline.Good`: what holds of a timeline at every moment (`Timeline.Reachable.good`). No work but
  that of the turn under way is anywhere but at a wait, and all loops that are between two samples
  are called in time.
* `Timeline.run_course`, `Timeline.run_perform`: what is carried out are runs.
-/
namespace Telemetry.Timeline

open Engine (Paced)
open Work (Only)

/-! ## Steps -/

/-- One step, with the ticks taken in it. -/
inductive Step : Timeline → List Tick → Timeline → Prop where
  /-- A piece of the turn under way is taken. -/
  | take {t : Timeline} {p : Parked} (current : t.current = some p) :
    Step t (t.ticks p.turn) ({ t with current := none }.take p).wake
  /-- The next turn of a batch begins. -/
  | begin {t : Timeline} {p : Parked} {rest : List Parked} {n : Nat} (between : t.current = none)
    (queue : t.queue = p :: rest) (batch : t.batch = n + 1) :
    Step t [] ({ t with queue := rest, batch := n }.beginTurn p)
  | regroup {t : Timeline} (between : t.current = none) : Step t [] t.regroup
  /-- Nobody has a turn to take, and the clock moves. -/
  | jump {t t' : Timeline} (between : t.current = none) (queue : t.queue = [])
    (yielded : t.yielded = []) (jump : t.jump = some t') : Step t [] t'
  /-- A call comes in the foreground. -/
  | call {t : Timeline} {s : Script} (tame : s.Tame) : Step t [] { t with
      calls := [.script s], alone := true, foreground := some ⟨.call 0, .ready⟩, batch := 0 }
  /-- Calls come all at once. -/
  | calls {t : Timeline} {ss : List Script} (tame : ∀ s ∈ ss, s.Tame) : Step t [] { t with
      calls := ss.map .script, alone := false,
      queue := t.queue ++ (List.range ss.length).map fun i => ⟨.call i, .ready⟩, batch := batchSize }
  /-- Someone looks at what was sent. -/
  | collect {t : Timeline} (between : t.current = none) : Step t [] t.collect.1
  | serve {t : Timeline} (between : t.current = none) : Step t [] t.serve

/-- Any number of steps, with `P` at every moment. -/
inductive Run (P : Timeline → Prop) (t : Timeline) : List Tick → Timeline → Prop where
  | here (first : P t) : Run P t [] t
  | step {t' t'' : Timeline} {ks ks' : List Tick} (before : Run P t ks t') (st : Step t' ks' t'')
    (next : P t'') : Run P t (ks ++ ks') t''

/-- The timelines that come of a fresh engine. -/
def Reachable (t : Timeline) : Prop :=
  ∃ setup d ks, Run (fun _ => True) (ofEngine setup (.fresh d)) ks t

variable {t t' : Timeline} {ks : List Tick} {P : Timeline → Prop}

theorem Run.trans {ks' : List Tick} {t'' : Timeline} (r : Run P t ks t') (r' : Run P t' ks' t'') :
    Run P t (ks ++ ks') t'' := by
  induction r' with
  | here => rwa [List.append_nil]
  | step _ st next ih =>
    rw [← List.append_assoc]
    exact ih.step st next

theorem Step.run (st : Step t ks t') (first : P t) (next : P t') : Run P t ks t' :=
  (Run.here first).step st next

/-! ## Waking -/

theorem isForeground_loop (t : Timeline) (ref : Nat) (wait : Wait) :
    t.isForeground ⟨.loop ref, wait⟩ = false := by
  simp [isForeground]

theorem mem_enqueue {ps : List Parked} {p : Parked}
    (h : p ∈ t.queue ∨ p ∈ ps ∧ t.isForeground p = false) : p ∈ (t.enqueue ps).queue := by
  change p ∈ t.queue ++ (ps.partition t.isForeground).2
  rw [List.partition_eq_filter_filter]
  rcases h with h | ⟨hp, hf⟩
  · exact List.mem_append_left _ h
  · exact List.mem_append_right _ (List.mem_filter.2 ⟨hp, by simp [hf]⟩)

theorem wake_eq (t : Timeline) : t.wake = ({ t with
    parked := t.parked.filter fun p => !t.isOver p
    loopsSeen := t.engine.loopsStarted } : Timeline).enqueue (t.parked.filter t.isOver ++
      (List.range (t.engine.loopsStarted - t.loopsSeen)).map fun i =>
        ⟨.loop (t.loopsSeen + i), .ready⟩) := by
  simp only [wake, List.partition_eq_filter_filter, Function.comp_def]

theorem mem_wake_queue {p : Parked} (h : p ∈ t.queue) : p ∈ t.wake.queue := by
  rw [wake_eq]
  exact mem_enqueue (.inl h)

/-- A loop that waits goes on waiting, or can take its turn. -/
theorem mem_wake_parked {ref : Nat} {wait : Wait} (h : ⟨.loop ref, wait⟩ ∈ t.parked) :
    ⟨.loop ref, wait⟩ ∈ t.wake.parked ∨ ⟨.loop ref, wait⟩ ∈ t.wake.queue := by
  rw [wake_eq]
  by_cases ended : t.isOver ⟨.loop ref, wait⟩ = true
  · exact .inr (mem_enqueue (.inr
      ⟨List.mem_append_left _ (List.mem_filter.2 ⟨h, ended⟩), isForeground_loop ..⟩))
  · exact .inl (List.mem_filter.2 ⟨h, by simp [ended]⟩)

/-- A loop that nobody has seen gets its first turn. -/
theorem new_mem_wake {ref : Nat} (unseen : t.loopsSeen ≤ ref)
    (started : ref < t.engine.loopsStarted) : ⟨.loop ref, .ready⟩ ∈ t.wake.queue := by
  rw [wake_eq]
  refine mem_enqueue (.inr ⟨List.mem_append_right _ (List.mem_map.2 ⟨ref - t.loopsSeen, ?_, ?_⟩),
    isForeground_loop ..⟩)
  · exact List.mem_range.2 (Nat.sub_lt_sub_right unseen started)
  · rw [Nat.add_sub_cancel' unseen]

theorem mem_turns_of_queue {p : Parked} (h : p ∈ t.queue) : p ∈ t.turns :=
  List.mem_append_left _ (List.mem_append_right _ h)

/-- What keeps a loop attended. -/
theorem Attended.of {ref : Nat} (h : t.Attended ref)
    (idle : ∀ l', t'.Idle ref l' → ∃ l, t.Idle ref l ∧ l.deadline = l'.deadline)
    (turns : ∀ wait, ⟨.loop ref, wait⟩ ∈ t.turns → ⟨.loop ref, wait⟩ ∈ t'.turns)
    (parked : ∀ wait, ⟨.loop ref, wait⟩ ∈ t.parked →
      ⟨.loop ref, wait⟩ ∈ t'.parked ∨ ⟨.loop ref, wait⟩ ∈ t'.turns) : t'.Attended ref := by
  intro l' idle'
  obtain ⟨l, idle, deadline⟩ := idle l' idle'
  rcases h l idle with ⟨wait, hw⟩ | ⟨u, hu, hw⟩
  · exact .inl ⟨wait, turns wait hw⟩
  · rcases parked _ hw with hw | hw
    · exact .inr ⟨u, deadline ▸ hu, hw⟩
    · exact .inl ⟨_, hw⟩

theorem Attended.of_same {ref : Nat} (h : t.Attended ref)
    (loops : t'.engine.loops = t.engine.loops) (samples : t'.samples = t.samples)
    (turns : t.turns ⊆ t'.turns) (parked : t.parked ⊆ t'.parked) : t'.Attended ref :=
  h.of (fun l idle => ⟨l, ⟨loops ▸ idle.live, idle.wanted, samples ▸ idle.between⟩, rfl⟩)
    (fun _ hw => turns hw) fun _ hw => .inl (parked hw)

/-- Waking keeps loops attended. -/
theorem Attended.wake {ref : Nat} (h : t.Attended ref) : t.wake.Attended ref := by
  refine h.of (fun l idle => ⟨l, ⟨idle.live, idle.wanted, idle.between⟩, rfl⟩) (fun wait hw => ?_)
    fun wait hw => ?_
  · simp only [turns, List.mem_append] at hw ⊢
    exact hw.imp_left (·.imp_right mem_wake_queue)
  · exact (mem_wake_parked hw).imp_right mem_turns_of_queue

/-! ## What holds at every moment -/

/-- What holds of a timeline at every moment. -/
structure Good (t : Timeline) : Prop where
  tame : t.Tame
  /-- From here on all work keeps loops in time. -/
  only : ∀ τ, t.Each (fun w => w.Only Paced t.engine) τ
  /-- All work but that of the turn under way is at a wait. -/
  rests : ∀ τ, t.Each (fun w => w.Rests) τ ∨ t.current = some ⟨τ, .ready⟩
  numbered : t.engine.Numbered
  seen : t.loopsSeen = t.engine.loopsStarted
  attended : ∀ ref, t.Attended ref

/-- Between two turns all work is at a wait, whatever the engine is. -/
def Settled (t : Timeline) : Prop := ∀ τ, t.Each (fun w => w.Rests ∧ ∀ e, w.Only Paced e) τ

/-- Work waits unless its turn is under way, and then it does not matter what the engine is. -/
theorem Good.settled_of_ne (g : t.Good) {τ : Turn} (other : t.current ≠ some ⟨τ, .ready⟩) :
    t.Each (fun w => w.Rests ∧ ∀ e, w.Only Paced e) τ :=
  ((g.rests τ).resolve_right other).both (g.only τ) fun rests only => ⟨rests, only.rests rests⟩

theorem Good.settled (g : t.Good) (between : t.current = none) : t.Settled := fun τ =>
  g.settled_of_ne fun h => by cases between.symm.trans h

theorem Settled.good (settled : t.Settled) (tame : t.Tame) (numbered : t.engine.Numbered)
    (seen : t.loopsSeen = t.engine.loopsStarted) (attended : ∀ ref, t.Attended ref) : t.Good where
  tame := tame
  only τ := (settled τ).mono fun h => h.2 _
  rests τ := .inl ((settled τ).mono fun h => h.1)
  numbered := numbered
  seen := seen
  attended := attended

theorem good_ofEngine (setup : Setup) (d : Datastore Event) : (ofEngine setup (.fresh d)).Good where
  tame _ hp := by cases hp
  only τ := by
    cases τ with
    | call i => exact fun _ hp => by cases hp
    | loop ref => exact fun _ hw => by cases hw
    | server => trivial
  rests τ := by
    refine .inl ?_
    cases τ with
    | call i => exact fun _ hp => by cases hp
    | loop ref => exact fun _ hw => by cases hw
    | server => trivial
  numbered _ _ live := by cases live
  seen := rfl
  attended _ _ idle := by cases idle.live

section Piece

/-! ### A piece of a turn, from the tick on if there was one -/

variable {p : Parked} {e : Engine}

/-- Other loops stay attended, and those that start now get their first turn. -/
theorem Good.attended_taken (g : t.Good) (current : t.current = some p) (numbered : e.Numbered)
    (started : e.loopsStarted = t.engine.loopsStarted)
    (taken : Taken p.turn { t with current := none, engine := e } t') {ref : Nat}
    (other : p.turn ≠ .loop ref) (same : e.loops.find? ref = t.engine.loops.find? ref) :
    t'.wake.Attended ref := by
  by_cases new : t.engine.loopsStarted ≤ ref
  · intro l idle
    refine .inl ⟨.ready, mem_turns_of_queue (new_mem_wake ?_ ?_)⟩
    · rw [taken.seen]
      exact g.seen ▸ new
    · exact taken.paced.numbered numbered ref l idle.live
  · refine Attended.wake ((g.attended ref).of (fun l' idle => ?_) (fun wait hw => ?_)
      fun wait hw => .inl (taken.parked hw))
    · rcases taken.paced.loops idle.live with ⟨l, live, -, deadline, told⟩ | ⟨late, -, -⟩
      · refine ⟨l, ⟨same.symm.trans live, ?_, ?_⟩, deadline.symm⟩
        · exact Bool.eq_false_iff.2 fun h => Bool.false_ne_true (idle.wanted.symm.trans (told h))
        · exact (taken.samples ref other).symm.trans idle.between
      · exact absurd (started ▸ late) new
    · simp only [turns, List.mem_append] at hw ⊢
      rcases hw with (hw | hw) | hw
      · rw [current] at hw
        cases List.mem_singleton.1 hw
        exact absurd rfl other
      · exact .inl (.inr (taken.queue ▸ hw))
      · exact .inr (taken.yielded hw)

theorem Good.taken (g : t.Good) (current : t.current = some p) (numbered : e.Numbered)
    (started : e.loopsStarted = t.engine.loopsStarted)
    (others : ∀ ref, p.turn ≠ .loop ref → e.loops.find? ref = t.engine.loops.find? ref)
    (taken : Taken p.turn { t with current := none, engine := e } t')
    (own : ∀ ref, p.turn = .loop ref → t'.Attended ref) : t'.wake.Good := by
  have settled {τ : Turn} (other : τ ≠ p.turn) :
      t'.Each (fun w => w.Rests ∧ ∀ e, w.Only Paced e) τ := by
    refine taken.works τ other _ (g.settled_of_ne fun h => ?_)
    cases current.symm.trans h
    exact other rfl
  refine ⟨taken.tame g.tame, fun τ => ?_, fun τ => ?_, taken.paced.numbered numbered, ?_,
    fun ref => ?_⟩
  · by_cases own : τ = p.turn
    · rw [own]
      exact taken.only
    · exact Each.mono (t := t') (settled own) fun h => h.2 _
  · by_cases own : τ = p.turn
    · rw [own]
      exact taken.rests
    · exact .inl (Each.mono (t := t') (settled own) fun h => h.1)
  · rw [wake_eq]
    rfl
  · by_cases hτ : p.turn = .loop ref
    · exact (own ref hτ).wake
    · exact g.attended_taken current numbered started taken hτ (others ref hτ)

end Piece

/-- What a piece of a turn comes to. -/
theorem Good.turned (g : t.Good) {p : Parked} (current : t.current = some p) :
    Turned { t with current := none } p.turn (t.ticks p.turn) ({ t with current := none }.take p) := by
  refine turned_take g.tame (g.only p.turn) ((g.rests p.turn).imp_right fun h => ?_)
  exact congrArg Parked.wait (Option.some.inj (current.symm.trans h))

theorem numbered_tick {ref : Nat} {l : SamplingLoop} (h : t.engine.Numbered) (idle : t.Idle ref l) :
    (t.tick ref l).engine.Numbered := by
  intro ref' l' live
  change (t.engine.loops.insert ref _).find? ref' = some l' at live
  rw [SortedMap.find?_insert] at live
  split at live
  · next heq =>
    rw [heq]
    exact h ref l idle.live
  · exact h ref' l' live

theorem Good.take (g : t.Good) {p : Parked} (current : t.current = some p) :
    ({ t with current := none }.take p).wake.Good := by
  obtain ⟨turn, wait⟩ := p
  have own (ref : Nat) (h : turn = .loop ref) :
      ({ t with current := none }.take ⟨turn, wait⟩).Attended ref := by
    rw [h]
    exact attended_takeLoop _ ref wait
  have turned := g.turned current
  generalize t.ticks _ = ks at turned
  cases turned with
  | still taken => exact g.taken current g.numbered rfl (fun _ _ => rfl) taken own
  | @tick ref l _ idle due taken =>
    have numbered := numbered_tick (t := { t with current := none }) g.numbered idle
    refine g.taken current numbered rfl (fun ref' hne => ?_) taken own
    exact SortedMap.find?_insert_of_ne _ fun heq => hne (heq ▸ rfl)

/-- What is still to be called is called in the next batch. -/
theorem regroup_eq (t : Timeline) : ∃ current foreground budget queue,
    t.regroup = { t with current, foreground, budget, queue, yielded := [], batch := batchSize } ∧
      ∀ p ∈ t.queue ++ t.yielded, t.isForeground p = false → p ∈ queue := by
  have queued (p : Parked) (hp : p ∈ t.queue ++ t.yielded) (hf : t.isForeground p = false) :
      p ∈ (({ t with yielded := [], batch := batchSize } : Timeline).enqueue t.yielded).queue :=
    mem_enqueue ((List.mem_append.1 hp).imp_right fun h => ⟨h, hf⟩)
  unfold regroup
  dsimp only
  split
  · exact ⟨_, _, _, _, rfl, queued⟩
  · exact ⟨_, _, _, _, rfl, queued⟩

theorem mem_turns_of_between {p : Parked} (between : t.current = none) (h : p ∈ t.turns) :
    p ∈ t.queue ++ t.yielded := by
  simpa [turns, between] using h

theorem Good.regroup (g : t.Good) (between : t.current = none) : t.regroup.Good := by
  obtain ⟨current, foreground, budget, queue, heq, queued⟩ := t.regroup_eq
  rw [heq]
  refine Settled.good (g.settled between) g.tame g.numbered g.seen fun ref => ?_
  refine (g.attended ref).of (fun l idle => ⟨l, ⟨idle.live, idle.wanted, idle.between⟩, rfl⟩)
    (fun wait hw => ?_) fun _ => .inl
  exact mem_turns_of_queue (queued _ (mem_turns_of_between between hw) (isForeground_loop ..))

theorem Good.begin (g : t.Good) {p : Parked} {rest : List Parked} {n : Nat}
    (between : t.current = none) (queue : t.queue = p :: rest) :
    ({ t with queue := rest, batch := n }.beginTurn p).Good := by
  refine Settled.good (g.settled between) g.tame g.numbered g.seen fun ref => ?_
  refine (g.attended ref).of_same rfl rfl (fun q hq => ?_) fun _ => id
  have := mem_turns_of_between between hq
  rw [queue] at this
  simpa [turns, beginTurn] using this

/-- The clock moves when nobody has a turn to take, to a time that somebody waits for. -/
theorem jump_eq (h : t.jump = some t') :
    ∃ u, t' = { t with engine := { t.engine with now := max t.engine.now u } }.wake ∧
      ∀ p ∈ t.parked, ∀ v, t.alarm? p = some v → u ≤ v := by
  unfold jump at h
  split at h
  · cases h
  · next u hu =>
    cases h
    exact ⟨u, rfl, fun p hp v hv => (List.min?_eq_some_iff.1 hu).2 v
      (List.mem_filterMap.2 ⟨p, hp, hv⟩)⟩

theorem Good.jump (g : t.Good) (between : t.current = none) (h : t.jump = some t') : t'.Good := by
  obtain ⟨u, rfl, -⟩ := jump_eq h
  refine Settled.good (g.settled between) g.tame g.numbered (by rw [wake_eq]; rfl) fun ref => ?_
  exact Attended.wake ((g.attended ref).of_same rfl rfl (fun _ => id) fun _ => id)

/-- Whoever was there before, calls with nothing done yet take their places. -/
theorem Good.called (g : t.Good) {calls : List Progress} {queue : List Parked} (alone : Bool)
    (foreground : Option Parked) (batch : Nat)
    (scripts : ∀ p ∈ calls, ∃ s : Script, s.Tame ∧ p = .script s) (more : t.queue ⊆ queue) :
    ({ t with calls, alone, foreground, batch, queue } : Timeline).Good where
  tame p hp := by
    obtain ⟨s, tame, rfl⟩ := scripts p hp
    exact tame
  only τ := by
    cases τ with
    | call i =>
      intro p hp
      obtain ⟨s, -, rfl⟩ := scripts p (List.mem_of_getElem? hp)
      trivial
    | loop ref => exact g.only (.loop ref)
    | server => exact g.only .server
  rests τ := by
    cases τ with
    | call i =>
      refine .inl fun p hp => ?_
      obtain ⟨s, -, rfl⟩ := scripts p (List.mem_of_getElem? hp)
      trivial
    | loop ref => exact g.rests (.loop ref)
    | server => exact g.rests .server
  numbered := g.numbered
  seen := g.seen
  attended ref := by
    refine (g.attended ref).of_same rfl rfl (fun p hp => ?_) fun _ => id
    simp only [turns, List.mem_append] at hp ⊢
    exact hp.imp_left (·.imp_right (@more p))

theorem Good.serve (g : t.Good) (between : t.current = none) : t.serve.Good := by
  refine Settled.good (fun τ => ?_) g.tame g.numbered g.seen fun ref => ?_
  · cases τ with
    | call i => exact g.settled between (.call i)
    | loop ref => exact g.settled between (.loop ref)
    | server => trivial
  · refine (g.attended ref).of_same rfl rfl (fun p hp => ?_) fun _ => id
    simp only [turns, List.mem_append] at hp ⊢
    exact hp.imp_left (·.imp_right (List.mem_append_left _))

theorem Good.step (g : t.Good) (st : Step t ks t') : t'.Good := by
  cases st with
  | take current => exact g.take current
  | begin between queue => exact g.begin between queue
  | regroup between => exact g.regroup between
  | jump between _ _ jump => exact g.jump between jump
  | @call s tame =>
    exact g.called true _ 0 (fun p hp => ⟨s, tame, List.mem_singleton.1 hp⟩) fun _ => id
  | @calls ss tame =>
    refine g.called false t.foreground batchSize (fun p hp => ?_) (List.subset_append_left _ _)
    obtain ⟨s, hs, rfl⟩ := List.mem_map.1 hp
    exact ⟨s, tame s hs, rfl⟩
  | collect between =>
    exact Settled.good (g.settled between) g.tame g.numbered g.seen fun ref =>
      (g.attended ref).of_same rfl rfl (fun _ => id) fun _ => id
  | serve between => exact g.serve between

theorem Good.run (g : t.Good) (r : Run P t ks t') : t'.Good := by
  induction r with
  | here => exact g
  | step _ st _ ih => exact ih.step st

theorem Reachable.good (h : t.Reachable) : t.Good :=
  let ⟨setup, d, _, r⟩ := h
  (good_ofEngine setup d).run r

/-! ## What is carried out -/

/-- The steps of `run`: the ticks taken in each, and where it leads. -/
def course : Nat → Timeline → List (List Tick × Timeline)
  | 0, _ => []
  | fuel + 1, t =>
    match t.current, t.queue, t.batch with
    | some p, _, _ =>
      let t' := ({ t with current := none }.take p).wake
      (t.ticks p.turn, t') :: course fuel t'
    | none, p :: rest, n + 1 =>
      let t' := { t with queue := rest, batch := n }.beginTurn p
      ([], t') :: course fuel t'
    | none, _, _ =>
      let t' := t.regroup
      ([], t') ::
        if t'.current.isSome || !t'.queue.isEmpty then course fuel t'
        else if t'.allFinished then []
        else
          match t'.jump with
          | none => []
          | some t'' => ([], t'') :: ([], t''.regroup) :: course fuel t''.regroup

/-- The ticks taken in a course. -/
def ticksOf (steps : List (List Tick × Timeline)) : List Tick := steps.flatMap (·.1)

theorem yielded_regroup (t : Timeline) : t.regroup.yielded = [] := by
  obtain ⟨_, _, _, _, heq, -⟩ := t.regroup_eq
  rw [heq]

theorem run_take {p : Parked} (current : t.current = some p) (fuel : Nat) :
    run (fuel + 1) t = run fuel ({ t with current := none }.take p).wake := by
  simp only [run, current]

theorem run_begin {p : Parked} {rest : List Parked} {n : Nat} (between : t.current = none)
    (queue : t.queue = p :: rest) (batch : t.batch = n + 1) (fuel : Nat) :
    run (fuel + 1) t = run fuel ({ t with queue := rest, batch := n }.beginTurn p) := by
  simp only [run, between, queue, batch]

theorem run_regroup (between : t.current = none)
    (spent : ∀ p rest n, t.queue = p :: rest → t.batch = n + 1 → False) (fuel : Nat) :
    run (fuel + 1) t =
      if t.regroup.current.isSome || !t.regroup.queue.isEmpty then run fuel t.regroup
      else if t.regroup.allFinished then t.regroup
      else
        match t.regroup.jump with
        | none => t.regroup
        | some t' => run fuel t'.regroup := by
  rw [run]
  split
  · next current => cases between.symm.trans current
  · next queue batch => exact (spent _ _ _ queue batch).elim
  · rfl

/-- What is carried out is a run. -/
theorem run_course (fuel : Nat) (t : Timeline) (first : P t) (all : ∀ x ∈ t.course fuel, P x.2) :
    Run P t (ticksOf (t.course fuel)) (run fuel t) := by
  induction fuel generalizing t with
  | zero => exact .here first
  | succ fuel ih =>
    generalize hsteps : t.course (fuel + 1) = steps at all ⊢
    unfold course at hsteps
    split at hsteps
    · next p current =>
      subst hsteps
      obtain ⟨next, all⟩ := List.forall_mem_cons.1 all
      rw [run_take current]
      exact ((Step.take current).run first next).trans (ih _ next all)
    · next p rest n between queue batch =>
      subst hsteps
      obtain ⟨next, all⟩ := List.forall_mem_cons.1 all
      rw [run_begin between queue batch]
      exact ((Step.begin between queue batch).run first next).trans (ih _ next all)
    · next between spent =>
      subst hsteps
      obtain ⟨next, all⟩ := List.forall_mem_cons.1 all
      rw [run_regroup between spent]
      have regrouped := (Step.regroup between).run first next
      dsimp only at all ⊢
      split at all
      · next busy =>
        rw [if_pos busy, if_pos busy]
        exact regrouped.trans (ih _ next all)
      · next quiet =>
        rw [if_neg quiet, if_neg quiet]
        split at all
        · next done =>
          rw [if_pos done, if_pos done]
          exact regrouped
        · next undone =>
          rw [if_neg undone, if_neg undone]
          cases jump : t.regroup.jump with
          | none => exact regrouped
          | some t' =>
            rw [jump] at all
            obtain ⟨jumped, all⟩ := List.forall_mem_cons.1 all
            obtain ⟨next', all⟩ := List.forall_mem_cons.1 all
            have quiet : t.regroup.current = none ∧ t.regroup.queue = [] := by simpa using quiet
            have between' : t'.current = none := by
              obtain ⟨u, rfl, -⟩ := jump_eq jump
              exact quiet.1
            have st := Step.jump quiet.1 quiet.2 t.yielded_regroup jump
            exact ((regrouped.trans (st.run next jumped)).trans
              ((Step.regroup between').run jumped next')).trans (ih _ next' all)

/-- A script carried out in the foreground is a run. -/
theorem run_perform (t : Timeline) {s : Script} (tame : s.Tame) :
    ∃ ks, Run (fun _ => True) t ks (t.perform s).1 :=
  ⟨_, ((Step.call tame).run trivial trivial).trans
    (run_course patience _ trivial fun _ _ => trivial)⟩

/-- So are scripts carried out all at once. -/
theorem run_performAll (t : Timeline) {ss : List Script} (tame : ∀ s ∈ ss, s.Tame) :
    ∃ ks, Run (fun _ => True) t ks (t.performAll ss).1 :=
  ⟨_, ((Step.calls tame).run trivial trivial).trans
    (run_course patience _ trivial fun _ _ => trivial)⟩

end Telemetry.Timeline
