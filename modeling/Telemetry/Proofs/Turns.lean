import Telemetry.Proofs.Pace

/-!
# What a turn leaves alone

Calls, loops and the server take turns on one engine. Whoever has the turn touches its own work,
keeps loops in time, and puts itself down to be called again if there is more to do. All the rest
stays as it is.

* `Timeline.Frame`: what a turn leaves alone.
* `Timeline.Taken`: with that, where it leaves its own work: at a wait, or in the middle of its turn.
* `Timeline.tick?`: the tick that a loop takes when its turn comes.
* `Timeline.taken_take`: every turn is taken like that, apart from the tick.
* `Timeline.attended_takeLoop`: a loop that is between two samples is called again in time.
-/
namespace Telemetry

open Engine (Paced)
open Work (Only)

/-! ## The work of a turn -/

/-- `P` holds of the work of a call. -/
def Progress.Each (P : ∀ {α : Type}, Work α → Prop) : Progress → Prop
  | .working w _ => P w
  | _ => True

/-- The rest of the call keeps loops in time. -/
def Progress.Tame : Progress → Prop
  | .script s | .answered _ s => s.Tame
  | .working _ next | .sending _ _ next | .asking _ next => ∀ o, (next o).Tame
  | .finished .. => True

/-- `P` holds of the work of the server. -/
def Serving.Each (P : ∀ {α : Type}, Work α → Prop) : Serving → Prop
  | .looking w | .handling _ w | .expiring w | .stopping w => P w
  | _ => True

namespace Timeline

/-- `P` holds of the work that a turn is for, if there is any. -/
def Each (t : Timeline) (P : ∀ {α : Type}, Work α → Prop) : Turn → Prop
  | .call i => ∀ p, t.calls[i]? = some p → p.Each P
  | .loop ref => ∀ w, t.samples.find? ref = some w → P w
  | .server => t.serving.Each P

/-- All that calls do after the work they are at keeps loops in time. -/
def Tame (t : Timeline) : Prop := ∀ p ∈ t.calls, p.Tame

theorem Each.both {t : Timeline} {P Q R : ∀ {α : Type}, Work α → Prop} {τ : Turn}
    (hP : t.Each P τ) (hQ : t.Each Q τ) (h : ∀ {α : Type} {w : Work α}, P w → Q w → R w) :
    t.Each R τ := by
  cases τ with
  | call i =>
    intro p hp
    have hP := hP p hp
    have hQ := hQ p hp
    cases p with
    | working => exact h hP hQ
    | script | sending | asking | answered | finished => trivial
  | loop ref => exact fun w hw => h (hP w hw) (hQ w hw)
  | server =>
    have hP : t.serving.Each P := hP
    have hQ : t.serving.Each Q := hQ
    change t.serving.Each R
    cases serving : t.serving with
    | looking | handling | expiring | stopping =>
      rw [serving] at hP hQ
      exact h hP hQ
    | absent | idle | attending | finished => trivial

theorem Each.mono {t : Timeline} {P Q : ∀ {α : Type}, Work α → Prop} {τ : Turn} (hP : t.Each P τ)
    (h : ∀ {α : Type} {w : Work α}, P w → Q w) : t.Each Q τ := hP.both hP fun p _ => h p

/-! ## What is left alone -/

/-- What the turn of `τ` leaves alone. -/
structure Frame (τ : Turn) (t t' : Timeline) : Prop where
  paced : Paced t.engine t'.engine
  queue : t'.queue = t.queue
  seen : t'.loopsSeen = t.loopsSeen
  yielded : t.yielded ⊆ t'.yielded
  parked : t.parked ⊆ t'.parked
  samples : ∀ ref, τ ≠ .loop ref → t'.samples.find? ref = t.samples.find? ref
  works : ∀ τ', τ' ≠ τ → ∀ P : ∀ {α : Type}, Work α → Prop, t.Each P τ' → t'.Each P τ'
  tame : t.Tame → t'.Tame

namespace Frame

variable {τ : Turn} {t t' t'' : Timeline}

theorem trans (h : Frame τ t t') (h' : Frame τ t' t'') : Frame τ t t'' where
  paced := h.paced.trans h'.paced
  queue := h'.queue.trans h.queue
  seen := h'.seen.trans h.seen
  yielded _ hp := h'.yielded (h.yielded hp)
  parked _ hp := h'.parked (h.parked hp)
  samples ref hne := (h'.samples ref hne).trans (h.samples ref hne)
  works τ' hne P hP := h'.works τ' hne P (h.works τ' hne P hP)
  tame ht := h'.tame (h.tame ht)

/-- What is said nowhere else may change. -/
theorem aside {e : Engine} (paced : Paced t.engine e) (inbox : List Arrival) (shutdown : Bool)
    (current : Option Parked) (budget : Nat) :
    Frame τ t { t with engine := e, inbox, shutdown, current, budget } where
  paced := paced
  queue := rfl
  seen := rfl
  yielded _ := id
  parked _ := id
  samples _ _ := rfl
  works _ _ _ := id
  tame := id

theorem refl (t : Timeline) : Frame τ t t := aside (.refl _) _ _ _ _

theorem setCall (t : Timeline) (i : Nat) {p : Progress} (hp : p.Tame) :
    Frame (.call i) t (t.setCall i p) :=
  { (refl t : Frame (.call i) t t) with
    works τ' hne P hP := by
      cases τ' with
      | call j =>
        intro q hq
        have hij : i ≠ j := fun heq => hne (congrArg Turn.call heq.symm)
        exact hP q (by rwa [Timeline.setCall, List.getElem?_set_ne hij] at hq)
      | loop | server => exact hP
    tame ht q hq := by
      rcases List.mem_or_eq_of_mem_set hq with hq | rfl
      · exact ht q hq
      · exact hp }

theorem samples_of {ref : Nat} (samples : SortedMap Nat (Work Unit))
    (h : ∀ ref', ref' ≠ ref → samples.find? ref' = t.samples.find? ref') :
    Frame (.loop ref) t { t with samples } :=
  { (refl t : Frame (.loop ref) t t) with
    samples ref' hne := h ref' fun heq => hne (congrArg Turn.loop heq.symm)
    works τ' hne P hP := by
      cases τ' with
      | loop ref' =>
        intro w hw
        exact hP w ((h ref' fun heq => hne (congrArg Turn.loop heq)).symm.trans hw)
      | call | server => exact hP }

theorem erase (t : Timeline) (ref : Nat) :
    Frame (.loop ref) t { t with samples := t.samples.erase ref } :=
  samples_of _ fun ref' hne => by rw [SortedMap.find?_erase, if_neg hne]

theorem insert (t : Timeline) (ref : Nat) (w : Work Unit) :
    Frame (.loop ref) t { t with samples := t.samples.insert ref w } :=
  samples_of _ fun ref' hne => by rw [SortedMap.find?_insert, if_neg hne]

theorem serving (t : Timeline) (serving : Serving) : Frame .server t { t with serving } :=
  { (refl t : Frame .server t t) with
    works τ' hne P hP := by
      cases τ' with
      | server => exact absurd rfl hne
      | call | loop => exact hP }

/-- An answer leaves the call that gets it without work, as it was. -/
theorem reply (t : Timeline) (i : Nat) (o : Outcome) : Frame .server t (t.reply i o) := by
  unfold Timeline.reply
  split
  · next e next hi =>
    exact { (refl t : Frame .server t t) with
      works τ' hne P hP := by
        cases τ' with
        | call j =>
          intro q hq
          rw [Timeline.setCall, List.getElem?_set] at hq
          split at hq
          · split at hq
            · cases hq
              trivial
            · cases hq
          · exact hP q hq
        | loop => exact hP
        | server => exact absurd rfl hne
      tame ht q hq := by
        rcases List.mem_or_eq_of_mem_set hq with hq | rfl
        · exact ht q hq
        · exact ht _ (List.mem_of_getElem? hi) o }
  · exact refl t

theorem park (t : Timeline) (turn : Turn) (wait : Wait) : Frame τ t (t.park turn wait) :=
  { (refl t : Frame τ t t) with parked := List.subset_append_left _ _ }

theorem makeWay (t : Timeline) (turn : Turn) (wait : Wait) : Frame τ t (t.makeWay turn wait) :=
  { (refl t : Frame τ t t) with yielded := List.subset_cons_self _ _ }

end Frame

/-! ## Taking a turn -/

/-- The turn of `τ` leaves the rest alone, and its own work at a wait or in the middle of the turn. -/
structure Taken (τ : Turn) (t t' : Timeline) : Prop extends Frame τ t t' where
  only : t'.Each (fun w => w.Only Paced t'.engine) τ
  rests : t'.Each (fun w => w.Rests) τ ∨ t'.current = some ⟨τ, .ready⟩

variable {τ : Turn} {t t' t'' : Timeline}

theorem Frame.taken (h : Frame τ t t') (h' : Taken τ t' t'') : Taken τ t t'' :=
  { h.trans h'.toFrame with only := h'.only, rests := h'.rests }

/-- A turn without work. -/
theorem Frame.bare (h : Frame τ t t')
    (none : ∀ P : ∀ {α : Type}, Work α → Prop, t'.Each P τ) : Taken τ t t' :=
  { h with only := none _, rests := .inl (none _) }

/-- Work as far as it goes at once. -/
theorem frame_step {α : Type} {w : Work α} {wait : Wait} (only : w.Only Paced t.engine)
    (rests : w.Rests ∨ wait = .ready) :
    Frame τ t (t.step wait w).1 ∧ (t.step wait w).2.Paced (t.step wait w).1.engine := by
  have resumed (expired : Bool) := Work.resume_paced t.setup expired only
  unfold step
  split
  · next u expired =>
    split
    · exact ⟨.refl t, rests.resolve_right nofun, only⟩
    · exact ⟨.aside (resumed expired).1 .., (resumed expired).2⟩
  · exact ⟨.aside (resumed false).1 .., (resumed false).2⟩
  · obtain ⟨paced, rest⟩ := Work.advance_paced t.setup t.canTake t.budget only
    exact ⟨.aside paced .., rest⟩

theorem taken_follow {α : Type} {r : Work.Reached α} {keep : Timeline → Work α → Timeline}
    {finish : Timeline → α → Timeline} (hr : r.Paced t.engine)
    (hkeep : ∀ w, Frame τ t (keep t w) ∧ (keep t w).engine = t.engine ∧
      ∀ P : ∀ {α : Type}, Work α → Prop, P w → (keep t w).Each P τ)
    (hfinish : ∀ a, Taken τ t (finish t a)) : Taken τ t (t.follow τ keep finish r) := by
  cases r with
  | done a => exact hfinish a
  | going w =>
    obtain ⟨frame, same, each⟩ := hkeep w
    exact { frame.trans (.aside (.refl _) ..) with
      only := each (fun w' => w'.Only Paced (keep t w).engine) (same ▸ hr), rests := .inr rfl }
  | waiting w wait =>
    obtain ⟨frame, same, each⟩ := hkeep w
    exact { frame.trans (.park ..) with
      only := each _ (same ▸ hr.2), rests := .inl (each _ hr.1) }
  | yielding w wait =>
    obtain ⟨frame, same, each⟩ := hkeep w
    exact { frame.trans (.makeWay ..) with
      only := each _ (same ▸ hr.2), rests := .inl (each _ hr.1) }

/-! ### Calls -/

theorem each_setCall {i : Nat} {p : Progress} {P : ∀ {α : Type}, Work α → Prop} (h : p.Each P) :
    (t.setCall i p).Each P (.call i) := by
  intro q hq
  rw [setCall, List.getElem?_set_self'] at hq
  obtain ⟨-, -, rfl⟩ := Option.map_eq_some_iff.1 hq
  exact h

/-- A call that is not at work waits, or goes on. -/
theorem taken_setCall {i : Nat} (p : Progress) (tame : p.Tame)
    (bare : ∀ P : ∀ {α : Type}, Work α → Prop, p.Each P)
    (frame : Frame (.call i) (t.setCall i p) t') (calls : t'.calls = (t.setCall i p).calls) :
    Taken (.call i) t t' := by
  refine ((Frame.setCall t i tame).trans frame).bare fun P q hq => ?_
  exact each_setCall (t := t) (bare P) q (calls ▸ hq)

theorem taken_proceed (t : Timeline) (i : Nat) {s : Script} (hs : s.Tame) :
    Taken (.call i) t (t.proceed i s) :=
  taken_setCall (.script s) hs (fun _ => trivial) (.aside (.refl _) ..) rfl

theorem taken_workCall {i : Nat} {wait : Wait} {w : Work Outcome} {next : Outcome → Script}
    (only : w.Only Paced t.engine) (rests : w.Rests ∨ wait = .ready)
    (hnext : ∀ o, (next o).Tame) : Taken (.call i) t (t.workCall i wait w next) := by
  obtain ⟨frame, left⟩ := frame_step only rests
  change Taken (.call i) t ((t.step wait w).1.follow (.call i)
    (fun t w => t.setCall i (.working w next)) (fun t o => t.proceed i (next o)) (t.step wait w).2)
  refine frame.taken (taken_follow left (fun w => ⟨?_, rfl, fun P hw => ?_⟩) fun o => ?_)
  · exact .setCall _ i hnext
  · exact each_setCall hw
  · exact taken_proceed _ i (hnext o)

theorem frame_awaitAnswer (t : Timeline) (i : Nat) :
    Frame τ t (t.awaitAnswer i) ∧ (t.awaitAnswer i).calls = t.calls := by
  unfold awaitAnswer
  split
  · exact ⟨.makeWay .., rfl⟩
  · exact ⟨.park .., rfl⟩

theorem taken_offer (t : Timeline) (i : Nat) (e : Endpoint) (m : Message)
    {next : Outcome → Script} (hnext : ∀ o, (next o).Tame) :
    Taken (.call i) t (t.offer i e m next) := by
  have sending {t' : Timeline} (frame : Frame (.call i) (t.setCall i (.sending e m next)) t')
      (calls : t'.calls = (t.setCall i (.sending e m next)).calls) : Taken (.call i) t t' :=
    taken_setCall (.sending e m next) hnext (fun _ => trivial) frame calls
  unfold offer
  split
  · exact sending (.makeWay ..) rfl
  · split
    · exact (Frame.aside (.refl _) ..).taken (taken_proceed t.spend i (hnext _))
    · split
      · refine (Frame.aside (.refl _) (t.inbox ++ [⟨e, m, i⟩]) t.shutdown t.current
          (t.budget - 1)).taken ?_
        obtain ⟨frame, calls⟩ := frame_awaitAnswer _ i
        exact taken_setCall (.asking e next) hnext (fun _ => trivial) frame calls
      · exact sending (.park ..) rfl

theorem taken_scriptCall (t : Timeline) (i : Nat) {s : Script} (hs : s.Tame) :
    Taken (.call i) t (t.scriptCall i s) := by
  cases s with
  | done o => exact taken_setCall (.finished t.engine.now o) trivial (fun _ => trivial) (.refl _) rfl
  | sleep ns next =>
    rw [scriptCall]
    split
    · exact taken_proceed t i hs
    · exact taken_setCall (.script next) hs (fun _ => trivial) (.park ..) rfl
  | work w next => exact taken_workCall (hs.1 _) (.inr rfl) hs.2
  | number next =>
    exact (Frame.aside (Engine.paced_datastore ..) ..).taken (taken_proceed _ i (hs _))
  | ask m next =>
    rw [scriptCall]
    split
    · exact taken_proceed t i (hs _)
    · exact taken_offer t i _ m hs
  | halt next =>
    exact taken_setCall (.script next) hs (fun _ => trivial)
      ((Frame.aside (.refl _) ..).trans (.park ..)) rfl

theorem taken_takeCall {i : Nat} {wait : Wait} (tame : t.Tame)
    (only : t.Each (fun w => w.Only Paced t.engine) (.call i))
    (rests : t.Each (fun w => w.Rests) (.call i) ∨ wait = .ready) :
    Taken (.call i) t (t.takeCall i wait) := by
  unfold takeCall
  split
  · next s hi =>
    have hs : s.Tame := tame _ (List.mem_of_getElem? hi)
    split
    · exact taken_scriptCall t i hs
    · exact (Frame.aside (.refl _) ..).taken (taken_scriptCall t.spend i hs)
  · next w next hi =>
    exact taken_workCall (only _ hi) (rests.imp_left fun h => h _ hi)
      (tame _ (List.mem_of_getElem? hi))
  · next e m next hi => exact taken_offer t i e m (tame _ (List.mem_of_getElem? hi))
  · next hi =>
    obtain ⟨frame, calls⟩ := frame_awaitAnswer t i
    refine frame.bare fun P p hp => ?_
    rw [calls, hi] at hp
    cases hp
    trivial
  · next s hi =>
    exact (Frame.aside (.refl _) ..).taken
      (taken_scriptCall t.spend i (tame _ (List.mem_of_getElem? hi)))
  · next working _ _ _ =>
    refine (Frame.refl t).bare fun P p hp => ?_
    cases p with
    | working w next => exact (working w next hp).elim
    | script | sending | asking | answered | finished => trivial

/-! ### Loops -/

/-- A loop that is live and between two samples. -/
structure Idle (t : Timeline) (ref : Nat) (l : SamplingLoop) : Prop where
  live : t.engine.loops.find? ref = some l
  wanted : l.cancelled = false
  between : t.samples.find? ref = none

/-- Turns that wait for nothing. -/
def turns (t : Timeline) : List Parked := t.current.toList ++ t.queue ++ t.yielded

/-- A loop that is between two samples has a turn to take, or is called in time for the next one. -/
def Attended (t : Timeline) (ref : Nat) : Prop :=
  ∀ l, t.Idle ref l → (∃ wait, ⟨.loop ref, wait⟩ ∈ t.turns) ∨
    ∃ u ≤ Cadence.firing l.deadline, ⟨.loop ref, .time u⟩ ∈ t.parked

theorem taken_workLoop {ref : Nat} {wait : Wait} {w : Work Unit} (only : w.Only Paced t.engine)
    (rests : w.Rests ∨ wait = .ready) : Taken (.loop ref) t (t.workLoop ref wait w) := by
  obtain ⟨frame, left⟩ := frame_step only rests
  change Taken (.loop ref) t ((t.step wait w).1.follow (.loop ref)
    (fun t w => { t with samples := t.samples.insert ref w })
    (fun t () => { t with samples := t.samples.erase ref }.again (.loop ref)) (t.step wait w).2)
  refine frame.taken (taken_follow left (fun w => ⟨.insert _ ref w, rfl, fun P hw => ?_⟩) fun _ => ?_)
  · intro w' hw'
    cases (SortedMap.find?_insert_self ..).symm.trans hw'
    exact hw
  · refine ((Frame.erase _ ref).trans (.aside (.refl _) ..)).bare fun P w' hw' => ?_
    cases (SortedMap.find?_erase_self ..).symm.trans hw'

theorem attended_workLoop (t : Timeline) (ref : Nat) (wait : Wait) (w : Work Unit) :
    (t.workLoop ref wait w).Attended ref := by
  intro l idle
  change ((t.step wait w).1.follow (.loop ref)
    (fun t w => { t with samples := t.samples.insert ref w })
    (fun t () => { t with samples := t.samples.erase ref }.again (.loop ref))
    (t.step wait w).2).Idle ref l at idle
  unfold workLoop
  cases heq : (t.step wait w).2 with
  | done => exact .inl ⟨.ready, by simp [heq, turns, follow, again]⟩
  | going w | waiting w wait | yielding w wait =>
    rw [heq] at idle
    cases (SortedMap.find?_insert_self ..).symm.trans idle.between

/-- A sample that is due in the turn of a loop, and when it is taken. -/
structure Tick where
  loop : Nat
  deadline : Nat
  time : Nat
  deriving DecidableEq, Repr

/-- The ticks taken in a turn: one if the turn is that of a loop between two samples, and the next
is due. -/
def ticks (t : Timeline) : Turn → List Tick
  | .loop ref =>
    match t.engine.loops.find? ref with
    | some l =>
      if l.cancelled = false ∧ (t.samples.find? ref).isNone ∧ t.budget ≠ 0 ∧
          Cadence.firing l.deadline ≤ t.engine.now then
        [⟨ref, l.deadline, t.engine.now⟩]
      else []
    | none => []
  | _ => []

/-- The loop is due again after its period, or as soon as it can be in step. -/
def tick (t : Timeline) (ref : Nat) (l : SamplingLoop) : Timeline :=
  let l := { l with deadline := Cadence.next l.plan.period l.deadline t.engine.now }
  { t with engine := { t.engine with loops := t.engine.loops.insert ref l } }

/-- What a turn comes to: a tick, if there is one, and what follows from it. -/
inductive Turned (t : Timeline) : Turn → List Tick → Timeline → Prop where
  | still {τ : Turn} {t' : Timeline} (taken : Taken τ t t') : Turned t τ [] t'
  | tick {ref : Nat} {l : SamplingLoop} {t' : Timeline} (idle : t.Idle ref l)
    (due : Cadence.firing l.deadline ≤ t.engine.now) (taken : Taken (.loop ref) (t.tick ref l) t') :
    Turned t (.loop ref) [⟨ref, l.deadline, t.engine.now⟩] t'

theorem ticks_due {ref : Nat} {l : SamplingLoop} (idle : t.Idle ref l) (budget : t.budget ≠ 0)
    (due : Cadence.firing l.deadline ≤ t.engine.now) :
    t.ticks (.loop ref) = [⟨ref, l.deadline, t.engine.now⟩] := by
  simp [ticks, idle.live, idle.wanted, idle.between, budget, due]

theorem ticks_eq_nil {ref : Nat} (h : ∀ l, t.Idle ref l → t.budget = 0 ∨
    ¬Cadence.firing l.deadline ≤ t.engine.now) : t.ticks (.loop ref) = [] := by
  unfold ticks
  dsimp only
  split
  · next l live =>
    refine if_neg fun ⟨wanted, between, budget, due⟩ => ?_
    rcases h l ⟨live, wanted, Option.isNone_iff_eq_none.1 between⟩ with spent | early
    · exact budget spent
    · exact early due
  · rfl

theorem turned_takeLoop {ref : Nat} {wait : Wait}
    (only : t.Each (fun w => w.Only Paced t.engine) (.loop ref))
    (rests : t.Each (fun w => w.Rests) (.loop ref) ∨ wait = .ready) :
    Turned t (.loop ref) (t.ticks (.loop ref)) (t.takeLoop ref wait) := by
  have still {t' : Timeline} (none : ∀ l, t.Idle ref l → t.budget = 0 ∨
      ¬Cadence.firing l.deadline ≤ t.engine.now) (taken : Taken (.loop ref) t t') :
      Turned t (.loop ref) (t.ticks (.loop ref)) t' := by
    rw [ticks_eq_nil none]
    exact .still taken
  have gone {e : Engine} (paced : Paced t.engine e) :
      Taken (.loop ref) t { t with engine := e, samples := t.samples.erase ref } := by
    refine ((Frame.aside paced t.inbox t.shutdown t.current t.budget).trans (.erase _ ref)).bare
      fun P w hw => ?_
    cases (SortedMap.find?_erase_self ..).symm.trans hw
  unfold takeLoop
  split
  · next live => exact still (fun l idle => by cases live.symm.trans idle.live) (gone (.refl _))
  · next l live =>
    split
    · next told =>
      refine still (fun l' idle => ?_) (gone (Engine.paced_endLoop ref _))
      cases live.symm.trans idle.live
      exact absurd (told.symm.trans idle.wanted) (by decide)
    · next told =>
      split
      · next w under =>
        exact still (fun l' idle => by cases under.symm.trans idle.between)
          (taken_workLoop (only w under) (rests.imp_left fun h => h w under))
      · next under =>
        have bare {t' : Timeline} (frame : Frame (.loop ref) t t') (same : t'.samples = t.samples) :
            Taken (.loop ref) t t' := by
          refine frame.bare fun P w hw => ?_
          cases under.symm.trans (same ▸ hw)
        split
        · next spent => exact still (fun _ _ => .inl spent) (bare (.makeWay ..) rfl)
        · next budget =>
          split
          · next due =>
            have idle : t.Idle ref l := ⟨live, Bool.not_eq_true _ ▸ told, under⟩
            rw [ticks_due idle budget due]
            exact .tick idle due ((Frame.aside (.refl _) ..).taken
              (taken_workLoop (Engine.sample_paced _ _ _) (.inr rfl)))
          · next early =>
            refine still (fun l' idle => ?_) (bare (.park ..) rfl)
            cases live.symm.trans idle.live
            exact .inr early

theorem attended_takeLoop (t : Timeline) (ref : Nat) (wait : Wait) :
    (t.takeLoop ref wait).Attended ref := by
  unfold takeLoop
  split
  · next live =>
    intro l idle
    cases live.symm.trans idle.live
  · next l live =>
    split
    · intro l' idle
      have : (t.engine.endLoop ref).loops.find? ref = none := by
        rw [Engine.endLoop_eq live]
        exact SortedMap.find?_erase_self ..
      cases this.symm.trans idle.live
    · split
      · exact attended_workLoop _ _ _ _
      · split
        · exact fun _ _ => .inl ⟨.ready, by simp [turns, makeWay]⟩
        · split
          · unfold startSample
            exact attended_workLoop _ _ _ _
          · intro l' idle
            cases live.symm.trans idle.live
            exact .inr ⟨_, Nat.le_refl _, by simp [park]⟩

/-! ### The server -/

theorem taken_workServer {wait : Wait} {w : Work Outcome} {serving : Work Outcome → Serving}
    {finish : Timeline → Outcome → Timeline} (only : w.Only Paced t.engine)
    (rests : w.Rests ∨ wait = .ready)
    (hserving : ∀ w, ∀ P : ∀ {α : Type}, Work α → Prop, P w → (serving w).Each P)
    (hfinish : ∀ (t : Timeline) o, Taken .server t (finish t o)) :
    Taken .server t (t.workServer wait w serving finish) := by
  obtain ⟨frame, left⟩ := frame_step only rests
  change Taken .server t ((t.step wait w).1.follow .server
    (fun t w => { t with serving := serving w }) finish (t.step wait w).2)
  exact frame.taken (taken_follow left (fun w => ⟨.serving .., rfl, hserving w⟩)
    fun o => hfinish _ o)

theorem only_quietly {w : Work Unit} {e : Engine} (h : w.Only Paced e) :
    (quietly w).Only Paced e := h.bind fun _ _ => trivial

theorem only_look (e : Engine) : look.Only Paced e :=
  only_quietly (.acquire fun _ => .change (Engine.paced_free .pending _))

/-- The server goes on with work that it has just begun. -/
theorem taken_goOn {serving : Serving} (only : serving.Each fun w => w.Only Paced t.engine) :
    Taken .server t (t.goOn serving) :=
  { (Frame.serving t serving).trans (.aside (.refl _) ..) with only := only, rests := .inr rfl }

theorem taken_finish (t : Timeline) : Taken .server t t.finish := by
  have replies (as : List Arrival) (t : Timeline) :
      Frame .server t (as.foldl (fun t a =>
        t.reply a.call (.error (.replyDropped a.message.channel))) t) ∧
      (as.foldl (fun t a =>
        t.reply a.call (.error (.replyDropped a.message.channel))) t).serving = t.serving := by
    induction as generalizing t with
    | nil => exact ⟨.refl t, rfl⟩
    | cons a as ih =>
      obtain ⟨frame, same⟩ := ih (t.reply a.call (.error (.replyDropped a.message.channel)))
      refine ⟨(Frame.reply ..).trans frame, same.trans ?_⟩
      unfold reply
      split <;> rfl
  obtain ⟨frame, same⟩ := replies t.inbox { t with
    serving := .finished
    engine := { t.engine with datastore := t.engine.datastore.close t.endpoints } }
  refine ((Frame.serving t .finished).trans ((Frame.aside (Engine.paced_datastore ..) ..).trans
    (frame.trans (.aside (.refl _) ..)))).bare fun P => ?_
  have finished : t.finish.serving = .finished := same
  change t.finish.serving.Each P
  rw [finished]
  trivial

theorem taken_workHandling (i : Nat) {wait : Wait} {w : Work Outcome} (only : w.Only Paced t.engine)
    (rests : w.Rests ∨ wait = .ready) : Taken .server t (t.workHandling wait i w) :=
  taken_workServer only rests (fun _ _ => id) fun t o =>
    (Frame.reply t i o).taken (taken_goOn trivial)

theorem taken_workStopping {wait : Wait} {w : Work Outcome} (only : w.Only Paced t.engine)
    (rests : w.Rests ∨ wait = .ready) : Taken .server t (t.workStopping wait w) :=
  taken_workServer only rests (fun _ _ => id) fun t _ => taken_finish t

theorem taken_workLooking {wait : Wait} {w : Work Outcome} (only : w.Only Paced t.engine)
    (rests : w.Rests ∨ wait = .ready) : Taken .server t (t.workLooking wait w) :=
  taken_workServer only rests (fun _ _ => id) fun _ _ => taken_goOn trivial

theorem taken_workExpiring {wait : Wait} {w : Work Outcome} (only : w.Only Paced t.engine)
    (rests : w.Rests ∨ wait = .ready) : Taken .server t (t.workExpiring wait w) :=
  taken_workServer only rests (fun _ _ => id) fun _ _ => taken_goOn trivial

theorem taken_attend (attending : t.serving = .attending) : Taken .server t t.attend := by
  have bare {t' : Timeline} (frame : Frame .server t t') (same : t'.serving = t.serving) :
      Taken .server t t' := by
    refine frame.bare fun P => ?_
    change t'.serving.Each P
    rw [same, attending]
    trivial
  have shutdown (t : Timeline) : (quietly Engine.shutdown).Only Paced t.engine :=
    only_quietly (Engine.shutdown_paced t.setup t.engine)
  unfold attend
  split
  · exact bare (.makeWay ..) rfl
  · split
    · exact taken_workStopping (shutdown t) (.inr rfl)
    · split
      · next a rest _ =>
        exact (Frame.aside (.refl _) rest t.shutdown t.current (t.budget - 1)).taken
          (taken_goOn (Engine.serve_paced t.setup a.message t.engine))
      · split
        · exact (Frame.aside (.refl _) ..).taken (taken_workStopping (shutdown t.spend) (.inr rfl))
        · split
          · exact (Frame.aside (.refl _) ..).taken (taken_workExpiring (t := t.spend)
              (only_quietly (Engine.expire_paced t.setup t.engine)) (.inr rfl))
          · exact bare (.park ..) rfl

theorem taken_takeServer {wait : Wait} (only : t.Each (fun w => w.Only Paced t.engine) .server)
    (rests : t.Each (fun w => w.Rests) .server ∨ wait = .ready) :
    Taken .server t (t.takeServer wait) := by
  have only : t.serving.Each fun w => w.Only Paced t.engine := only
  have rests : (t.serving.Each fun w => w.Rests) ∨ wait = .ready := rests
  unfold takeServer
  cases serving : t.serving with
  | absent | finished =>
    refine (Frame.refl t).bare fun P => ?_
    change t.serving.Each P
    rw [serving]
    trivial
  | idle => exact taken_workLooking (only_look _) (.inr rfl)
  | attending => exact taken_attend serving
  | looking w =>
    rw [serving] at only rests
    exact taken_workLooking only rests
  | handling i w =>
    rw [serving] at only rests
    exact taken_workHandling i only rests
  | expiring w =>
    rw [serving] at only rests
    exact taken_workExpiring only rests
  | stopping w =>
    rw [serving] at only rests
    exact taken_workStopping only rests

/-! ### Any turn -/

/-- Every turn is taken like that. -/
theorem turned_take {p : Parked} (tame : t.Tame)
    (only : t.Each (fun w => w.Only Paced t.engine) p.turn)
    (rests : t.Each (fun w => w.Rests) p.turn ∨ p.wait = .ready) :
    Turned t p.turn (t.ticks p.turn) (t.take p) := by
  obtain ⟨turn, wait⟩ := p
  cases turn with
  | call i => exact .still (taken_takeCall tame only rests)
  | loop ref => exact turned_takeLoop only rests
  | server => exact .still (taken_takeServer only rests)

end Timeline

end Telemetry
