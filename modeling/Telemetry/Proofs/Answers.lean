import Telemetry.Proofs.Moments
import Telemetry.Proofs.Traffic

/-!
# Who answers a message

Whoever has the turn on a timeline, what it does with messages is a step of its traffic. So a message
that is sent to the server is answered by the server's own work on it, as long as the server
receives.

* `Timeline.speaks_takeCall`, `Timeline.traffic_takeLoop`, `Timeline.step_takeServer`: turns.
* `Timeline.finish_eq`: what a server leaves behind.
* `Timeline.course_traffic`, `Timeline.fair_course`: all moments of a course.
* `Timeline.followed_course`: a message along a course.
-/
namespace Telemetry

/-! ## Turns -/

namespace Timeline

open Traffic

variable {t t' : Timeline} {i : Nat}

/-- Work as far as it goes at once. -/
theorem step_leads {α : Type} (t : Timeline) (wait : Wait) (w : Work α) :
    (∃ closed, (t.step wait w).1.traffic = { t.traffic with closed }) ∧
      w.Leads (t.step wait w).2.rest := by
  unfold step
  split
  · split
    · exact ⟨⟨_, rfl⟩, .refl w⟩
    · exact ⟨⟨_, rfl⟩, w.leads_resume ..⟩
  · exact ⟨⟨_, rfl⟩, w.leads_resume ..⟩
  · exact ⟨⟨_, rfl⟩, w.leads_advance ..⟩

/-- Work is done, or its rest is kept. -/
theorem follow_cases {α : Type} (t : Timeline) (turn : Turn) (keep : Timeline → Work α → Timeline)
    (finish : Timeline → α → Timeline) (r : Work.Reached α) :
    (∃ a, r.rest = .done a ∧ t.follow turn keep finish r = finish t a) ∨
      (t.follow turn keep finish r).traffic = (keep t r.rest).traffic := by
  cases r with
  | done a => exact .inl ⟨a, rfl, rfl⟩
  | going | waiting | yielding => exact .inr rfl

/-! ### Calls -/

theorem speaks_workCall (clear : t.traffic.Clear i) (wait : Wait) (w : Work Outcome)
    (next : Outcome → Script) : Speaks i t.traffic (t.workCall i wait w next).traffic := by
  obtain ⟨⟨closed, same⟩, -⟩ := t.step_leads wait w
  have goesOn (p : Progress) :
      Speaks i t.traffic ((t.step wait w).1.setCall i p).traffic := by
    have heq : ((t.step wait w).1.setCall i p).traffic =
        { t.traffic with calls := t.traffic.calls.set i p, closed } :=
      congrArg (fun x : Traffic => { x with calls := x.calls.set i p }) same
    exact heq ▸ .goesOn clear p closed
  rcases follow_cases (t.step wait w).1 (.call i) (fun t w => t.setCall i (.working w next))
    (fun t o => t.proceed i (next o)) (t.step wait w).2 with ⟨o, -, done⟩ | kept
  · have heq : t.workCall i wait w next = (t.step wait w).1.proceed i (next o) := done
    exact heq ▸ goesOn (.script (next o))
  · have heq : (t.workCall i wait w next).traffic = _ := kept
    exact heq ▸ goesOn (.working _ next)

theorem traffic_awaitAnswer (t : Timeline) (i : Nat) : (t.awaitAnswer i).traffic = t.traffic := by
  unfold awaitAnswer
  split
  · rfl
  · rfl

/-- A call waits for room, finds that nobody receives any more, or sends its message. -/
theorem offer_cases (t : Timeline) (i : Nat) (e : Endpoint) (m : Message)
    (next : Outcome → Script) :
    (t.offer i e m next).traffic = (t.setCall i (.sending e m next)).traffic ∨
    (e ∈ t.traffic.closed ∧ (t.offer i e m next).traffic =
      (t.setCall i (.script (next (.error (.receiverGone m.channel))))).traffic) ∨
    (t.offer i e m next).traffic = { t.traffic with
      calls := t.calls.set i (.asking e next), inbox := t.inbox ++ [⟨e, m, i⟩] } := by
  unfold offer
  split
  · exact .inl rfl
  · split
    · next gone => exact .inr (.inl ⟨gone, rfl⟩)
    · split
      · refine .inr (.inr ?_)
        dsimp only
        rw [traffic_awaitAnswer]
        rfl
      · exact .inl rfl

theorem speaks_offer {e : Endpoint} {m : Message} {next : Outcome → Script}
    (ready : t.traffic.Clear i ∨ t.traffic.calls[i]? = some (.sending e m next)) :
    Speaks i t.traffic (t.offer i e m next).traffic := by
  rcases t.offer_cases i e m next with waits | ⟨gone, fails⟩ | sent
  · rw [waits]
    rcases ready with clear | call
    · exact .goesOn clear _ _
    · have same : (t.setCall i (.sending e m next)).traffic = t.traffic := by
        obtain ⟨found, hi⟩ := List.getElem?_eq_some_iff.1 call
        have calls : t.calls.set i (.sending e m next) = t.calls := hi ▸ List.set_getElem_self found
        exact congrArg (fun calls => { t.traffic with calls }) calls
      exact same ▸ .nothing _
  · rw [fails]
    rcases ready with clear | call
    · exact .goesOn clear _ _
    · exact .fails call gone _ _
  · rw [sent]
    exact .sends ready _

/-- A message that is sent where somebody receives is on its way. -/
theorem heading_offer {e : Endpoint} {m : Message} {next : Outcome → Script}
    (found : i < t.calls.length) (receiving : e ∉ t.traffic.closed) :
    (t.offer i e m next).traffic.Heading i e m next := by
  rcases t.offer_cases i e m next with waits | ⟨gone, -⟩ | sent
  · rw [waits]
    exact .sending (List.getElem?_set_self found)
  · exact (receiving gone).elim
  · rw [sent]
    exact .arrived (List.getElem?_set_self found) (List.mem_append_right _ List.mem_cons_self)

theorem speaks_scriptCall (clear : t.traffic.Clear i) (s : Script) :
    Speaks i t.traffic (t.scriptCall i s).traffic := by
  cases s with
  | done o => exact .goesOn clear _ _
  | sleep ns next =>
    rw [scriptCall]
    split
    · exact .goesOn clear _ _
    · exact .goesOn clear _ _
  | work w next => exact speaks_workCall clear .ready w next
  | number next => exact .goesOn clear _ _
  | ask m next =>
    rw [scriptCall]
    split
    · exact .goesOn clear _ _
    · exact speaks_offer (.inl clear)
  | halt next => exact .goesOn clear _ _

theorem speaks_takeCall (t : Timeline) (i : Nat) (wait : Wait) :
    Speaks i t.traffic (t.takeCall i wait).traffic := by
  have clear {p : Progress} (hi : t.calls[i]? = some p)
      (sending : ∀ e m next, p ≠ .sending e m next) (asking : ∀ e next, p ≠ .asking e next) :
      t.traffic.Clear i :=
    ⟨(List.getElem?_eq_some_iff.1 hi).1,
      fun e m next h => sending e m next (Option.some.inj (hi.symm.trans h)),
      fun e next h => asking e next (Option.some.inj (hi.symm.trans h))⟩
  unfold takeCall
  split
  · next s hi =>
    have clear := clear hi nofun nofun
    split
    · exact speaks_scriptCall clear s
    · exact speaks_scriptCall (t := t.spend) clear s
  · next w next hi => exact speaks_workCall (clear hi nofun nofun) wait w next
  · next hi => exact speaks_offer (.inr hi)
  · rw [traffic_awaitAnswer]
    exact .nothing _
  · next s hi => exact speaks_scriptCall (t := t.spend) (clear hi nofun nofun) s
  · exact .nothing _

/-! ### Loops -/

theorem traffic_workLoop (t : Timeline) (ref : Nat) (wait : Wait) (w : Work Unit) :
    ∃ closed, (t.workLoop ref wait w).traffic = { t.traffic with closed } := by
  obtain ⟨⟨closed, same⟩, -⟩ := t.step_leads wait w
  refine ⟨closed, Eq.trans ?_ same⟩
  rcases follow_cases (t.step wait w).1 (.loop ref)
    (fun t w => { t with samples := t.samples.insert ref w })
    (fun t () => { t with samples := t.samples.erase ref }.again (.loop ref))
    (t.step wait w).2 with ⟨a, -, done⟩ | kept
  · exact (congrArg traffic done : (t.workLoop ref wait w).traffic = _)
  · exact kept

theorem traffic_takeLoop (t : Timeline) (ref : Nat) (wait : Wait) :
    ∃ closed, (t.takeLoop ref wait).traffic = { t.traffic with closed } := by
  unfold takeLoop
  split
  · exact ⟨_, rfl⟩
  · split
    · exact ⟨_, rfl⟩
    · split
      · exact traffic_workLoop ..
      · split
        · exact ⟨_, rfl⟩
        · split
          · exact traffic_workLoop ..
          · exact ⟨_, rfl⟩

/-! ### The server -/

theorem reply_eq (t : Timeline) (i : Nat) (o : Outcome) :
    ∃ calls, t.reply i o = { t with calls } ∧ ∀ e next, t.calls[i]? = some (.asking e next) →
      calls = t.calls.set i (.answered e (next o)) := by
  unfold reply
  split
  · next e next hi =>
    refine ⟨_, rfl, fun e' next' hi' => ?_⟩
    cases hi.symm.trans hi'
    rfl
  · next other => exact ⟨t.calls, rfl, fun e next hi => (other e next hi).elim⟩

/-- A server that has finished has dropped its endpoints and everything that had arrived there. -/
theorem finish_eq (t : Timeline) : ∃ calls, t.finish = { t with
    calls
    serving := .finished
    inbox := []
    engine := { t.engine with datastore := t.engine.datastore.close t.endpoints } } := by
  have replies (as : List Arrival) (t : Timeline) : ∃ calls, as.foldl (fun t a =>
      t.reply a.call (.error (.replyDropped a.message.channel))) t = { t with calls } := by
    induction as generalizing t with
    | nil => exact ⟨t.calls, rfl⟩
    | cons a as ih =>
      obtain ⟨calls, heq, -⟩ := t.reply_eq a.call (.error (.replyDropped a.message.channel))
      rw [List.foldl_cons, heq]
      exact ih _
  obtain ⟨calls, heq⟩ := replies t.inbox { t with
    serving := .finished
    engine := { t.engine with datastore := t.engine.datastore.close t.endpoints } }
  exact ⟨calls, congrArg (fun t : Timeline => { t with inbox := [] }) heq⟩

/-- The server is done with some work and goes on from there, or keeps the rest of it. -/
theorem workServer_cases (t : Timeline) (wait : Wait) (w : Work Outcome)
    (serving : Work Outcome → Serving) (finish : Timeline → Outcome → Timeline) :
    (∃ t' closed o, t'.traffic = { t.traffic with closed } ∧ w.Leads (.done o) ∧
      t.workServer wait w serving finish = finish t' o) ∨
    ∃ w' closed, w.Leads w' ∧ (t.workServer wait w serving finish).traffic =
      { t.traffic with serving := serving w', closed } := by
  obtain ⟨⟨closed, same⟩, leads⟩ := t.step_leads wait w
  rcases follow_cases (t.step wait w).1 .server (fun t w => { t with serving := serving w }) finish
    (t.step wait w).2 with ⟨o, rest, done⟩ | kept
  · exact .inl ⟨_, closed, o, same, rest ▸ leads, done⟩
  · exact .inr ⟨_, closed, leads, kept.trans
      (congrArg (fun x : Traffic => { x with serving := serving (t.step wait w).2.rest }) same)⟩

theorem hears_workHandling (wait : Wait) {w : Work Outcome} (serving : t.serving = .handling i w) :
    Hears t.traffic (t.workHandling wait i w).traffic := by
  rcases t.workServer_cases wait w (.handling i) fun t o => (t.reply i o).goOn .idle with
    ⟨t', closed, o, same, leads, done⟩ | ⟨w', closed, leads, kept⟩
  · obtain ⟨calls, answered, reply⟩ := t'.reply_eq i o
    have heq : (t.workHandling wait i w).traffic =
        { t.traffic with calls, serving := .idle, closed } := by
      unfold workHandling
      rw [done, answered]
      exact congrArg (fun x : Traffic => { x with calls, serving := .idle }) same
    have calls_eq : t'.calls = t.traffic.calls := congrArg Traffic.calls same
    rw [calls_eq] at reply
    exact heq ▸ .answers serving leads reply closed
  · have heq : (t.workHandling wait i w).traffic = _ := kept
    exact heq ▸ .works serving leads closed

/-- Work that is not for a message. -/
theorem hears_workServer (wait : Wait) (w : Work Outcome) {serving : Work Outcome → Serving}
    {finish : Timeline → Outcome → Timeline} (free : ∀ i w, t.serving ≠ .handling i w)
    (other : ∀ i w w', serving w ≠ .handling i w')
    (finishes : ∀ t' closed o, t'.traffic = { t.traffic with closed } →
      Hears t.traffic (finish t' o).traffic) :
    Hears t.traffic (t.workServer wait w serving finish).traffic := by
  rcases t.workServer_cases wait w serving finish with
    ⟨t', closed, o, same, -, done⟩ | ⟨w', closed, -, kept⟩
  · exact done ▸ finishes t' closed o same
  · exact kept ▸ .turns free (fun i => other i w') closed

theorem hears_finish {closed : List Endpoint} (same : t'.traffic = { t.traffic with closed }) :
    Hears t.traffic t'.finish.traffic := by
  obtain ⟨calls, finished⟩ := t'.finish_eq
  have endpoints : t'.endpoints = t.endpoints := congrArg Traffic.endpoints same
  have heq : t'.finish.traffic = { t.traffic with
      calls, inbox := [], serving := .finished
      closed := t'.endpoints ++ t'.engine.datastore.closed } := by
    rw [finished]
    exact congrArg (fun x : Traffic => { x with
      calls, inbox := [], serving := .finished
      closed := t'.endpoints ++ t'.engine.datastore.closed }) same
  rw [heq]
  exact .finishes calls fun e he => List.mem_append_left _ (endpoints ▸ he)

theorem hears_goOn {closed : List Endpoint} (same : t'.traffic = { t.traffic with closed })
    (free : ∀ i w, t.serving ≠ .handling i w) {serving : Serving}
    (other : ∀ i w, serving ≠ .handling i w) : Hears t.traffic (t'.goOn serving).traffic := by
  have heq : (t'.goOn serving).traffic = { t.traffic with serving, closed } :=
    congrArg (fun x : Traffic => { x with serving }) same
  exact heq ▸ .turns free other closed

theorem hears_workStopping (wait : Wait) (w : Work Outcome)
    (free : ∀ i w, t.serving ≠ .handling i w) :
    Hears t.traffic (t.workStopping wait w).traffic :=
  hears_workServer wait w free nofun fun _ _ _ same => hears_finish same

theorem hears_workLooking (wait : Wait) (w : Work Outcome)
    (free : ∀ i w, t.serving ≠ .handling i w) :
    Hears t.traffic (t.workLooking wait w).traffic :=
  hears_workServer wait w free nofun fun _ _ _ same => hears_goOn same free nofun

theorem hears_workExpiring (wait : Wait) (w : Work Outcome)
    (free : ∀ i w, t.serving ≠ .handling i w) :
    Hears t.traffic (t.workExpiring wait w).traffic :=
  hears_workServer wait w free nofun fun _ _ _ same => hears_goOn same free nofun

theorem step_attend (t : Timeline) (free : ∀ i w, t.serving ≠ .handling i w) :
    Traffic.Step t.traffic t.attend.traffic := by
  unfold attend
  split
  · exact .nothing _
  · split
    · exact .hears (hears_workStopping .ready _ free)
    · split
      · next a rest inbox => exact .hears (.receives free inbox _)
      · split
        · exact .hears (hears_workStopping (t := t.spend) .ready _ free)
        · split
          · exact .hears (hears_workExpiring (t := t.spend) .ready _ free)
          · exact .nothing _

theorem step_takeServer (t : Timeline) (wait : Wait) :
    Traffic.Step t.traffic (t.takeServer wait).traffic := by
  have free {serving : Serving} (h : t.serving = serving)
      (other : ∀ i w, serving ≠ .handling i w) : ∀ i w, t.serving ≠ .handling i w := h ▸ other
  unfold takeServer
  split
  · exact .nothing _
  · exact .nothing _
  · next h => exact .hears (hears_workLooking .ready look (free h nofun))
  · next w h => exact .hears (hears_workLooking wait w (free h nofun))
  · next h => exact t.step_attend (free h nofun)
  · next i w h => exact .hears (hears_workHandling wait h)
  · next w h => exact .hears (hears_workExpiring wait w (free h nofun))
  · next w h => exact .hears (hears_workStopping wait w (free h nofun))

/-! ### Moments -/

theorem step_take (t : Timeline) (p : Parked) : Traffic.Step t.traffic (t.take p).traffic := by
  obtain ⟨turn, wait⟩ := p
  cases turn with
  | call i => exact .speaks i (t.speaks_takeCall i wait)
  | loop ref =>
    obtain ⟨closed, heq⟩ := t.traffic_takeLoop ref wait
    have heq : (t.take ⟨.loop ref, wait⟩).traffic = _ := heq
    exact heq ▸ .nothing closed
  | server => exact t.step_takeServer wait

theorem traffic_wake (t : Timeline) : t.wake.traffic = t.traffic := by
  rw [wake_eq]
  rfl

theorem traffic_regroup (t : Timeline) : t.regroup.traffic = t.traffic := by
  obtain ⟨_, _, _, _, heq, -⟩ := t.regroup_eq
  rw [heq]
  rfl

theorem traffic_jump (h : t.jump = some t') : t'.traffic = t.traffic := by
  obtain ⟨u, rfl, -⟩ := jump_eq h
  exact traffic_wake _

/-- What is carried out on a timeline are steps of its traffic. -/
theorem course_traffic (fuel : Nat) (t : Timeline) :
    List.IsChain Traffic.Step (t.traffic :: (t.course fuel).map fun x => x.2.traffic) := by
  have still {t t' : Timeline} (same : t'.traffic = t.traffic) :
      Traffic.Step t.traffic t'.traffic := same ▸ .nothing _
  induction fuel generalizing t with
  | zero => exact .singleton _
  | succ fuel ih =>
    unfold course
    split
    · next p current =>
      refine List.isChain_cons_cons.2 ⟨?_, ih _⟩
      dsimp only
      rw [traffic_wake]
      exact step_take { t with current := none } p
    · exact List.isChain_cons_cons.2 ⟨still rfl, ih _⟩
    · refine List.isChain_cons_cons.2 ⟨still t.traffic_regroup, ?_⟩
      dsimp only
      split
      · exact ih _
      · split
        · exact .singleton _
        · split
          · exact .singleton _
          · next t' jump =>
            exact List.isChain_cons_cons.2 ⟨still (traffic_jump jump),
              List.isChain_cons_cons.2 ⟨still t'.traffic_regroup, ih _⟩⟩

/-- No call has two messages with the server, whatever is carried out. -/
theorem fair_course (fair : t.traffic.Fair) (fuel : Nat) :
    ∀ x ∈ t.course fuel, x.2.traffic.Fair := fun x hx =>
  fair.steps (t.course_traffic fuel) _ (List.mem_map.2 ⟨x, hx, rfl⟩)

/-! ### Messages of scripts -/

/-- What a call has to do next. -/
def Next (t : Timeline) (i : Nat) (s : Script) : Prop :=
  t.calls[i]? = some (.script s) ∨ ∃ e, t.calls[i]? = some (.answered e s)

theorem Next.takeCall {s : Script} (h : t.Next i s) (wait : Wait) :
    ∃ budget, t.takeCall i wait = { t with budget }.scriptCall i s := by
  unfold Timeline.takeCall
  rcases h with h | ⟨e, h⟩
  · rw [h]
    dsimp only
    split
    · exact ⟨t.budget, rfl⟩
    · exact ⟨t.budget - 1, rfl⟩
  · rw [h]
    exact ⟨t.budget - 1, rfl⟩

theorem Next.found {s : Script} (h : t.Next i s) : i < t.calls.length := by
  rcases h with h | ⟨e, h⟩
  · exact (List.getElem?_eq_some_iff.1 h).1
  · exact (List.getElem?_eq_some_iff.1 h).1

variable {e : Endpoint} {m : Message} {next : Outcome → Script}

theorem closed_of_deliver {d : Datastore Event} (h : d.deliver m = .ok e) : e ∉ d.closed := by
  unfold Datastore.deliver at h
  split at h
  · cases h
  · split at h
    · cases h
    · next receiving =>
      cases h
      exact receiving

/-- A message that arrives at the server is answered by it, as long as it receives. -/
theorem followed_course (fair : t.traffic.Fair) (here : e ∈ t.endpoints)
    (arrives : t.engine.datastore.deliver m = .ok e) (h : t.Next i (.ask m next)) {wait : Wait}
    (current : t.current = some ⟨.call i, wait⟩) (fuel : Nat) :
    Followed i e m next ((t.course fuel).map fun x => x.2.traffic) := by
  cases fuel with
  | zero => exact .nil
  | succ fuel =>
    have steps := t.course_traffic (fuel + 1)
    have receiving : e ∉ t.traffic.closed := closed_of_deliver arrives
    unfold course at steps ⊢
    rw [current] at steps ⊢
    obtain ⟨st, steps⟩ := List.isChain_cons_cons.1 steps
    refine Heading.followed ?_ (fair.step st) (st.endpoints ▸ here) steps
    obtain ⟨budget, heq⟩ := Next.takeCall (t := { t with current := none }) h wait
    dsimp only
    rw [traffic_wake]
    have taken : { t with current := none }.take ⟨.call i, wait⟩ =
        { t with current := none, budget }.offer i e m next := by
      refine heq.trans ?_
      rw [scriptCall]
      dsimp only
      rw [arrives]
    rw [taken]
    exact heading_offer h.found receiving

/-- A call whose message cannot be delivered goes on at once. -/
theorem refused_takeCall {err : Error} (refused : t.engine.datastore.deliver m = .error err)
    (h : t.Next i (.ask m next)) (wait : Wait) :
    (t.takeCall i wait).calls[i]? = some (.script (next (.error err))) := by
  obtain ⟨budget, heq⟩ := h.takeCall wait
  rw [heq, scriptCall]
  dsimp only
  rw [refused]
  exact List.getElem?_set_self h.found

end Timeline

end Telemetry
