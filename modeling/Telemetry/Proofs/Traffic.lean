import Mathlib.Data.List.Chain
import Telemetry.Proofs.Course
import Telemetry.Timeline.Basic

/-!
# Messages on their way

A call sends a message to an endpoint and waits. The message waits for room and arrives, the server
receives it and works on it, and the outcome of that work is what the call gets. Other calls and the
server itself may do anything in between. Here are the steps that this takes;
`Telemetry.Proofs.Answers` shows that the turns of a timeline are such steps.

* `Work.Leads`: what work can come to.
* `Traffic`: the part of a timeline that has to do with messages; `Traffic.Step`: its steps.
* `Traffic.Fair`: no call has two messages with the server (`Traffic.Fair.step`).
* `Traffic.Heading`: how far a message has come, and `Traffic.Heading.step`: how far it is after a
  step.
* `Traffic.Heading.followed`: a message stays on its way until the server's own work on it has
  answered it, as long as somebody receives at its endpoint.
-/
namespace Telemetry

/-! ## What work can come to -/

namespace Work

variable {α : Type} {w w' w'' : Work α}

/-- Work can come to this, depending on what it finds and on what it is told where it waits. -/
inductive Leads : Work α → Work α → Prop where
  | refl (w : Work α) : Leads w w
  | look {k : Engine → Work α} {e : Engine} {w : Work α} (h : Leads (k e) w) : Leads (.look k) w
  | update {f : Engine → Engine} {k w : Work α} (h : Leads k w) : Leads (.update f k) w
  | read {path : String} {k : Except Error Leaves → Work α} {r : Except Error Leaves} {w : Work α}
    (h : Leads (k r) w) : Leads (.read path k) w
  | lock {l : Lock} {k w : Work α} (h : Leads k w) : Leads (.lock l k) w
  | join {ref : Nat} {k : Bool → Work α} {ended : Bool} {w : Work α} (h : Leads (k ended) w) :
    Leads (.join ref k) w

theorem Leads.trans (h : Leads w w') (h' : Leads w' w'') : Leads w w'' := by
  induction h with
  | refl => exact h'
  | look _ ih => exact .look (ih h')
  | update _ ih => exact .update (ih h')
  | read _ ih => exact .read (ih h')
  | lock _ ih => exact .lock (ih h')
  | join _ ih => exact .join (ih h')

theorem leads_advance (s : Setup) (canTake : Engine → Lock → Bool) (w : Work α) (n : Nat)
    (e : Engine) : w.Leads (w.advance s canTake n e).2.2.rest := by
  induction w generalizing n e with
  | done a => exact .refl _
  | look k ih => exact .look (ih e n e)
  | update f k => exact .update (.refl k)
  | read path k ih =>
    unfold advance
    dsimp only
    split
    · exact .read (ih _ _ e)
    · exact .refl _
    · split
      · exact .read (ih _ _ e)
      · exact .refl _
  | lock l k ih =>
    cases n with
    | zero => exact .refl _
    | succ n =>
      unfold advance
      split
      · exact .lock (ih n _)
      · exact .refl _
  | join ref k ih =>
    cases n with
    | zero => exact .refl _
    | succ n =>
      unfold advance
      split
      · exact .join (ih true n e)
      · split
        · exact .join (ih false n e)
        · exact .refl _

theorem leads_resume (s : Setup) (expired : Bool) (w : Work α) (e : Engine) :
    w.Leads (w.resume s expired e).2 := by
  cases w with
  | read path k => exact .read (.refl _)
  | lock l k => exact .lock (.refl k)
  | join ref k => exact .join (.refl _)
  | done | look | update => exact .refl _

end Work

/-! ## Traffic -/

/-- What calls and the server have to do with each other. -/
structure Traffic where
  setup : Setup
  calls : List Progress
  inbox : List Arrival
  serving : Serving
  endpoints : List Endpoint
  closed : List Endpoint

def Timeline.traffic (t : Timeline) : Traffic where
  setup := t.setup
  calls := t.calls
  inbox := t.inbox
  serving := t.serving
  endpoints := t.endpoints
  closed := t.engine.datastore.closed

namespace Traffic

variable {x x' : Traffic} {i j : Nat} {e : Endpoint} {m : Message} {next : Outcome → Script}

/-- A call waits for an answer. -/
def Asks (x : Traffic) (i : Nat) : Prop := ∃ e next, x.calls[i]? = some (.asking e next)

/-- A call has no message under way. -/
structure Clear (x : Traffic) (i : Nat) : Prop where
  found : i < x.calls.length
  sending : ∀ e m next, x.calls[i]? ≠ some (.sending e m next)
  asking : ∀ e next, x.calls[i]? ≠ some (.asking e next)

/-- What the turn of a call does with messages. -/
inductive Speaks (i : Nat) (x : Traffic) : Traffic → Prop where
  | nothing (closed : List Endpoint) : Speaks i x { x with closed }
  /-- It does something else, which may be waiting for room. -/
  | goesOn (clear : x.Clear i) (p : Progress) (closed : List Endpoint) :
    Speaks i x { x with calls := x.calls.set i p, closed }
  | sends {e : Endpoint} {m : Message} {next : Outcome → Script}
    (ready : x.Clear i ∨ x.calls[i]? = some (.sending e m next)) (closed : List Endpoint) :
    Speaks i x { x with
      calls := x.calls.set i (.asking e next), inbox := x.inbox ++ [⟨e, m, i⟩], closed }
  /-- Nobody receives its message any more. -/
  | fails {e : Endpoint} {m : Message} {next : Outcome → Script}
    (call : x.calls[i]? = some (.sending e m next)) (gone : e ∈ x.closed) (p : Progress)
    (closed : List Endpoint) : Speaks i x { x with calls := x.calls.set i p, closed }

/-- What the turn of the server does with messages. -/
inductive Hears (x : Traffic) : Traffic → Prop where
  /-- It is at something else than a message, and turns to something else than a message. -/
  | turns (free : ∀ i w, x.serving ≠ .handling i w) {serving : Serving}
    (other : ∀ i w, serving ≠ .handling i w) (closed : List Endpoint) :
    Hears x { x with serving, closed }
  /-- It receives the message that arrived first. -/
  | receives (free : ∀ i w, x.serving ≠ .handling i w) {a : Arrival} {rest : List Arrival}
    (inbox : x.inbox = a :: rest) (closed : List Endpoint) :
    Hears x { x with
      inbox := rest, serving := .handling a.call (Engine.serve x.setup a.message), closed }
  | works {i : Nat} {w w' : Work Outcome} (serving : x.serving = .handling i w)
    (leads : w.Leads w') (closed : List Endpoint) :
    Hears x { x with serving := .handling i w', closed }
  | answers {i : Nat} {w : Work Outcome} {o : Outcome} (serving : x.serving = .handling i w)
    (leads : w.Leads (.done o)) {calls : List Progress}
    (reply : ∀ e next, x.calls[i]? = some (.asking e next) →
      calls = x.calls.set i (.answered e (next o))) (closed : List Endpoint) :
    Hears x { x with calls, serving := .idle, closed }
  /-- It drops its endpoints and everything that has arrived there. -/
  | finishes (calls : List Progress) {closed : List Endpoint}
    (dropped : ∀ e ∈ x.endpoints, e ∈ closed) :
    Hears x { x with calls, inbox := [], serving := .finished, closed }

inductive Step (x : Traffic) : Traffic → Prop where
  | nothing (closed : List Endpoint) : Step x { x with closed }
  | speaks {x' : Traffic} (i : Nat) (h : Speaks i x x') : Step x x'
  | hears {x' : Traffic} (h : Hears x x') : Step x x'

/-! ## Every call has one message at most -/

/-- No call has two messages with the server, and the calls whose messages it has wait for answers. -/
structure Fair (x : Traffic) : Prop where
  once : (x.inbox.map (·.call)).Nodup
  asks : ∀ a ∈ x.inbox, x.Asks a.call
  handled : ∀ i w, x.serving = .handling i w → x.Asks i ∧ i ∉ x.inbox.map (·.call)

theorem Asks.set_of_ne (h : x.Asks i) (hne : i ≠ j) (p : Progress) :
    Asks { x with calls := x.calls.set j p } i := by
  obtain ⟨e, next, hi⟩ := h
  exact ⟨e, next, (List.getElem?_set_ne (Ne.symm hne)).trans hi⟩

theorem Asks.ne_of_silent (h : x.Asks i) (silent : ¬x.Asks j) : i ≠ j := fun heq => silent (heq ▸ h)

theorem Clear.silent (h : x.Clear i) : ¬x.Asks i := fun ⟨e, next, hi⟩ => h.asking e next hi

theorem silent_of_sending (h : x.calls[i]? = some (.sending e m next)) : ¬x.Asks i := by
  rintro ⟨e', next', hi⟩
  cases h.symm.trans hi

/-- A call that does not wait for an answer does what it likes. -/
theorem Fair.set (fair : x.Fair) (silent : ¬x.Asks i) (p : Progress) (closed : List Endpoint) :
    Fair { x with calls := x.calls.set i p, closed } where
  once := fair.once
  asks a ha := (fair.asks a ha).set_of_ne ((fair.asks a ha).ne_of_silent silent) p
  handled j w hj :=
    have asks := (fair.handled j w hj).1
    ⟨asks.set_of_ne (asks.ne_of_silent silent) p, (fair.handled j w hj).2⟩

theorem Fair.send (fair : x.Fair) (silent : ¬x.Asks i) (hi : i < x.calls.length)
    (closed : List Endpoint) : Fair { x with
      calls := x.calls.set i (.asking e next), inbox := x.inbox ++ [⟨e, m, i⟩], closed } := by
  have fair' := fair.set silent (.asking e next) closed
  have new : i ∉ x.inbox.map (·.call) := fun h =>
    let ⟨a, ha, heq⟩ := List.mem_map.1 h
    silent (heq ▸ fair.asks a ha)
  refine ⟨?_, fun a ha => ?_, fun j w hj => ?_⟩
  · simpa [List.nodup_append, fair.once] using fun a ha heq =>
      new (List.mem_map.2 ⟨a, ha, heq⟩)
  · rcases List.mem_append.1 ha with ha | ha
    · exact fair'.asks a ha
    · obtain rfl := List.mem_singleton.1 ha
      exact ⟨e, next, List.getElem?_set_self hi⟩
  · obtain ⟨asks, others⟩ := fair.handled j w hj
    refine ⟨(fair'.handled j w hj).1, ?_⟩
    simpa using ⟨fun a ha heq => others (List.mem_map.2 ⟨a, ha, heq⟩), asks.ne_of_silent silent⟩

theorem Fair.speaks (fair : x.Fair) (h : Speaks i x x') : x'.Fair := by
  cases h with
  | nothing => exact ⟨fair.once, fair.asks, fair.handled⟩
  | goesOn clear p closed => exact fair.set clear.silent p closed
  | sends ready closed =>
    rcases ready with clear | call
    · exact fair.send clear.silent clear.found closed
    · exact fair.send (silent_of_sending call) (List.getElem?_eq_some_iff.1 call).1 closed
  | fails call _ p closed => exact fair.set (silent_of_sending call) p closed

theorem Fair.hears (fair : x.Fair) (h : Hears x x') : x'.Fair := by
  cases h with
  | turns _ other => exact ⟨fair.once, fair.asks, fun i w hi => (other i w hi).elim⟩
  | @receives _ a rest inbox =>
    have once := fair.once
    rw [inbox, List.map_cons, List.nodup_cons] at once
    refine ⟨once.2, fun b hb => fair.asks b (inbox ▸ List.mem_cons_of_mem a hb), fun i w hi => ?_⟩
    cases hi
    exact ⟨fair.asks a (inbox ▸ List.mem_cons_self), once.1⟩
  | works serving => exact ⟨fair.once, fair.asks, fun i w hi => by
      cases hi
      exact fair.handled _ _ serving⟩
  | @answers i w o serving leads calls reply =>
    obtain ⟨⟨e, next, hi⟩, others⟩ := fair.handled i w serving
    obtain rfl := reply e next hi
    refine ⟨fair.once, fun a ha => ?_, nofun⟩
    refine (fair.asks a ha).set_of_ne (fun heq => others ?_) _
    exact List.mem_map.2 ⟨a, ha, heq⟩
  | finishes => exact ⟨List.nodup_nil, nofun, nofun⟩

theorem Fair.step (fair : x.Fair) (h : Step x x') : x'.Fair := by
  cases h with
  | nothing => exact ⟨fair.once, fair.asks, fair.handled⟩
  | speaks i h => exact fair.speaks h
  | hears h => exact fair.hears h

/-- With the server at nothing and nothing sent yet. -/
theorem fair_of_quiet (inbox : x.inbox = []) (free : ∀ i w, x.serving ≠ .handling i w) :
    x.Fair where
  once := by rw [inbox]; exact List.nodup_nil
  asks a ha := by rw [inbox] at ha; cases ha
  handled i w h := (free i w h).elim

theorem Fair.steps (fair : x.Fair) {xs : List Traffic} (steps : List.IsChain Step (x :: xs)) :
    ∀ y ∈ xs, y.Fair := by
  induction xs generalizing x with
  | nil => nofun
  | cons x' xs ih =>
    obtain ⟨st, steps⟩ := List.isChain_cons_cons.1 steps
    exact List.forall_mem_cons.2 ⟨fair.step st, ih (fair.step st) steps⟩

/-! ## The way of a message -/

/-- How far a message of a call has come. -/
inductive Heading (x : Traffic) (i : Nat) (e : Endpoint) (m : Message) (next : Outcome → Script) :
    Prop where
  /-- It waits for room. -/
  | sending (call : x.calls[i]? = some (.sending e m next))
  | arrived (call : x.calls[i]? = some (.asking e next)) (inbox : ⟨e, m, i⟩ ∈ x.inbox)
  | handled (call : x.calls[i]? = some (.asking e next)) {w : Work Outcome}
    (serving : x.serving = .handling i w) (leads : (Engine.serve x.setup m).Leads w)

/-- A call has got what the server's own work on its message came to. -/
def Answered (x : Traffic) (i : Nat) (e : Endpoint) (m : Message) (next : Outcome → Script) : Prop :=
  ∃ o, x.calls[i]? = some (.answered e (next o)) ∧ (Engine.serve x.setup m).Leads (.done o)

/-- A message is as far as it was if the progress of its call is the same. -/
theorem Heading.of_call (h : x.Heading i e m next) (setup : x'.setup = x.setup)
    (call : x'.calls[i]? = x.calls[i]?) (inbox : x.inbox ⊆ x'.inbox)
    (serving : x'.serving = x.serving) : x'.Heading i e m next := by
  cases h with
  | sending h => exact .sending (call.trans h)
  | arrived h arrival => exact .arrived (call.trans h) (inbox arrival)
  | handled h hserving leads => exact .handled (call.trans h) (serving.trans hserving) (setup ▸ leads)

/-- A message whose call does something else is not under way. -/
theorem Heading.not_clear (h : x.Heading i e m next) : ¬x.Clear i := fun clear => by
  cases h with
  | sending call => exact clear.sending _ _ _ call
  | arrived call | handled call => exact clear.asking _ _ call

theorem Heading.speaks (h : x.Heading i e m next) (receiving : e ∉ x.closed)
    (speaks : Speaks j x x') : x'.Heading i e m next := by
  have other {p : Progress} (hne : j ≠ i) : (x.calls.set j p)[i]? = x.calls[i]? :=
    List.getElem?_set_ne hne
  cases speaks with
  | nothing => exact h.of_call rfl rfl (fun _ => id) rfl
  | goesOn clear p =>
    exact h.of_call rfl (other fun heq => h.not_clear (heq ▸ clear)) (fun _ => id) rfl
  | @sends e' m' next' ready =>
    by_cases heq : j = i
    · subst heq
      have found := ready.resolve_left h.not_clear
      cases h with
      | sending call =>
        cases call.symm.trans found
        refine .arrived ?_ (List.mem_append_right _ List.mem_cons_self)
        exact List.getElem?_set_self (List.getElem?_eq_some_iff.1 call).1
      | arrived call | handled call => cases call.symm.trans found
    · exact h.of_call rfl (other heq) (List.subset_append_left _ _) rfl
  | @fails e' m' next' call gone p =>
    refine h.of_call rfl (other fun heq => ?_) (fun _ => id) rfl
    subst heq
    cases h with
    | sending call' =>
      cases call.symm.trans call'
      exact receiving gone
    | arrived call' | handled call' => cases call.symm.trans call'

theorem Heading.turns (h : x.Heading i e m next) (free : ∀ i w, x.serving ≠ .handling i w)
    (serving : Serving) (closed : List Endpoint) :
    Heading { x with serving, closed } i e m next := by
  cases h with
  | sending call => exact .sending call
  | arrived call arrival => exact .arrived call arrival
  | handled _ handling => exact (free _ _ handling).elim

/-- Either it is this message that is received, or this one goes on waiting for that. -/
theorem Heading.receives (h : x.Heading i e m next) (free : ∀ i w, x.serving ≠ .handling i w)
    {a : Arrival} {rest : List Arrival} (inbox : x.inbox = a :: rest) (closed : List Endpoint) :
    Heading { x with
      inbox := rest, serving := .handling a.call (Engine.serve x.setup a.message), closed }
      i e m next := by
  cases h with
  | sending call => exact .sending call
  | arrived call arrival =>
    rw [inbox, List.mem_cons] at arrival
    rcases arrival with rfl | arrival
    · exact .handled call rfl (.refl _)
    · exact .arrived call arrival
  | handled _ handling => exact (free _ _ handling).elim

theorem Heading.works (h : x.Heading i e m next) {w w' : Work Outcome}
    (serving : x.serving = .handling j w) (leads : w.Leads w') (closed : List Endpoint) :
    Heading { x with serving := .handling j w', closed } i e m next := by
  cases h with
  | sending call => exact .sending call
  | arrived call arrival => exact .arrived call arrival
  | handled call handling before =>
    cases serving.symm.trans handling
    exact .handled call rfl (before.trans leads)

/-- An answer goes to the call whose message was handled, and that call has no other message. -/
theorem Heading.answers (h : x.Heading i e m next) (fair : x.Fair) {w : Work Outcome} {o : Outcome}
    (serving : x.serving = .handling j w) (leads : w.Leads (.done o)) {calls : List Progress}
    (reply : ∀ e next, x.calls[j]? = some (.asking e next) →
      calls = x.calls.set j (.answered e (next o))) (closed : List Endpoint) :
    Heading { x with calls, serving := .idle, closed } i e m next ∨
      Answered { x with calls, serving := .idle, closed } i e m next := by
  obtain ⟨⟨e', next', asks⟩, others⟩ := fair.handled j w serving
  obtain rfl := reply e' next' asks
  have other (hne : j ≠ i) : (x.calls.set j (.answered e' (next' o)))[i]? = x.calls[i]? :=
    List.getElem?_set_ne hne
  cases h with
  | sending call =>
    refine .inl (.sending ((other fun heq => ?_).trans call))
    cases (heq ▸ asks).symm.trans call
  | arrived call arrival =>
    refine .inl (.arrived ((other fun heq => others ?_).trans call) arrival)
    exact List.mem_map.2 ⟨_, arrival, heq.symm⟩
  | handled call handling before =>
    cases serving.symm.trans handling
    cases asks.symm.trans call
    exact .inr ⟨o, List.getElem?_set_self (List.getElem?_eq_some_iff.1 call).1, before.trans leads⟩

theorem Heading.hears (h : x.Heading i e m next) (fair : x.Fair) (here : e ∈ x.endpoints)
    (hears : Hears x x') :
    x'.Heading i e m next ∨ x'.Answered i e m next ∨ e ∈ x'.closed := by
  cases hears with
  | turns free _ closed => exact .inl (h.turns free _ closed)
  | receives free inbox closed => exact .inl (h.receives free inbox closed)
  | works serving leads closed => exact .inl (h.works serving leads closed)
  | answers serving leads reply closed =>
    rcases h.answers fair serving leads reply closed with h | h
    · exact .inl h
    · exact .inr (.inl h)
  | finishes _ dropped => exact .inr (.inr (dropped e here))

/-- One step: the message stays on its way, or is answered, or nobody receives it any more. -/
theorem Heading.step (h : x.Heading i e m next) (fair : x.Fair) (here : e ∈ x.endpoints)
    (receiving : e ∉ x.closed) (st : Step x x') :
    x'.Heading i e m next ∨ x'.Answered i e m next ∨ e ∈ x'.closed := by
  cases st with
  | nothing => exact .inl (h.of_call rfl rfl (fun _ => id) rfl)
  | speaks j st => exact .inl (h.speaks receiving st)
  | hears st => exact h.hears fair here st

theorem Step.endpoints (st : Step x x') : x'.endpoints = x.endpoints := by
  cases st with
  | nothing => rfl
  | speaks j st => cases st <;> rfl
  | hears st => cases st <;> rfl

/-- From moment to moment a message stays on its way until it is answered, or until nobody receives
at its endpoint any more. -/
inductive Followed (i : Nat) (e : Endpoint) (m : Message) (next : Outcome → Script) :
    List Traffic → Prop where
  | nil : Followed i e m next []
  | heading {x : Traffic} {xs : List Traffic} (h : x.Heading i e m next)
    (rest : Followed i e m next xs) : Followed i e m next (x :: xs)
  | answered {x : Traffic} {xs : List Traffic} (h : x.Answered i e m next) :
    Followed i e m next (x :: xs)
  | gone {x : Traffic} {xs : List Traffic} (closed : e ∈ x.closed) : Followed i e m next (x :: xs)

theorem Heading.followed (h : x.Heading i e m next) (fair : x.Fair) (here : e ∈ x.endpoints)
    {xs : List Traffic} (steps : List.IsChain Step (x :: xs)) : Followed i e m next (x :: xs) := by
  induction xs generalizing x with
  | nil => exact .heading h .nil
  | cons x' xs ih =>
    obtain ⟨st, steps⟩ := List.isChain_cons_cons.1 steps
    by_cases receiving : e ∈ x.closed
    · exact .gone receiving
    · refine .heading h ?_
      rcases h.step fair here receiving st with h | h | closed
      · exact ih h (fair.step st) (st.endpoints ▸ here) steps
      · exact .answered h
      · exact .gone closed

end Traffic

end Telemetry
