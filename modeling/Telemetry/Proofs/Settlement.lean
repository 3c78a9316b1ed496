import Telemetry.Proofs.Atomicity
import Telemetry.Proofs.History

/-!
# How a pending transaction ends

A transaction that was accepted is pending until it is done, aborted, out of time or dropped by a
shutdown, whichever comes first. Until then every other transaction is refused, and what concerns
another transaction or comes too early changes nothing. Afterwards nothing that concerns it changes
anything.

* `Engine.Wanes`, `Engine.shutdown_wanes`: a shutdown begins nothing.
* `Entry.Leads`, `Entry.Made.leads`: what one call makes of the pending transaction.
* `History.accepted_before`: what is pending was accepted, and nothing has ended it since.
* `pending_ends_once`: the statement.
-/
namespace Telemetry

open Engine (Call Rest Effect Ledger Unmoved Dismissed Undone Accepted Acceptable)
open Work (Meets)

/-! ## Shutdowns -/

namespace Engine

variable {s : Setup} {e : Engine} {h : Handle}

/-- A change that begins nothing: nothing is registered by it, nothing is started and nothing is
sent. -/
structure Wanes (x y : Engine) : Prop where
  registered : ∀ {h}, y.Registered h → x.Registered h
  running : ∀ {h}, y.status h = .running → x.status h = .running
  sent : y.datastore = x.datastore

/-- Stopping a request begins nothing. -/
theorem Halted.wanes {e' : Engine} (hh : Halted h e e') (sent : e'.datastore = e.datastore) :
    Wanes e e' where
  registered hr := by
    rwa [Registered, hh.registry] at hr
  running {h'} hrun := by
    by_cases hk : h'.key = h.key
    · rw [hh.stopped hk] at hrun
      cases hrun
    · rwa [Engine.status, hh.beside.life hk] at hrun
  sent := sent

theorem wanes_halted (h : Handle) (e : Engine) : Wanes e (e.halted h) :=
  (Halted.of_halted (.of_core rfl) rfl rfl).wanes rfl

theorem wanes_of_core {e' : Engine} (hr : e'.registry = e.registry) (hl : e'.lives = e.lives)
    (sent : e'.datastore = e.datastore) : Wanes e e' where
  registered hreg := by
    rwa [Registered, hr] at hreg
  running hrun := by
    rwa [status, Engine.life, hl] at hrun
  sent := sent

theorem wanes_cancelLoops (h : Handle) (e : Engine) : Wanes e (cancelLoops h e) where
  registered hr := hr
  running {h'} hrun := by
    by_cases hk : h'.key = h.key
    · have hlife : (cancelLoops h e).life h' = { e.life h' with loops := [] } := by
        have := life_cancelLoops h e
        simpa only [Engine.life, hk] using this
      rwa [status, hlife] at hrun
    · have hlife : (cancelLoops h e).life h' = e.life h' :=
        life_eq_of_find? ((find?_setLife ..).trans (if_neg hk))
      rwa [status, hlife] at hrun
  sent := rfl

theorem joinAll_wanes (refs : List Nat) (e : Engine) :
    (joinAll refs).Meets s Wanes (fun _ _ _ => True) e := by
  induction refs generalizing e with
  | nil => trivial
  | cons ref rest ih =>
    intro ns e₁ hst
    refine ⟨fun _ => Meets.mono (fun _ _ _ _ => trivial) (ih e₁), fun l _ _ => ?_⟩
    exact ⟨wanes_of_core rfl rfl rfl, Meets.mono (fun _ _ _ _ => trivial) (ih _)⟩

theorem stop_wanes (hheld : .poll h.key ∉ e.held) :
    (stop h).Meets s Wanes (fun _ _ _ => True) e := by
  unfold stop
  split
  · exact ⟨wanes_halted h e, trivial⟩
  · exact Meets.acquire hheld fun ns e₁ _ =>
      ⟨wanes_halted h _, wanes_of_core rfl rfl rfl, trivial⟩
  · refine Meets.look (Meets.change (wanes_cancelLoops h e) (Meets.bind (Meets.mono
      (fun _ _ e' _ => ?_) (joinAll_wanes _ _))))
    exact ⟨wanes_halted h e', trivial⟩

theorem stopIds_wanes (ids : List Nat) (hc : Calm s e) (hheld : e.held = []) :
    (stopIds ids).Meets s Wanes (fun _ _ _ => True) e := by
  induction ids generalizing e with
  | nil => trivial
  | cons id rest ih =>
    refine Meets.look ?_
    cases hf : e.registry.find? id with
    | none => exact Meets.mono (fun _ _ _ _ => trivial) (ih hc hheld)
    | some h =>
      have hr := hc.sound.registered hf
      have hnot : .poll h.key ∉ e.held := by
        rw [hheld]
        exact List.not_mem_nil
      have hstop := stop_meets (T := fun _ => True) hc (hc.sound.sole hr) (hc.sound.proper.made hf)
        trivial hnot
      refine Meets.bind (Meets.mono (fun _ _ e₁ hq => ?_) (Meets.weaken (fun _ _ h => h.2)
        (Meets.and hstop (stop_wanes hnot))))
      obtain ⟨⟨-, hh, hc₁⟩, -⟩ := hq
      exact Meets.mono (fun _ _ _ _ => trivial) (ih hc₁ (hh.beside.held.trans hheld))

/-- A shutdown begins nothing: in particular it undoes no transaction. -/
theorem shutdown_wanes (hr : Rest s e) : shutdown.Meets s Wanes (fun _ _ _ => True) e := by
  unfold shutdown
  refine lock_meets hr fun {ns x} _ l => Meets.change (wanes_of_core rfl rfl rfl)
    (Meets.change (wanes_of_core rfl rfl rfl) (Meets.look (Meets.bind (Meets.mono
      (fun _ _ e₁ _ => ?_) (stopIds_wanes _ ?_ ?_)))))
  · refine ⟨⟨fun hr => ?_, id, rfl⟩, trivial⟩
    cases hr
  · exact l.calm.of_same rfl rfl rfl rfl rfl rfl
  · simp [free, l.held]

end Engine

/-! ## Single calls -/

/-- What an accepted transaction leaves pending. -/
theorem Engine.Answered.pending_of_ok {s : Setup} {txn : Nat} {cs : List Change} {e e' : Engine}
    {ns : List Note} (hs : Engine.Sound s e) (ha : Engine.Answered s txn cs e ns e' (.ok ())) :
    Acceptable s e cs ∧ Accepted s txn cs e ns e' ∧
      ∃ applied, e'.pending = some ⟨txn, applied, e'.now + s.revertTimeout⟩ ∧
        Ledger e'.handles e'.registry applied e.registry := by
  have haccepted := ha.accepted_of_ok hs
  cases ha with
  | accepted plan performed advanced fresh read pending due =>
    rw [due] at pending
    exact ⟨(Engine.acceptable_iff hs).2 ⟨_, plan, fresh⟩, haccepted, _, pending, advanced.ledger⟩

open Engine (Wanes)

variable {s : Setup}

/-- What a call makes of the pending transaction. -/
inductive Entry.Leads (s : Setup) (x : Entry) : Option Pending → Option Pending → Prop where
  /-- All changes were made, and can be undone. -/
  | accepted {txn : Nat} {cs : List Change} {applied : List Applied}
    (call : x.call = .phase (.change txn cs)) (answer : x.answer = .ok ())
    (acceptable : Acceptable s x.before cs) (accepted : Accepted s txn cs x.before x.notes x.after)
    (ledger : Ledger x.after.handles x.after.registry applied x.before.registry) :
    Leads s x none (some ⟨txn, applied, x.after.now + s.revertTimeout⟩)
  | rejected {txn : Nat} {cs : List Change} {err : Error}
    (call : x.call = .phase (.change txn cs)) (answer : x.answer = .error err)
    (registry : x.after.registry = x.before.registry) : Leads s x none none
  /-- Nothing is pending that could end. -/
  | vain (call : (∃ txn, x.call = .phase (.done txn) ∨ x.call = .phase (.abort txn)) ∨
      x.call = .expire) (answer : x.answer = .ok ())
    (unmoved : Unmoved x.before x.notes x.after) : Leads s x none none
  | polled {id : Nat} {p : Option Pending} (call : x.call = .poll id)
    (core : x.after.core = x.before.core) : Leads s x p p
  | refused {p : Pending} {txn : Nat} {cs : List Change}
    (call : x.call = .phase (.change txn cs))
    (answer : x.answer = .error (.transactionPending txn p.txn))
    (unmoved : Unmoved x.before x.notes x.after) : Leads s x (some p) (some p)
  /-- Another transaction is meant. -/
  | foreign {p : Pending} {txn : Nat}
    (call : x.call = .phase (.done txn) ∨ x.call = .phase (.abort txn)) (other : txn ≠ p.txn)
    (answer : x.answer = .ok ()) (unmoved : Unmoved x.before x.notes x.after) :
    Leads s x (some p) (some p)
  /-- It still has time. -/
  | early {p : Pending} (call : x.call = .expire) (early : x.after.now < p.deadline)
    (answer : x.answer = .ok ()) (unmoved : Unmoved x.before x.notes x.after) :
    Leads s x (some p) (some p)
  /-- It is done: what it did stays. -/
  | kept {p : Pending} (call : x.call = .phase (.done p.txn)) (answer : x.answer = .ok ())
    (dismissed : Dismissed x.before x.notes x.after) : Leads s x (some p) none
  /-- It is aborted or out of time: what it did is undone. -/
  | undone {p : Pending} {g : Registry Handle}
    (call : x.call = .phase (.abort p.txn) ∨ x.call = .expire ∧ p.deadline ≤ x.after.now)
    (answer : x.answer = .ok ())
    (ledger : Ledger x.before.handles x.before.registry p.applied g)
    (undone : Undone s p g x.notes x.after) : Leads s x (some p) none
  /-- It is dropped with everything else, and not undone. -/
  | dropped {p : Option Pending} (call : x.call = .stop)
    (wanes : ∀ {y z}, .wrote y z ∈ x.notes → Wanes y z)
    (registry : x.after.registry = .empty) : Leads s x p none

namespace Entry

variable {x : Entry}

/-- The transaction was pending before the call and after it. -/
def Holds (x : Entry) (p : Pending) : Prop := x.before.pending = some p ∧ x.after.pending = some p

/-- The transaction is pending since the call. -/
def Accepts (x : Entry) (p : Pending) : Prop := x.before.pending = none ∧ x.after.pending = some p

theorem leads_change (made : x.Made s) (hr : Rest s x.before) {txn : Nat} {cs : List Change}
    (call : x.call = .phase (.change txn cs)) :
    x.Leads s x.before.pending x.after.pending := by
  obtain ⟨c, e, ns, r, e'⟩ := x
  cases call
  change Entry.Leads s _ e.pending e'.pending
  cases hp : e.pending with
  | some p =>
    obtain ⟨-, herr, hu, -⟩ := Meets.course made
      (Engine.change_pending_unmoved (T := fun _ => True) hr hp)
    rw [hu.pending, hp]
    exact .refused rfl herr hu
  | none =>
    obtain ⟨-, hanswered, -⟩ := Meets.course made (Engine.change_meets hr hp)
    cases r with
    | ok u =>
      obtain ⟨hacceptable, haccepted, applied, pending, hledger⟩ :=
        hanswered.pending_of_ok hr.sound
      rw [pending]
      exact .accepted rfl rfl hacceptable haccepted hledger
    | error err =>
      cases hanswered with
      | refused registry pending =>
        rw [pending]
        exact .rejected rfl rfl registry

/-- A call for a transaction that is not pending. -/
theorem leads_of_other {txn : Nat}
    (call : x.call = .phase (.done txn) ∨ x.call = .phase (.abort txn))
    (hother : ∀ p, x.before.pending = some p → p.txn ≠ txn) (answer : x.answer = .ok ())
    (unmoved : Unmoved x.before x.notes x.after) : x.Leads s x.before.pending x.after.pending := by
  rw [unmoved.pending]
  cases hp : x.before.pending with
  | none => exact .vain (.inl ⟨txn, call⟩) answer unmoved
  | some p => exact .foreign call (hother p hp).symm answer unmoved

theorem leads_done (made : x.Made s) (hr : Rest s x.before) {txn : Nat}
    (call : x.call = .phase (.done txn)) : x.Leads s x.before.pending x.after.pending := by
  obtain ⟨c, e, ns, r, e'⟩ := x
  cases call
  change Entry.Leads s _ e.pending e'.pending
  by_cases hp : ∃ p, e.pending = some p ∧ p.txn = txn
  · obtain ⟨p, hp, rfl⟩ := hp
    obtain ⟨-, hok, hd, -⟩ := Meets.course made
      (Engine.done_own_meets (T := fun _ => True) hr hp)
    rw [hd.pending, hp]
    exact .kept rfl hok hd
  · have hother (p : Pending) (hp' : e.pending = some p) : p.txn ≠ txn :=
      fun htxn => hp ⟨p, hp', htxn⟩
    obtain ⟨-, hok, hu, -⟩ := Meets.course made
      (Engine.done_other_unmoved (T := fun _ => True) hr hother)
    exact leads_of_other (.inl rfl) hother hok hu

theorem leads_abort (made : x.Made s) (hr : Rest s x.before) {txn : Nat}
    (call : x.call = .phase (.abort txn)) : x.Leads s x.before.pending x.after.pending := by
  obtain ⟨c, e, ns, r, e'⟩ := x
  cases call
  change Entry.Leads s _ e.pending e'.pending
  by_cases hp : ∃ p, e.pending = some p ∧ p.txn = txn
  · obtain ⟨p, hp, rfl⟩ := hp
    obtain ⟨g, hL⟩ := hr.undoable p hp
    obtain ⟨-, hok, hundone, -⟩ := Meets.course made (Engine.abort_meets hr hp hL)
    rw [hundone.pending, hp]
    exact .undone (.inl rfl) hok hL hundone
  · have hother (p : Pending) (hp' : e.pending = some p) : p.txn ≠ txn :=
      fun htxn => hp ⟨p, hp', htxn⟩
    obtain ⟨-, hok, hu, -⟩ := Meets.course made
      (Engine.abort_other_unmoved (T := fun _ => True) hr hother)
    exact leads_of_other (.inr rfl) hother hok hu

theorem leads_expire (made : x.Made s) (hr : Rest s x.before) (call : x.call = .expire) :
    x.Leads s x.before.pending x.after.pending := by
  obtain ⟨c, e, ns, r, e'⟩ := x
  cases call
  change Entry.Leads s _ e.pending e'.pending
  obtain ⟨-, hok, -, ⟨hu, hearly⟩ | ⟨p, hp, hdue, hundone⟩⟩ :=
    Meets.course made (Engine.answering_meets (Engine.expire_unmoved_or_undone hr))
  · rw [hu.pending]
    cases hp : e.pending with
    | none => exact .vain (.inr rfl) hok hu
    | some p => exact .early rfl (hearly p hp) hok hu
  · obtain ⟨g, hL⟩ := hr.undoable p hp
    rw [(hundone g hL).pending, hp]
    exact .undone (.inr ⟨rfl, hdue⟩) hok hL (hundone g hL)

/-- Every call on an engine at rest is one of these. -/
theorem Made.leads (made : x.Made s) (hr : Rest s x.before) :
    x.Leads s x.before.pending x.after.pending := by
  cases hcall : x.call with
  | phase p =>
    cases p with
    | change txn cs => exact leads_change made hr hcall
    | done txn => exact leads_done made hr hcall
    | abort txn => exact leads_abort made hr hcall
  | expire => exact leads_expire made hr hcall
  | poll id =>
    rw [Made, hcall] at made
    obtain ⟨-, hcore, -⟩ := Meets.course made (Engine.pollId_meets hr id)
    rw [show x.after.pending = x.before.pending from congrArg Engine.Core.pending hcore]
    exact .polled hcall hcore
  | stop =>
    rw [Made, hcall] at made
    obtain ⟨-, -, -, hreg, hp, -⟩ :=
      Meets.course made (Engine.answering_meets (Engine.shutdown_meets hr))
    obtain ⟨hwanes, -⟩ := Meets.course made (Engine.answering_meets (Engine.shutdown_wanes hr))
    rw [hp]
    exact .dropped hcall (hwanes _ _) hreg

/-- What is pending after a call was so before it, or was accepted by it. -/
theorem Leads.holds_or_accepts {p : Pending} (hl : x.Leads s x.before.pending x.after.pending)
    (hp : x.after.pending = some p) : x.Holds p ∨ x.Accepts p := by
  generalize hb : x.before.pending = b at hl
  rw [hp] at hl
  generalize ha : some p = a at hl
  cases hl with
  | accepted => exact .inr ⟨hb, hp⟩
  | polled => exact .inl ⟨hb.trans ha.symm, hp⟩
  | refused | foreign | early =>
    cases ha
    exact .inl ⟨hb, hp⟩
  | rejected | vain | kept | undone | dropped => cases ha

end Entry

/-! ## Histories -/

namespace History

variable {e e' : Engine} {log : List Entry} {p : Pending}

/-- Whatever is to be said of single calls can be said of every call of a history. -/
theorem rest_before (h : History s e log e') (hr : Rest s e) {x : Entry} (hx : x ∈ log) :
    Rest s x.before ∧ x.Made s := by
  obtain ⟨front, back, rfl⟩ := List.append_of_mem hx
  obtain ⟨before, made, -⟩ := h.split
  exact ⟨before.rest hr, made⟩

/-- What is pending was pending all the time, or one of the calls accepted it and no call since has
ended it. -/
theorem accepted_before (h : History s e log e') (hr : Rest s e) (hp : e'.pending = some p) :
    (e.pending = some p ∧ ∀ x ∈ log, x.Holds p) ∨
      ∃ front x back, log = front ++ x :: back ∧ x.Accepts p ∧ ∀ y ∈ back, y.Holds p := by
  induction h with
  | here => exact .inl ⟨hp, fun _ hx => by cases hx⟩
  | stir st _ ih =>
    have hpending := congrArg Engine.Core.pending st.core
    refine (ih (hr.of_core (st.sound hr.sound) st.core) hp).imp_left fun ⟨hp₁, hall⟩ => ?_
    exact ⟨hpending.symm.trans hp₁, hall⟩
  | @call x e' log made _ ih =>
    rcases ih (made.rest hr) hp with ⟨hp₁, hall⟩ | ⟨front, y, back, rfl, haccepts, hall⟩
    · rcases (Entry.Made.leads made hr).holds_or_accepts hp₁ with hholds | haccepts
      · exact .inl ⟨hholds.1, List.forall_mem_cons.2 ⟨hholds, hall⟩⟩
      · exact .inr ⟨[], x, log, rfl, haccepts, hall⟩
    · exact .inr ⟨x :: front, y, back, rfl, haccepts, hall⟩

end History

/-- In every history of a fresh engine each call leads what is pending where it may. Whatever is
pending when a call is made was accepted by an earlier call and has not been ended by any call since,
and once nothing is pending, what is pending later was accepted later. So a transaction that was
accepted ends at most once, and what it did is undone at most once and never after it was done. -/
theorem pending_ends_once {d : Datastore Event} {e : Engine} {log : List Entry}
    (h : History s (.fresh d) log e) :
    (∀ x ∈ log, x.Leads s x.before.pending x.after.pending) ∧
      (∀ {front x back p}, log = front ++ x :: back → x.before.pending = some p →
        ∃ earlier y since, front = earlier ++ y :: since ∧ y.Accepts p ∧
          ∀ z ∈ since, z.Holds p) ∧
      ∀ {front x between y back p}, log = front ++ x :: (between ++ y :: back) →
        x.after.pending = none → y.before.pending = some p → ∃ z ∈ between, z.Accepts p := by
  have hr := Engine.rest_fresh s d
  refine ⟨fun x hx => ?_, fun {front x back p} hlog hp => ?_,
    fun {front x between y back p} hlog hnone hp => ?_⟩
  · obtain ⟨hrx, made⟩ := h.rest_before hr hx
    exact made.leads hrx
  · rw [hlog] at h
    obtain ⟨before, -, -⟩ := h.split
    rcases before.accepted_before hr hp with ⟨hfresh, -⟩ | haccepted
    · cases hfresh
    · exact haccepted
  · rw [hlog] at h
    obtain ⟨before, made, after⟩ := h.split
    obtain ⟨meanwhile, -, -⟩ := after.split
    rcases meanwhile.accepted_before (made.rest (before.rest hr)) hp with
      ⟨hpending, -⟩ | ⟨earlier, z, since, rfl, haccepts, -⟩
    · rw [hnone] at hpending
      cases hpending
    · exact ⟨z, List.mem_append_right _ List.mem_cons_self, haccepts⟩

namespace Small

/-- While one transaction is pending another is refused, and an expiry is too early. The first one
is done, and aborting it then is in vain. -/
theorem small_transaction_kept : ∃ log e, History setup engine log e ∧
    log.map (·.call) = [.phase (.change 7 [creation]), .phase (.change 8 [deletion]),
      .expire, .phase (.done 7), .phase (.abort 7)] ∧
    log.map (·.answer) = [.ok (), .error (.transactionPending 8 7), .ok (), .ok (), .ok ()] ∧
    (∀ x ∈ log, x.Leads setup x.before.pending x.after.pending) ∧
    e.registry.find? 1 = some ⟨0, request⟩ := by
  obtain ⟨log, h, hcalls, hanswers⟩ := History.of_calls reachable.good.rest
    [.phase (.change 7 [creation]), .phase (.change 8 [deletion]), .expire,
      .phase (.done 7), .phase (.abort 7)]
  exact ⟨log, _, h, hcalls, hanswers.trans (by decide +kernel), (pending_ends_once h).1,
    by decide +kernel⟩

end Small

end Telemetry
