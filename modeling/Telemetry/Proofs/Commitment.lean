import Telemetry.Proofs.Settlement

/-!
# Agreement on commits

Who announced a transaction and was told that it was accepted says in the end that it is done, and is
always told that this is fine. Whether the transaction was kept depends on what came first: the
message, or an expiry once its time was up. Nothing else that happens in between matters, and neither
side is left with half of it.

* `History.held_or_expired`: a transaction that nobody ends is pending, or the first expiry after its
  time was up has undone it.
* `commit_agreement`: the statement.
* `Small.late_done_unheeded`: that the message can come too late and be answered as if it had not.
-/
namespace Telemetry

open Engine (Call Rest Ledger Unmoved Accepted Acceptable Registered Restored Vacant Performs Returns)
open Work (Meets)

variable {s : Setup} {e e' : Engine} {log : List Entry} {txn : Nat} {cs : List Change}

/-- A transaction was kept: what it created is there and runs, and what it deleted is not there. -/
structure Engine.Committed (s : Setup) (cs : List Change) (e₀ e : Engine) : Prop where
  ids : (Change.requests s cs).map (·.id) = Change.created s.moduleName cs
  created : ∀ r ∈ Change.requests s cs, ∃ h, h.request = r ∧ e.Registered h ∧ e.status h = .running
  deleted : ∀ id ∈ Change.deleted s.moduleName cs, e.registry.find? id = none
  others : ∀ id, id ∉ Change.created s.moduleName cs → id ∉ Change.deleted s.moduleName cs →
    e.registry.find? id = e₀.registry.find? id
  settled : e.pending = none

theorem Engine.Accepted.committed {e₀ : Engine} {ns : List Note}
    (ha : Accepted s txn cs e₀ ns e) (hreg : e'.registry = e.registry) (hlives : e'.lives = e.lives)
    (settled : e'.pending = none) : Engine.Committed s cs e₀ e' where
  ids := ha.ids
  created r hr := by
    obtain ⟨h, hrequest, -, hregistered, hrun⟩ := ha.created r hr
    refine ⟨h, hrequest, ?_, ?_⟩
    · rw [Registered, hreg]
      exact hregistered
    · rw [← hrun, Engine.status, Engine.status, Engine.life, Engine.life, hlives]
  deleted id hid := by
    rw [hreg]
    exact ha.deleted id hid
  others id hc hd := by
    rw [hreg]
    exact ha.others id hc hd
  settled := settled

/-- An announcement that is answered well was accepted. -/
theorem Engine.Performs.accepted {ns : List Note}
    (hperf : Performs s (.phase (.change txn cs)) e ns (.ok ()) e') (hr : Rest s e) :
    Acceptable s e cs ∧ Accepted s txn cs e ns e' ∧
      ∃ applied, e'.pending = some ⟨txn, applied, e'.now + s.revertTimeout⟩ ∧
        Ledger e'.handles e'.registry applied e.registry := by
  cases hp : e.pending with
  | some p =>
    obtain ⟨-, herr, -⟩ := Meets.course hperf
      (Engine.change_pending_meets (T := fun _ => True) hr hp)
    cases herr
  | none => exact (Meets.course hperf (Engine.change_meets hr hp)).2.1.pending_of_ok hr.sound

/-- The call is an expiry, the time of the transaction was up, and what it did was undone. The engine
is the one in which the transaction was pending. -/
structure Entry.Expires (x : Entry) (p : Pending) (e : Engine) : Prop where
  call : x.call = .expire
  due : p.deadline ≤ x.after.now
  settled : x.after.pending = none
  undone : ∀ g, Ledger e.handles e.registry p.applied g → x.after.registry = g

theorem Entry.Expires.of_core {x : Entry} {p : Pending} {e e₁ : Engine} (hx : x.Expires p e₁)
    (hcore : e₁.core = e.core) : x.Expires p e where
  call := hx.call
  due := hx.due
  settled := hx.settled
  undone g hg := by
    have hhandles : e₁.handles = e.handles := congrArg Engine.Core.handles hcore
    have hregistry : e₁.registry = e.registry := congrArg Engine.Core.registry hcore
    rw [← hhandles, ← hregistry] at hg
    exact hx.undone g hg

namespace History

/-- A pending transaction that is not done, aborted or dropped is pending still, and nothing that
calls decide upon has changed; or it was undone by the first expiry after its time was up. -/
theorem held_or_expired {p : Pending} (h : History s e log e') (hr : Rest s e)
    (hp : e.pending = some p) (hcalls : ∀ x ∈ log, x.call ≠ .stop ∧ x.call ≠ .phase (.abort p.txn) ∧
      x.call ≠ .phase (.done p.txn)) :
    (e'.core = e.core ∧ ∀ x ∈ log, x.call = .expire → x.after.now < p.deadline) ∨
      ∃ front x back, log = front ++ x :: back ∧ x.Expires p e ∧
        ∀ y ∈ front, y.call = .expire → y.after.now < p.deadline := by
  induction h with
  | here => exact .inl ⟨rfl, fun _ hx => by cases hx⟩
  | stir st _ ih =>
    have hcore := st.core
    rcases ih (hr.of_core (st.sound hr.sound) hcore)
      ((congrArg Engine.Core.pending hcore).trans hp) hcalls with
      ⟨hcore', hearly⟩ | ⟨front, x, back, hlog, hx, hfirst⟩
    · exact .inl ⟨hcore'.trans hcore, hearly⟩
    · exact .inr ⟨front, x, back, hlog, hx.of_core hcore, hfirst⟩
  | @call x e' log made _ ih =>
    obtain ⟨hcall, hcalls⟩ := List.forall_mem_cons.1 hcalls
    -- a call that does not end it leaves it to the rest of the calls
    have held (hcore : x.after.core = x.before.core)
        (hearly : x.call = .expire → x.after.now < p.deadline) :
        (e'.core = x.before.core ∧ ∀ y ∈ x :: log, y.call = .expire → y.after.now < p.deadline) ∨
          ∃ front y back, x :: log = front ++ y :: back ∧ y.Expires p x.before ∧
            ∀ z ∈ front, z.call = .expire → z.after.now < p.deadline := by
      rcases ih (made.rest hr) ((congrArg Engine.Core.pending hcore).trans hp) hcalls with
        ⟨hcore', hall⟩ | ⟨front, y, back, rfl, hy, hfirst⟩
      · exact .inl ⟨hcore'.trans hcore, List.forall_mem_cons.2 ⟨hearly, hall⟩⟩
      · exact .inr ⟨x :: front, y, back, rfl, hy.of_core hcore,
          List.forall_mem_cons.2 ⟨hearly, hfirst⟩⟩
    have hl := Entry.Made.leads made hr
    rw [hp] at hl
    generalize ha : x.after.pending = a at hl
    cases hl with
    | polled call core => exact held core fun hexpire => by cases call.symm.trans hexpire
    | refused call _ unmoved =>
      exact held unmoved.core fun hexpire => by cases call.symm.trans hexpire
    | foreign call _ _ unmoved =>
      refine held unmoved.core fun hexpire => ?_
      rcases call with hdone | habort
      · cases hdone.symm.trans hexpire
      · cases habort.symm.trans hexpire
    | early _ early _ unmoved => exact held unmoved.core fun _ => early
    | kept call => exact absurd call hcall.2.2
    | undone call _ ledger undone =>
      obtain ⟨hexpire, hdue⟩ := call.resolve_left hcall.2.1
      refine .inr ⟨[], x, log, rfl, ⟨hexpire, hdue, ha, fun g hg => ?_⟩,
        fun _ hy => absurd hy List.not_mem_nil⟩
      rw [undone.registry, ledger.unique hg]
    | dropped call => exact absurd call hcall.1

/-- A transaction that is not announced does not come to be pending. -/
theorem other_pending (h : History s e log e') (hr : Rest s e)
    (hother : ∀ p, e.pending = some p → p.txn ≠ txn)
    (hcalls : ∀ x ∈ log, ∀ cs, x.call ≠ .phase (.change txn cs)) :
    ∀ p, e'.pending = some p → p.txn ≠ txn := by
  intro p hp
  rcases h.accepted_before hr hp with ⟨hp₀, -⟩ | ⟨front, x, back, rfl, ⟨hnone, hsome⟩, -⟩
  · exact hother p hp₀
  · have hx : x ∈ front ++ x :: back := List.mem_append_right _ List.mem_cons_self
    obtain ⟨hrx, made⟩ := h.rest_before hr hx
    have hl := made.leads hrx
    rw [hnone, hsome] at hl
    cases hl with
    | accepted call =>
      rintro rfl
      exact hcalls x hx _ call

end History

/-- A transaction is announced and accepted, and after a while it is said to be done for the first
time. Meanwhile it is not aborted or announced again, and there is no shutdown. The answer is then
always that this is fine. If no expiry came when the time was up, the transaction was kept; so it was
if its time is not up when it is said to be done. If one did, the transaction was undone by the first
that did, and saying that it is done changes nothing. -/
theorem commit_agreement {e₀ e₁ e₂ : Engine} {ns₁ : List Note}
    (hx : System.Reachable s ⟨e₀, none⟩)
    (accepted : Performs s (.phase (.change txn cs)) e₀ ns₁ (.ok ()) e₁)
    (meanwhile : History s e₁ log e₂)
    (undisturbed : ∀ x ∈ log, x.call ≠ .stop ∧ x.call ≠ .phase (.abort txn) ∧
      x.call ≠ .phase (.done txn) ∧ ∀ cs', x.call ≠ .phase (.change txn cs')) :
    Returns s (.phase (.done txn)) e₂ ∧
      ∀ {ns r e₃}, Performs s (.phase (.done txn)) e₂ ns r e₃ →
        r = .ok () ∧
        ((∀ x ∈ log, x.call = .expire → x.after.now < e₁.now + s.revertTimeout) →
          Engine.Committed s cs e₀ e₃) ∧
        (e₂.now < e₁.now + s.revertTimeout → Engine.Committed s cs e₀ e₃) ∧
        ((∃ x ∈ log, x.call = .expire ∧ e₁.now + s.revertTimeout ≤ x.after.now) →
          Unmoved e₂ ns e₃ ∧ ∃ front x back, log = front ++ x :: back ∧ x.call = .expire ∧
            e₁.now + s.revertTimeout ≤ x.after.now ∧
            (∀ y ∈ front, y.call = .expire → y.after.now < e₁.now + s.revertTimeout) ∧
            Restored e₀ x.after ∧ ∀ id ∈ Change.created s.moduleName cs, Vacant x.after id) := by
  have hr₀ := hx.good.rest
  obtain ⟨acceptable, haccepted, applied, hp₁, hledger⟩ := accepted.accepted hr₀
  have hr₁ := accepted.rest hr₀
  have hr₂ := meanwhile.rest hr₁
  refine ⟨hr₂.returns _, fun {ns r e₃} hperf => ?_⟩
  obtain ⟨-, hok, -⟩ := Meets.course hperf (Engine.done_meets (T := fun _ => True) hr₂)
  have hfate := meanwhile.held_or_expired hr₁ hp₁ fun x hm =>
    ⟨(undisturbed x hm).1, (undisturbed x hm).2.1, (undisturbed x hm).2.2.1⟩
  -- as long as it is pending, saying that it is done keeps it
  have committed (hcore : e₂.core = e₁.core) : Engine.Committed s cs e₀ e₃ := by
    have hp₂ : e₂.pending = some ⟨txn, applied, e₁.now + s.revertTimeout⟩ :=
      (congrArg Engine.Core.pending hcore).trans hp₁
    obtain ⟨-, -, hd, -⟩ := Meets.course hperf (Engine.done_own_meets (T := fun _ => True) hr₂ hp₂)
    have hcore₃ : e₃.core = { e₁.core with pending := none } := hd.core.trans (by rw [hcore])
    exact haccepted.committed (congrArg Engine.Core.registry hcore₃)
      (congrArg Engine.Core.lives hcore₃) (congrArg Engine.Core.pending hcore₃)
  refine ⟨hok, fun hearly => ?_, fun hearly => ?_, fun ⟨y, hm, hexpire, hdue⟩ => ?_⟩
  · rcases hfate with ⟨hcore, -⟩ | ⟨front, x, back, rfl, expired, -⟩
    · exact committed hcore
    · exact absurd expired.due (Nat.not_le.2
        (hearly x (List.mem_append_right _ List.mem_cons_self) expired.call))
  · rcases hfate with ⟨hcore, -⟩ | ⟨front, x, back, rfl, expired, -⟩
    · exact committed hcore
    · obtain ⟨before, made, after⟩ := meanwhile.split
      have hlater := after.now (made.rest (before.rest hr₁))
      exact absurd (Nat.le_trans expired.due hlater) (Nat.not_le.2 hearly)
  · rcases hfate with ⟨-, hearly⟩ | ⟨front, x, back, rfl, expired, hfirst⟩
    · exact absurd hdue (Nat.not_le.2 (hearly y hm hexpire))
    · obtain ⟨before, made, after⟩ := meanwhile.split
      have hrx := made.rest (before.rest hr₁)
      have hrestored : Restored e₀ x.after :=
        .of_registry hrx.sound (expired.undone _ hledger) expired.settled
      refine ⟨?_, front, x, back, rfl, expired.call, expired.due, hfirst, hrestored,
        fun id hid => ?_⟩
      · have hother : ∀ p, e₂.pending = some p → p.txn ≠ txn :=
          after.other_pending hrx (fun p hp => by cases expired.settled.symm.trans hp) fun y hy =>
            (undisturbed y (List.mem_append_right _ (List.mem_cons_of_mem _ hy))).2.2.2
        exact (Meets.course hperf
          (Engine.done_other_unmoved (T := fun _ => True) hr₂ hother)).2.2.1
      · obtain ⟨c, hc, hcreated⟩ := List.mem_filterMap.1 hid
        exact hrestored.vacant
          (acceptable.creatable c hc id (Change.created?_eq_some.1 hcreated)).1

namespace Small

/-- In time: an expiry comes too early, and the request is kept. -/
theorem small_creation_committed : ∃ e₂ ns e₃,
    Performs setup (.phase (.done 7)) e₂ ns (.ok ()) e₃ ∧
      ∃ h, h.request = request ∧ e₃.Registered h ∧ e₃.status h = .running := by
  obtain ⟨ns₁, haccepted⟩ := reachable.good.rest.performs (.phase (.change 7 [creation]))
  have hok : ((Call.phase (.change 7 [creation])).work setup |>.run setup engine).2 = .ok () := by
    decide +kernel
  rw [hok] at haccepted
  obtain ⟨log, hhistory, hcalls, -⟩ :=
    History.of_calls (haccepted.rest reachable.good.rest) [.expire]
  have hexpire (x : Entry) (hx : x ∈ log) : x.call = .expire := by
    have hmem : x.call ∈ log.map (·.call) := List.mem_map_of_mem hx
    rw [hcalls] at hmem
    exact List.mem_singleton.1 hmem
  obtain ⟨hreturns, hall⟩ := commit_agreement reachable haccepted hhistory fun x hx => by
    simp [hexpire x hx]
  obtain ⟨ns, r, e₃, hperf⟩ := hreturns (.refl _ _)
  obtain ⟨rfl, -, hcommitted, -⟩ := hall hperf
  have hrequest : request ∈ Change.requests setup [creation] := by decide +kernel
  exact ⟨_, ns, e₃, hperf, (hcommitted (by decide +kernel)).created _ hrequest⟩

/-- An engine that gives transactions no time at all. -/
def hasty : Setup := { setup with revertTimeout := 0 }

/-- Too late: the transaction is accepted, its time is up, and then it is said to be done. All is
answered well, but what the transaction created is not there. -/
theorem late_done_unheeded : ∃ log e,
    System.Reachable hasty ⟨engine, none⟩ ∧ History hasty engine log e ∧
      log.map (·.call) = [.phase (.change 7 [creation]), .expire, .phase (.done 7)] ∧
      log.map (·.answer) = [.ok (), .ok (), .ok ()] ∧
      Change.created hasty.moduleName [creation] = [1] ∧ e.registry.find? 1 = none := by
  have hx : System.Reachable hasty ⟨engine, none⟩ := ⟨_, _, .here trivial⟩
  obtain ⟨log, h, hcalls, hanswers⟩ := History.of_calls hx.good.rest
    [.phase (.change 7 [creation]), .expire, .phase (.done 7)]
  exact ⟨log, _, hx, h, hcalls, hanswers.trans (by decide +kernel), by decide +kernel,
    by decide +kernel⟩

end Small

end Telemetry
