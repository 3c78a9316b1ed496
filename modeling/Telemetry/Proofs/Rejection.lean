import Telemetry.Proofs.System

/-!
# Rejections

A list of changes can be wrong by itself or given what is registered. What is wrong with one of its
changes (`Engine.Faulty`), and that a transaction is pending, is found out before anything is done:
the call is `Engine.Unmoved`. That an id occurs twice is found out only by the registry, when
the first of the two changes was made; that change is then undone, but not unnoticed.

* `Engine.not_acceptable_iff`: what can be wrong with a list of changes.
* `Engine.rejection_by_content`: what every rejection of such a list comes to.
* `Small.duplicate_creation_noticed`: that an id that is created twice does not go unnoticed.
-/
namespace Telemetry

namespace Engine

open Work (Meets)

variable {s : Setup} {txn : Nat} {cs : List Change} {e : Engine}

/-- One of the changes cannot be planned. -/
inductive Faulty (s : Setup) (e : Engine) (cs : List Change) : Prop where
  | unroutable {c : Change} (mem : c ∈ cs) (homeless : ¬c.Routable s.moduleName cs)
  | registered {c : Change} {id : Nat} {h : Handle} (mem : c ∈ cs)
    (creates : c.Creates s.moduleName id) (found : e.registry.find? id = some h)
  | dataless {c : Change} {id : Nat} (mem : c ∈ cs) (creates : c.Creates s.moduleName id)
    (value : c.value = none)
  | malformed {c : Change} {id : Nat} {payload : Json} {err : Error} (mem : c ∈ cs)
    (creates : c.Creates s.moduleName id) (value : c.value = some payload)
    (parsed : Request.parse id payload s.leastInterval = .error err)
  | invalid {c : Change} {id : Nat} {payload : Json} {r : Request} {err : Error} (mem : c ∈ cs)
    (creates : c.Creates s.moduleName id) (value : c.value = some payload)
    (parsed : Request.parse id payload s.leastInterval = .ok r)
    (refuted : r.validate s.schema s.leastInterval = .error err)
  | unknown {c : Change} {id : Nat} (mem : c ∈ cs) (deletes : c.Deletes s.moduleName id)
    (absent : e.registry.find? id = none)

theorem Faulty.no_plan (hf : Faulty s e cs) {ps : List Planned} :
    planChanges s e cs ≠ .ok ps := by
  intro hplan
  obtain ⟨hroutable, hplans⟩ := planChanges_eq_ok.1 hplan
  have hplanned (c : Change) (hc : c ∈ cs) := exists_planOf.1 (exists_forall₂.1 ⟨ps, hplans⟩ c hc)
  cases hf with
  | unroutable mem homeless => exact homeless (hroutable _ mem)
  | registered mem creates found =>
    obtain ⟨absent, -⟩ := (hplanned _ mem).1 _ creates
    rw [found] at absent
    cases absent
  | dataless mem creates value =>
    obtain ⟨-, payload, -, hvalue, -⟩ := (hplanned _ mem).1 _ creates
    rw [value] at hvalue
    cases hvalue
  | malformed mem creates value parsed =>
    obtain ⟨-, payload, r, hvalue, hparsed, -⟩ := (hplanned _ mem).1 _ creates
    cases value.symm.trans hvalue
    cases parsed.symm.trans hparsed
  | invalid mem creates value parsed refuted =>
    obtain ⟨-, payload, r, hvalue, hparsed, hvalid⟩ := (hplanned _ mem).1 _ creates
    cases value.symm.trans hvalue
    cases parsed.symm.trans hparsed
    cases refuted.symm.trans hvalid
  | unknown mem deletes absent =>
    obtain ⟨h, found⟩ := (hplanned _ mem).2 _ deletes
    rw [absent] at found
    cases found

/-- Changes without a fault of their own have a plan. -/
theorem acceptable_of_faultless (hf : ¬Faulty s e cs)
    (hcreated : (Change.created s.moduleName cs).Nodup)
    (hdeleted : (Change.deleted s.moduleName cs).Nodup) : Acceptable s e cs where
  routable c hc := by
    by_contra homeless
    exact hf (.unroutable hc homeless)
  creatable c hc id creates := by
    refine ⟨?_, ?_⟩
    · cases found : e.registry.find? id with
      | none => rfl
      | some h => exact absurd (.registered hc creates found) hf
    · cases value : c.value with
      | none => exact absurd (.dataless hc creates value) hf
      | some payload =>
        cases parsed : Request.parse id payload s.leastInterval with
        | error err => exact absurd (.malformed hc creates value parsed) hf
        | ok r =>
          cases hvalid : r.validate s.schema s.leastInterval with
          | error err => exact absurd (.invalid hc creates value parsed hvalid) hf
          | ok u => exact ⟨payload, r, rfl, parsed, hvalid⟩
  deletable c hc id deletes := by
    cases absent : e.registry.find? id with
    | none => exact absurd (.unknown hc deletes absent) hf
    | some h => exact ⟨h, rfl⟩
  createdOnce := hcreated
  deletedOnce := hdeleted

/-- What can be wrong with a list of changes: one of them has a fault, or an id occurs twice. -/
theorem not_acceptable_iff (hs : Sound s e) : ¬Acceptable s e cs ↔ Faulty s e cs ∨
    ¬(Change.created s.moduleName cs).Nodup ∨ ¬(Change.deleted s.moduleName cs).Nodup := by
  constructor
  · intro hnot
    by_contra hnone
    rw [not_or, not_or, not_not, not_not] at hnone
    exact hnot (acceptable_of_faultless hnone.1 hnone.2.1 hnone.2.2)
  · rintro (hf | hc | hd) ha
    · obtain ⟨ps, hplan, -⟩ := (acceptable_iff hs).1 ha
      exact hf.no_plan hplan
    · exact hc ha.createdOnce
    · exact hd ha.deletedOnce

/-- A fault is found out before anything is done, and so is that a transaction is pending. -/
theorem faulty_unmoved {T : Handle → Prop} (hr : Rest s e)
    (hbad : e.pending ≠ none ∨ Faulty s e cs) :
    (handle s (.change txn cs)).Meets s (Effect s T) (fun ns r e' =>
      (∃ err, r = .error err) ∧ Unmoved e ns e' ∧ Rest s e') e := by
  cases hp : e.pending with
  | some p =>
    exact Meets.mono (fun _ _ _ hq => ⟨⟨_, hq.1⟩, hq.2⟩) (change_pending_unmoved hr hp)
  | none =>
    have hf : Faulty s e cs := hbad.resolve_left fun hno => hno hp
    cases hplan : planChanges s e cs with
    | ok ps => exact absurd hplan hf.no_plan
    | error err =>
      exact Meets.mono (fun _ _ _ hq => ⟨⟨_, hq.1⟩, hq.2⟩) (change_planless_unmoved hr hp hplan)

/-- An announcement does not touch requests that it does not name. -/
theorem Performs.untouched {ns : List Note} {r : Except Error Unit} {e' : Engine} {h : Handle}
    (hperf : Performs s (.phase (.change txn cs)) e ns r e') (hr : Rest s e)
    (hreg : e.Registered h) (hnot : ¬Named s cs h) : Untouched h ns e e' := by
  have hno (h' : Handle) (hnamed : Named s cs h') : h'.id ≠ h.id := by
    intro hid
    rw [Named, hid] at hnamed
    exact hnot hnamed
  have untouched {Q : List Note → Except Error Unit → Engine → Prop}
      (hmeets : ((Call.phase (.change txn cs)).work s).Meets s (Effect s (Named s cs)) Q e) :
      Untouched h ns e e' :=
    (Meets.course hperf (untouched_meets hr.toCalm hreg hno hmeets)).2.2
  cases hp : e.pending with
  | some p => exact untouched (change_pending_unmoved hr hp)
  | none => exact untouched (change_meets hr hp)

/-- A list of changes that is not acceptable is rejected, whatever happens meanwhile. What is
registered and what is pending are what they were, and requests that it does not name are not
touched. If one of the changes has a fault, whether or not an id occurs twice besides, or if a
transaction is pending, the call changes nothing on the way either. -/
theorem rejection_by_content (hx : System.Reachable s ⟨e, none⟩) (hbad : ¬Acceptable s e cs)
    (txn : Nat) :
    Returns s (.phase (.change txn cs)) e ∧
      ∀ {ns r e'}, Performs s (.phase (.change txn cs)) e ns r e' →
        (∃ err, r = .error err) ∧ e'.registry = e.registry ∧ e'.pending = e.pending ∧
        (e.pending ≠ none ∨ Faulty s e cs → Unmoved e ns e') ∧
        ∀ h, e.Registered h → ¬Named s cs h → Untouched h ns e e' := by
  have hr := hx.good.rest
  refine ⟨hr.returns _, fun {ns r e'} hperf => ?_⟩
  have huntouched (h : Handle) : e.Registered h → ¬Named s cs h → Untouched h ns e e' :=
    hperf.untouched hr
  by_cases hplain : e.pending ≠ none ∨ Faulty s e cs
  · obtain ⟨-, herr, hu, -⟩ :=
      Meets.course hperf (faulty_unmoved (T := fun _ => True) hr hplain)
    exact ⟨herr, hu.registry, hu.pending, fun _ => hu, huntouched⟩
  · rw [not_or, ne_eq, not_not] at hplain
    obtain ⟨-, hanswered, -⟩ := Meets.course hperf (change_meets hr hplain.1)
    cases hanswered with
    | accepted plan performed advanced fresh =>
      exact absurd ((acceptable_iff hr.sound).2 ⟨_, plan, fresh⟩) hbad
    | refused registry pending =>
      refine ⟨⟨_, rfl⟩, registry, pending.trans hplain.1.symm, fun hor => ?_, huntouched⟩
      exact absurd hor (not_or.2 ⟨fun hp => hp hplain.1, hplain.2⟩)

end Engine

/-! ## On a small engine -/

namespace Small

open Engine (Performs Unmoved Acceptable Faulty rejection_by_content)

/-- Deleting what is not there is rejected, and nothing is changed on the way. -/
theorem unknown_deletion_unmoved : ∃ ns err e',
    Performs setup (.phase (.change 7 [deletion])) engine ns (.error err) e' ∧
      Unmoved engine ns e' := by
  have hfaulty : Faulty setup engine [deletion] :=
    .unknown List.mem_cons_self (Change.deleted?_eq_some.1 (by decide +kernel : _ = some 1))
      (by decide +kernel)
  have hbad : ¬Acceptable setup engine [deletion] :=
    (Engine.not_acceptable_iff reachable.good.sound).2 (.inl hfaulty)
  obtain ⟨hreturns, hall⟩ := rejection_by_content reachable hbad 7
  obtain ⟨ns, r, e', hperf⟩ := hreturns (.refl _ _)
  obtain ⟨⟨err, rfl⟩, -, -, hunmoved, -⟩ := hall hperf
  exact ⟨ns, err, e', hperf, hunmoved (.inr hfaulty)⟩

/-- An id that is created twice in one list is found out when the first request was registered and
started: its snapshot has been sent by then. -/
theorem duplicate_creation_noticed : ∃ ns e',
    Performs setup (.phase (.change 7 [creation, creation])) engine ns
        (.error (.requestRegistered 1)) e' ∧
      ¬(Change.created setup.moduleName [creation, creation]).Nodup ∧
      engine.datastore.sent = [] ∧
      e'.datastore.sent.map (·.event) = [.update 1 5 "/m:c/x" "3", .sync 1] ∧
      ¬Unmoved engine ns e' := by
  obtain ⟨ns, hperf⟩ := reachable.good.rest.performs (.phase (.change 7 [creation, creation]))
  have herr : ((Engine.Call.phase (.change 7 [creation, creation])).work setup |>.run setup
      engine).2 = .error (.requestRegistered 1) := by decide +kernel
  rw [herr] at hperf
  refine ⟨ns, _, hperf, by decide +kernel, rfl, by decide +kernel, fun hu => ?_⟩
  -- two requests were made on the way
  have hhandles := congrArg Engine.Core.handles hu.core
  revert hhandles
  decide +kernel

end Small

end Telemetry
