import Telemetry.Proofs.System

/-!
# A transaction takes place as a whole or not at all

Announcing a transaction to an engine that has none pending always comes to an end, whatever loops
and data do meanwhile, and there are two ways it can end. Either every change was made, which is so
exactly when the changes are `Acceptable` and every read on the way succeeded (`Accepted`), or
the engine is `Restored`. Requests that it does not name are not touched.

* `Engine.change_all_or_nothing`: the statement.
-/
namespace Telemetry.Engine

variable {s : Setup} {txn : Nat} {cs : List Change} {e e' : Engine} {ns : List Note}

/-- Every change of a transaction was made. -/
structure Accepted (s : Setup) (txn : Nat) (cs : List Change) (e : Engine) (ns : List Note)
    (e' : Engine) : Prop where
  /-- What was read are the paths of the created requests, one after the other. -/
  reads : (Note.reads ns).map (·.1) =
    (Change.requests s cs).flatMap fun r => r.subscriptions.map (·.path)
  ids : (Change.requests s cs).map (·.id) = Change.created s.moduleName cs
  /-- Every created request is one that was made for it, and runs. -/
  created : ∀ r ∈ Change.requests s cs, ∃ h, h.request = r ∧ e.handles ≤ h.key ∧
    e'.Registered h ∧ e'.status h = .running
  deleted : ∀ id ∈ Change.deleted s.moduleName cs, e'.registry.find? id = none
  others : ∀ id, id ∉ Change.created s.moduleName cs → id ∉ Change.deleted s.moduleName cs →
    e'.registry.find? id = e.registry.find? id
  pending : ∃ p, e'.pending = some p ∧ p.txn = txn

theorem Answered.accepted_of_ok (hs : Sound s e) (ha : Answered s txn cs e ns e' (.ok ())) :
    Accepted s txn cs e ns e' := by
  cases ha with
  | @accepted ps applied deadline plan performed advanced fresh read pending =>
    obtain ⟨-, hps⟩ := planChanges_eq_ok.1 plan
    obtain ⟨hcreated, hdeleted, -⟩ := ids_of_plans hs hps
    have hrequests := requests_of_plans hps
    refine ⟨?_, ?_, fun r hr => ?_, fun id hid => ?_, fun id hc hd => ?_, _, pending, rfl⟩
    · rw [read.paths, paths_of_requests, hrequests]
    · rw [← hrequests, ← created_of_requests, hcreated]
    · rw [← hrequests] at hr
      obtain ⟨p, hp, hpr⟩ := List.mem_filterMap.1 hr
      cases p with
      | create r' =>
        cases hpr
        obtain ⟨key, hm⟩ := performed.created hp
        obtain ⟨hreg, hrun, -, hkey⟩ := advanced.created hm
        exact ⟨_, rfl, hkey, hreg, hrun⟩
      | delete | nothing => cases hpr
    · rw [← hdeleted] at hid
      obtain ⟨h, hm, rfl⟩ := performed.deleted hid
      exact (advanced.deleted hm).1
    · refine advanced.same fun hm => ?_
      rcases performed.mem_touched.1 hm with hm | hm
      · rw [mem_planned, hcreated, hdeleted] at hm
        exact hm.elim hc hd
      · cases hm

/-- A transaction is accepted exactly when its changes are acceptable and every path of the requests
that it creates can be read when they are started. Then all of its changes are made; otherwise the
engine is left with what was registered before, and nothing of the transaction remains. -/
theorem change_all_or_nothing (hx : System.Reachable s ⟨e, none⟩) (hp : e.pending = none)
    (txn : Nat) (cs : List Change) :
    Returns s (.phase (.change txn cs)) e ∧
      ∀ {ns r e'}, Performs s (.phase (.change txn cs)) e ns r e' →
        (r = .ok () ↔
          Acceptable s e cs ∧ ∀ read ∈ Note.reads ns, ∃ leaves, read.2 = .ok leaves) ∧
        (r = .ok () → Accepted s txn cs e ns e') ∧
        (r ≠ .ok () → Restored e e') ∧
        ∀ h, e.Registered h → ¬Named s cs h → Untouched h ns e e' := by
  have hrest := hx.good.rest
  refine ⟨hrest.returns _, fun {ns r e'} hperf => ?_⟩
  have hmeets : ((Call.phase (.change txn cs)).work s).Meets s (Effect s (Named s cs))
      (fun ns r e' => Answered s txn cs e ns e' r ∧ Rest s e') e := change_meets hrest hp
  obtain ⟨-, hanswered, hrest'⟩ := Work.Meets.course hperf hmeets
  refine ⟨?_, fun hr => ?_, fun hr => ?_, fun h hreg hnot => ?_⟩
  · rw [acceptable_iff hrest.sound]
    cases hanswered with
    | accepted plan _ _ fresh read => exact ⟨fun _ => ⟨⟨_, plan, fresh⟩, read.ok⟩, fun _ => rfl⟩
    | refused _ _ cause =>
      rw [acceptable_iff hrest.sound] at cause
      refine ⟨fun hr => (by cases hr), fun ⟨hacc, hreads⟩ => ?_⟩
      rcases cause with hnot | ⟨read, hm, err, herr⟩
      · exact absurd hacc hnot
      · obtain ⟨leaves, hok⟩ := hreads read hm
        rw [herr] at hok
        cases hok
  · subst hr
    exact hanswered.accepted_of_ok hrest.sound
  · cases hanswered with
    | accepted => exact absurd rfl hr
    | refused registry pending => exact .of_registry hrest'.sound registry pending
  · refine (Work.Meets.course hperf (untouched_meets hrest.toCalm hreg (fun h' hnamed hid => ?_)
      hmeets)).2.2
    rw [Named, hid] at hnamed
    exact hnot hnamed

/-- A fresh engine accepts a transaction that creates a request, and then it runs. -/
theorem creation_accepted : ∃ ns e' h,
    Performs Small.setup (.phase (.change 7 [Small.creation])) Small.engine ns (.ok ()) e' ∧
      h.request = Small.request ∧ e'.Registered h ∧ e'.status h = .running := by
  obtain ⟨-, hall⟩ := change_all_or_nothing Small.reachable rfl 7 [Small.creation]
  obtain ⟨ns, hperf⟩ := Small.reachable.good.rest.performs (.phase (.change 7 [Small.creation]))
  have hok : ((Call.phase (.change 7 [Small.creation])).work Small.setup |>.run Small.setup
      Small.engine).2 = .ok () := by decide +kernel
  rw [hok] at hperf
  have hrequest : Small.request ∈ Change.requests Small.setup [Small.creation] := by decide +kernel
  obtain ⟨h, hreq, -, hreg, hrun⟩ := ((hall hperf).2.1 rfl).created _ hrequest
  exact ⟨ns, _, h, hperf, hreq, hreg, hrun⟩

end Telemetry.Engine
