import Telemetry.Proofs.System

/-!
# Undoing is the inverse of a transaction

A transaction that was accepted may be pending for as long as it likes, while loops sample, data
change, requests are polled and other transactions are refused. Aborting it, or letting its time run
out, then leads back to what was registered before it. The requests that it deleted are started
again, the last one first, and those that can be read run again.

* `Engine.undo_inverts_change`: the statement.
-/
namespace Telemetry.Engine

open Work (Meets)

variable {s : Setup} {txn : Nat} {cs : List Change} {e₀ e₁ e₂ e₃ : Engine} {c : Call}

/-- The deleted requests were started again: the ones that were registered before, in the opposite
order, with the reads noted. A STREAM request for which all of them succeeded has its loops. -/
structure Resumed (s : Setup) (cs : List Change) (e₀ : Engine) (ns : List Note) (e₃ : Engine)
    (tries : List Try) : Prop where
  ids : tries.map (·.handle.id) = (Change.deleted s.moduleName cs).reverse
  registered : ∀ t ∈ tries, e₀.Registered t.handle
  reads : Note.reads ns = tries.flatMap (·.reads)
  came : ∀ t ∈ tries, t.Came s ns e₃
  looping : ∀ t ∈ tries, ∀ readings, t.out = .ok readings → t.handle.request.mode = .stream →
    (e₃.share t.handle).Looping s t.handle

theorem Undone.resumed {ps : List Planned} {p : Pending} {ns : List Note}
    (hu : Undone s p e₀.registry ns e₃) (hc : Calm s e₃) (performed : Performed [] ps p.applied)
    (advanced : Advanced e₀.registry e₀.handles p.applied e₁)
    (hdeleted : ps.filterMap Planned.deleted? = Change.deleted s.moduleName cs) :
    ∃ tries, Resumed s cs e₀ ns e₃ tries := by
  obtain ⟨tries, hhandles, hreads, hcame⟩ := hu.retried
  have hreg (t : Try) (ht : t ∈ tries) : e₀.Registered t.handle := by
    have hm : t.handle ∈ p.applied.filterMap Applied.restart? :=
      hhandles ▸ List.mem_map_of_mem ht
    obtain ⟨a, ha, hr⟩ := List.mem_filterMap.1 hm
    cases a with
    | deleted h =>
      cases hr
      exact (advanced.deleted ha).2
    | created | nothing => cases hr
  refine ⟨tries, ?_, hreg, hreads, hcame, fun t ht readings hok hm => ?_⟩
  · have hids := performed.restarts
    rw [← hhandles, hdeleted, List.map_map] at hids
    exact hids.trans (List.append_nil _)
  · refine hc.looping ?_ ((hcame t ht).restarted readings hok).running hm
    rw [Registered, hu.registry]
    exact hreg t ht

/-- Aborting a pending transaction, and what happens once its time is up, both undo it, and touch
only the requests that it is about. -/
theorem undo_call_handled {p : Pending} {g : Registry Handle} (hr : Rest s e₂)
    (hp : e₂.pending = some p) (hL : Ledger e₂.handles e₂.registry p.applied g)
    (undo : c = .phase (.abort p.txn) ∨ c = .expire ∧ p.deadline ≤ e₂.now) :
    (c.work s).Meets s (Effect s (· ∈ handled p.applied))
      (fun ns r e' => r = .ok () ∧ Undone s p g ns e' ∧ Rest s e') e₂ := by
  rcases undo with rfl | ⟨rfl, hdue⟩
  · exact abort_meets hr hp hL
  · have entitled (h : Handle) (hm : ∃ p', e₂.pending = some p' ∧ h ∈ handled p'.applied) :
        h ∈ handled p.applied := by
      obtain ⟨p', hp', hm⟩ := hm
      rw [hp] at hp'
      cases hp'
      exact hm
    refine Meets.bind (Meets.mono (fun ns _ e' hq => ?_)
      (Meets.weaken (fun _ _ hf => hf.mono entitled) (expire_meets hr)))
    obtain ⟨hr', ⟨-, hearly⟩ | ⟨p', hp', hundone⟩⟩ := hq
    · exact absurd hdue (Nat.not_le.2 (hearly p hp))
    · rw [hp] at hp'
      cases hp'
      exact ⟨rfl, by simpa using hundone g hL, hr'⟩

theorem undo_call_meets {p : Pending} {g : Registry Handle} (hr : Rest s e₂)
    (hp : e₂.pending = some p) (hL : Ledger e₂.handles e₂.registry p.applied g)
    (undo : c = .phase (.abort p.txn) ∨ c = .expire ∧ p.deadline ≤ e₂.now) :
    (c.work s).Meets s (Effect s fun h => h.id ∈ touched p.applied)
      (fun ns r e' => r = .ok () ∧ Undone s p g ns e' ∧ Rest s e') e₂ :=
  Meets.weaken (fun _ _ hf => hf.mono fun _ => id_mem_touched) (undo_call_handled hr hp hL undo)

/-- Once a transaction was accepted, and whatever happens while it is pending, aborting it or letting
its time run out leads back to what was registered before. -/
theorem undo_inverts_change {ns₁ ns₂ : List Note} (hx : System.Reachable s ⟨e₀, none⟩)
    (accepted : Performs s (.phase (.change txn cs)) e₀ ns₁ (.ok ()) e₁)
    (meanwhile : System.Run s (fun x => x.engine.pending = e₁.pending) ⟨e₁, none⟩ ns₂ ⟨e₂, none⟩)
    (undo : c = .phase (.abort txn) ∨
      c = .expire ∧ ∀ p, e₂.pending = some p → p.deadline ≤ e₂.now) :
    Returns s c e₂ ∧
      ∀ {ns r e₃}, Performs s c e₂ ns r e₃ →
        r = .ok () ∧ Restored e₀ e₃ ∧
        (∀ id ∈ Change.created s.moduleName cs, Vacant e₃ id) ∧
        (∃ tries, Resumed s cs e₀ ns e₃ tries) ∧
        ∀ h, e₀.Registered h → ¬Named s cs h → Untouched h ns e₂ e₃ := by
  have hr₀ := hx.good.rest
  have hp₀ : e₀.pending = none := by
    cases hp : e₀.pending with
    | none => rfl
    | some p =>
      obtain ⟨-, herr, -⟩ := Meets.course accepted
        (change_pending_meets (T := fun _ => True) hr₀ hp)
      cases herr
  obtain ⟨-, hanswered, hr₁⟩ := Meets.course accepted (change_meets hr₀ hp₀)
  cases hanswered with
  | @accepted ps applied deadline plan performed advanced fresh read pending =>
    obtain ⟨-, hps⟩ := planChanges_eq_ok.1 plan
    obtain ⟨hcreated, hdeleted, hvalid⟩ := ids_of_plans hr₀.sound hps
    rw [pending] at meanwhile
    have hg₁ : System.Good s ⟨e₁, none⟩ := .idle hr₁
    have hr₂ := (hg₁.run meanwhile).rest
    have hp₂ : e₂.pending = some ⟨txn, applied, deadline⟩ := meanwhile.last
    obtain ⟨hreg₂, hhandles₂⟩ := hg₁.registry_of_pending meanwhile
    change e₂.registry = e₁.registry at hreg₂
    change e₂.handles = e₁.handles at hhandles₂
    have hL : Ledger e₂.handles e₂.registry applied e₀.registry := by
      rw [hreg₂, hhandles₂]
      exact advanced.ledger
    have hmeets := undo_call_meets (c := c) hr₂ hp₂ hL
      (undo.imp_right fun h => ⟨h.1, h.2 _ hp₂⟩)
    refine ⟨hr₂.returns c, fun {ns r e₃} hperf => ?_⟩
    obtain ⟨-, hok, hundone, hr₃⟩ := Meets.course hperf hmeets
    have hrestored : Restored e₀ e₃ := .of_registry hr₃.sound hundone.registry hundone.pending
    refine ⟨hok, hrestored, fun id hid => ?_,
      hundone.resumed hr₃.toCalm performed advanced hdeleted, fun h hreg hnot => ?_⟩
    · rw [← hcreated] at hid
      obtain ⟨p, hp, hid⟩ := List.mem_filterMap.1 hid
      cases hvalid p hp with
      | create absent =>
        cases hid
        exact hrestored.vacant absent
      | delete | nothing => cases hid
    · have hunnamed : h.id ∉ touched applied := fun hm => by
        rcases performed.mem_touched.1 hm with hm | hm
        · rw [mem_planned, hcreated, hdeleted] at hm
          exact hnot hm
        · cases hm
      have hreg₂ : e₂.Registered h := by
        rw [Registered, hreg₂, advanced.same hunnamed]
        exact hreg
      exact (Meets.course hperf (untouched_meets hr₂.toCalm hreg₂
        (fun h' hm hid => hunnamed (hid ▸ hm)) hmeets)).2.2

/-- A deletion is aborted after a while, and what it deleted is registered again. -/
theorem deletion_undone : ∃ e₂ ns e₃,
    Performs Small.setup (.phase (.abort 8)) e₂ ns (.ok ()) e₃ ∧
      e₂.registry.find? 1 = none ∧ e₃.registry.find? 1 = some ⟨0, Small.request⟩ := by
  have hx := Small.reachable_established
  obtain ⟨ns₁, haccepted⟩ := hx.good.rest.performs (.phase (.change 8 [Small.deletion]))
  have hok : ((Call.phase (.change 8 [Small.deletion])).work Small.setup |>.run Small.setup
      Small.established).2 = .ok () := by decide +kernel
  rw [hok] at haccepted
  have hmeanwhile := (System.Run.here (s := Small.setup) (x := ⟨_, none⟩)
    (P := fun x => x.engine.pending = (Small.after (.phase (.change 8 [Small.deletion]))
      Small.established).pending) rfl).step (.stir (.wait _ (Nat.le_succ _))) rfl
  obtain ⟨hreturns, hall⟩ := undo_inverts_change hx haccepted hmeanwhile (.inl rfl)
  obtain ⟨ns, r, e₃, hperf⟩ := hreturns (.refl _ _)
  obtain ⟨rfl, hrestored, -⟩ := hall hperf
  refine ⟨_, ns, e₃, hperf, by decide +kernel, ?_⟩
  rw [hrestored.registry]
  decide +kernel

end Telemetry.Engine
