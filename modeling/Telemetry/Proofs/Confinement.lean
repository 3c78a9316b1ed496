import Telemetry.Proofs.System

/-!
# Only registered requests leave traces

Leaves are cached and loops live for registered requests that run, and for nothing else; what is
sent is about registered requests. That holds at every moment, whatever calls were made and however
they went.

* `Engine.Confined`: the engine at one moment.
* `System.Run.silent`: an id that stays unregistered is not heard of.
* `System.no_orphans`: the statement.
-/
namespace Telemetry

namespace Engine

variable {s : Setup} {e : Engine} {h : Handle}

/-- Every cached leaf belongs to a subscription, and every loop to a STREAM subscription, of a
registered request that runs. -/
structure Confined (s : Setup) (e : Engine) : Prop where
  leaf : ∀ {r sid path o}, e.cache.get? r sid path = some o →
    ∃ h, h.id = r ∧ e.Registered h ∧ e.status h = .running ∧
      sid ∈ h.request.subscriptions.map (·.id)
  loop : ∀ {ref l}, e.loops.find? ref = some l →
    ∃ h, e.Registered h ∧ e.status h = .running ∧ h.request.mode = .stream ∧
      ∃ sub ∈ h.request.subscriptions, l.Serves s h sub

theorem Sound.confined (hs : Sound s e) : Confined s e where
  leaf {r sid path o} hf := by
    rw [Cache.get?_eq] at hf
    cases hr : e.registry.find? r with
    | none =>
      rw [hs.uncached hr] at hf
      cases hf
    | some h =>
      have hreg := hs.registered hr
      obtain rfl := hs.proper.ids hr
      refine ⟨h, rfl, hreg, (hs.fit hreg).running_of_leaf hf, ?_⟩
      by_cases hm : sid ∈ h.request.subscriptions.map (·.id)
      · exact hm
      · rw [show e.cache.bucket h.id sid = .empty from (hs.fit hreg).within sid hm] at hf
        cases hf
  loop hl := by
    obtain ⟨h, hreg, -, hrun, hm, hserves⟩ := hs.owner hl
    exact ⟨h, hreg, hrun, hm, hserves⟩

end Engine

namespace System

open Engine (Performs Returns Confined Served Vacant)

variable {s : Setup}

/-- As long as an id is not registered, nothing is sent about it. -/
theorem Run.silent {x y : System} {ns : List Note} {id : Nat} (g : Good s x)
    (r : Run s (fun z => z.engine.registry.find? id = none) x ns y) :
    ∃ new, y.engine.datastore.sent = x.engine.datastore.sent ++ new ∧
      ∀ n ∈ new, n.event.request ≠ id := by
  induction r with
  | here => exact Engine.sent_same rfl
  | step before st _ ih =>
    have gy := g.run before
    obtain ⟨new, hnew, hreg⟩ := (gy.turn st).sent gy.sound
    refine Engine.sent_trans ih ⟨new, hnew, fun n hm heq => ?_⟩
    obtain ⟨h, hr, hid⟩ := hreg n hm
    have habsent := before.last
    rw [← heq, hid, show _ = some h from hr] at habsent
    cases habsent

/-- At every moment leaves and loops belong to registered requests that run, and between calls every
subscription of a STREAM request that runs has its one loop. Whatever is sent is about a registered
request. Nothing is left after a shutdown. -/
theorem no_orphans {x : System} (hx : Reachable s x) :
    Confined s x.engine ∧
      (x.call = none → ∀ h, x.engine.Registered h → x.engine.status h = .running →
        h.request.mode = .stream → ∀ sub ∈ h.request.subscriptions, Served s x.engine h sub) ∧
      (∀ {ns y}, Step s x ns y →
        ∃ new, y.engine.datastore.sent = x.engine.datastore.sent ++ new ∧
          ∀ n ∈ new, ∃ h, x.engine.Registered h ∧ n.event.request = h.id) ∧
      (∀ {id ns y}, Run s (fun z => z.engine.registry.find? id = none) x ns y →
        ∃ new, y.engine.datastore.sent = x.engine.datastore.sent ++ new ∧
          ∀ n ∈ new, n.event.request ≠ id) ∧
      (x.call = none → Returns s .stop x.engine ∧
        ∀ {ns r e'}, Performs s .stop x.engine ns r e' →
          e'.cache.isEmpty = true ∧ ∀ id, Vacant e' id) := by
  have g := hx.good
  refine ⟨g.sound.confined, fun hidle h hr hrun hm sub hsub => ?_,
    fun st => (g.turn st).sent g.sound, fun r => r.silent g, fun hidle => ?_⟩
  · obtain ⟨e, _⟩ := x
    cases hidle
    exact Engine.served_of_looping (g.sound.proper.wellMade hr)
      (g.rest.toCalm.looping hr hrun hm) hsub
  · obtain ⟨e, _⟩ := x
    cases hidle
    refine ⟨g.rest.returns _, fun {ns r e'} hperf => ?_⟩
    have hmeets : (Engine.Call.stop.work s).Meets s (Engine.Effect s fun _ => True)
        (fun _ _ e' => Engine.Rest s e' ∧ e'.registry = .empty ∧ e'.cache.isEmpty = true) e :=
      Work.Meets.bind (Work.Meets.mono (fun _ _ _ hq => ⟨hq.1, hq.2.1, hq.2.2.2⟩)
        (Engine.shutdown_meets g.rest))
    obtain ⟨-, hrest, hreg, hempty⟩ := Work.Meets.course hperf hmeets
    exact ⟨hempty, fun id => hrest.sound.vacant (by rw [hreg]; rfl)⟩

/-- A leaf of the small engine leads to the request it belongs to, and to its loop. -/
theorem small_leaf_owned : ∃ o h, Small.established.cache.get? 1 5 "/m:c/x" = some o ∧ h.id = 1 ∧
    Small.established.status h = .running ∧
      ∀ sub ∈ h.request.subscriptions, Served Small.setup Small.established h sub := by
  obtain ⟨hconfined, hserved, -⟩ := no_orphans Small.reachable_established
  have hcached : (Small.established.cache.get? 1 5 "/m:c/x").isSome = true := by decide +kernel
  obtain ⟨o, ho⟩ := Option.isSome_iff_exists.1 hcached
  obtain ⟨h, hid, hr, hrun, -⟩ := hconfined.leaf ho
  have hregistered : Small.established.registry.find? 1 = some ⟨0, Small.request⟩ := by
    decide +kernel
  have hreq : h = ⟨0, Small.request⟩ := by
    rw [Engine.Registered, hid, hregistered] at hr
    exact (Option.some.inj hr).symm
  refine ⟨o, h, ho, hid, hrun, hserved rfl h hr hrun ?_⟩
  rw [hreq]
  rfl

end System

end Telemetry
