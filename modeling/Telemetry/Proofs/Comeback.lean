import Telemetry.Proofs.Confinement
import Telemetry.Proofs.Following
import Telemetry.Proofs.Reversal

/-!
# Requests that come back

A transaction that deleted a request is undone after a while, and the request is started again.
Nothing was reported in between, and the start puts a fresh snapshot into an empty cache. A collector
that was there before then learns of every leaf that the start or a sample tells of. Of any other
leaf it has what it had when the request was deleted, whether that is still so or not.

* `Engine.Mute.turn`: nothing is said about a request that does not run.
* `Comeback.silent`: nothing is said about it from its deletion to its restart.
* `comeback_view`: that silence, and what a collector has of every leaf after a sample.
* `Small.deletion_undone_unnoticed`: that this need not be what was sampled.
-/
namespace Telemetry

open Engine (Call Sound Rest Effect Performs Runs Watched Mirrored Heard Unsampled handled)
open Work (Meets)

namespace Engine

variable {s : Setup} {T : Handle → Prop} {h : Handle} {e e' : Engine} {ns : List Note}

/-! ## Requests that nothing is said about -/

/-- A request does not run, and no other one has its id. -/
structure Mute (h : Handle) (e : Engine) : Prop where
  only : ∀ h', e.Registered h' → h'.id = h.id → h' = h
  resting : ¬e.Runs h

theorem Mute.unsampled (hm : Mute h e) (hs : Sound s e) : Unsampled h e := by
  intro ref l live hid
  obtain ⟨h', hr', -, hrun, -, sub, -, hserves⟩ := hs.owner live
  have hid' : h'.id = h.id := by
    rw [← hid, hserves.plan]
    rfl
  obtain rfl := hm.only h' hr' hid'
  exact hm.resting ⟨hr', hrun⟩

/-- Nothing is said about such a request by calls that touch no other one with its id. -/
theorem Mute.turn (hm : Mute h e) (hs : Sound s e) (ht : ∀ h', T h' → h'.id = h.id → h' = h)
    (t : System.Turn s T e ns e') (hnot : ¬e'.Runs h) :
    Mute h e' ∧ ∃ new, e'.datastore.sent = e.datastore.sent ++ new ∧
      ∀ n ∈ new, n.event.request ≠ h.id := by
  cases t with
  | still | hold => exact ⟨⟨hm.only, hnot⟩, sent_same rfl⟩
  | stir hst =>
    have honly (h' : Handle) (hr : e'.Registered h') : h'.id = h.id → h' = h :=
      hm.only h' ((Stirs.single hst).registered h' |>.1 hr)
    exact ⟨⟨honly, hnot⟩, ((hm.unsampled hs).stir hst).2.2⟩
  | effect f =>
    cases f with
    | nothing | freed | await | settle => exact ⟨⟨hm.only, hnot⟩, sent_same rfl⟩
    | clear => exact ⟨⟨fun h' hr => (by cases hr), hnot⟩, sent_same rfl⟩
    | @on h' _ entitled deed =>
      refine ⟨⟨fun h'' hr hid => ?_, hnot⟩, ?_⟩
      · by_cases heq : h''.id = h'.id
        · obtain rfl := (deed.sole hs).2 h'' hr (.inr heq)
          exact ht h'' entitled hid
        · exact hm.only h'' (((deed.frame hs).registered heq).1 hr) hid
      · by_cases heq : h' = h
        · subst heq
          cases deed with
          | enroll | reenroll | cancel | halt | withdraw => exact sent_same rfl
          | begin registered =>
            refine absurd ⟨?_, status_begin _⟩ hnot
            rw [Registered, begin_frame]
            exact registered
          | burst registered running => exact absurd ⟨registered, running⟩ hm.resting
        · obtain ⟨new, hnew, habout⟩ := (deed.frame hs).sent
          refine ⟨new, hnew, fun n hn hid => heq ?_⟩
          obtain ⟨hid', hr⟩ := habout n hn
          exact hm.only h' hr (hid'.symm.trans hid)

end Engine

namespace System

variable {s : Setup} {T : Handle → Prop} {h : Handle}

/-- What is not registered stays so while one transaction is pending. -/
theorem Good.absent_of_pending {x y : System} {ns : List Note} {p : Pending} {id : Nat}
    (g : Good s x) (absent : x.engine.registry.find? id = none)
    (r : Run s (fun z => z.engine.pending = some p) x ns y) :
    Run s (fun z => z.engine.registry.find? id = none) x ns y := by
  induction r with
  | here => exact .here absent
  | step before st next ih =>
    refine ih.step st ?_
    rw [(g.registry_of_pending (before.step st next)).1]
    exact absent

/-- While a call that touches no other request with its id is at work, nothing is said about a
request that does not run. -/
theorem Run.mute {e : Engine} {w : Work (Except Error Unit)} {x : System} {ns : List Note}
    {Q : List Note → Except Error Unit → Engine → Prop} (g : Good s ⟨e, some w⟩)
    (meets : w.Meets s (Effect s T) Q e) (ht : ∀ h', T h' → h'.id = h.id → h' = h)
    (hm : Engine.Mute h e)
    (r : Run s (fun z => z.call.isSome ∧ ¬z.engine.Runs h) ⟨e, some w⟩ ns x) :
    Engine.Mute h x.engine ∧ ∃ new, x.engine.datastore.sent = e.datastore.sent ++ new ∧
      ∀ n ∈ new, n.event.request ≠ h.id := by
  -- what is left of the call touches no more than the call
  suffices hall : (∃ w' Q', x.call = some w' ∧ w'.Meets s (Effect s T) Q' x.engine) ∧
      Engine.Mute h x.engine ∧ ∃ new, x.engine.datastore.sent = e.datastore.sent ++ new ∧
        ∀ n ∈ new, n.event.request ≠ h.id from hall.2
  induction r with
  | here => exact ⟨⟨w, Q, rfl, meets⟩, hm, Engine.sent_same rfl⟩
  | @step y z _ _ before st next ih =>
    obtain ⟨⟨w', Q', hcall, hmeets⟩, hm, hsent⟩ := ih
    have gy := g.run before
    obtain ⟨e', _⟩ := y
    cases hcall
    cases st with
    | answer =>
      obtain ⟨hcall, -⟩ := next
      cases hcall
    | move m =>
      obtain ⟨hm', hsent'⟩ := hm.turn gy.sound ht (turn_of_move hmeets m) next.2
      exact ⟨⟨_, _, rfl, (Meets.move m hmeets).2⟩, hm', Engine.sent_trans hsent hsent'⟩

end System

/-! ## Deletions that are undone -/

/-- A request comes back: a transaction that deleted it was accepted with the engine `e`, and was
pending until it was aborted or its time was up. In the course of that the step from `x` to `y`
starts the request again. -/
inductive Comeback (s : Setup) (h : Handle) (e : Engine) : System → System → Prop where
  | undone {txn : Nat} {cs : List Change} {c : Call} {e₀ e₂ : Engine} {x y : System}
    {ns₁ ns₂ ns₃ ns₄ : List Note} (reachable : System.Reachable s ⟨e₀, none⟩)
    (registered : e₀.Registered h) (named : h.id ∈ Change.deleted s.moduleName cs)
    (accepted : Performs s (.phase (.change txn cs)) e₀ ns₁ (.ok ()) e)
    (meanwhile : System.Run s (fun z => z.engine.pending = e.pending) ⟨e, none⟩ ns₂ ⟨e₂, none⟩)
    (undo : c = .phase (.abort txn) ∨
      c = .expire ∧ ∀ p, e₂.pending = some p → p.deadline ≤ e₂.now)
    (undoing : System.Run s (fun z => z.call.isSome ∧ ¬z.engine.Runs h) ⟨e₂, some (c.work s)⟩ ns₃ x)
    (restart : System.Step s x ns₄ y) (runs : y.engine.Runs h)
    (delivers : x.engine.datastore.Delivers) : Comeback s h e x y

variable {s : Setup} {h : Handle} {e : Engine} {x y : System}

/-- An accepted deletion waits to be undone. It is about the request, and about no other one with
its id. -/
theorem Engine.deletion_pending {txn : Nat} {cs : List Change} {e₀ : Engine} {ns : List Note}
    (hr : Rest s e₀) (registered : e₀.Registered h) (named : h.id ∈ Change.deleted s.moduleName cs)
    (accepted : Performs s (.phase (.change txn cs)) e₀ ns (.ok ()) e) :
    Rest s e ∧ e.registry.find? h.id = none ∧
      ∃ applied deadline, e.pending = some ⟨txn, applied, deadline⟩ ∧
        Engine.Ledger e.handles e.registry applied e₀.registry ∧
        ∀ h' ∈ handled applied, h'.id = h.id → h' = h := by
  have hp : e₀.pending = none := by
    cases hp : e₀.pending with
    | none => rfl
    | some p =>
      obtain ⟨-, herr, -⟩ := Meets.course accepted
        (Engine.change_pending_meets (T := fun _ => True) hr hp)
      cases herr
  obtain ⟨-, hanswered, hr₁⟩ := Meets.course accepted (Engine.change_meets hr hp)
  cases hanswered with
  | @accepted ps applied deadline plan performed advanced fresh read pending =>
    obtain ⟨-, hps⟩ := Engine.planChanges_eq_ok.1 plan
    obtain ⟨-, hdeleted, -⟩ := Engine.ids_of_plans hr.sound hps
    refine ⟨hr₁, ?_, applied, deadline, pending, advanced.ledger, fun h' hm hid => ?_⟩
    · have hm : h.id ∈ Engine.planned ps := Engine.mem_planned.2 (.inr (hdeleted ▸ named))
      obtain ⟨h', hid, htouched⟩ := Engine.mem_touched (performed.mem_touched.2 (.inl hm))
      exact (advanced.eq_of_registered registered hid htouched).2
    · exact (advanced.eq_of_registered registered hid (Engine.of_mem_handled hm)).1

/-- Nothing is said about a request from its deletion to its restart. -/
theorem Comeback.silent (hc : Comeback s h e x y) :
    System.Good s x ∧ ¬x.engine.Runs h ∧ ∃ new, x.engine.datastore.sent = e.datastore.sent ++ new ∧
      ∀ n ∈ new, n.event.request ≠ h.id := by
  cases hc with
  | @undone txn cs c e₀ e₂ _ _ ns₁ ns₂ ns₃ ns₄ reachable registered named accepted meanwhile undo
      undoing =>
    obtain ⟨hr₁, habsent, applied, deadline, pending, hledger, honly⟩ :=
      Engine.deletion_pending reachable.good.rest registered named accepted
    rw [pending] at meanwhile
    -- while it is pending, the request is not registered
    have hg₁ : System.Good s ⟨e, none⟩ := .idle hr₁
    have hg₂ := hg₁.run meanwhile
    have hp₂ : e₂.pending = some ⟨txn, applied, deadline⟩ := meanwhile.last
    obtain ⟨hreg₂, hhandles₂⟩ := hg₁.registry_of_pending meanwhile
    change e₂.registry = e.registry at hreg₂
    change e₂.handles = e.handles at hhandles₂
    have hsent₁ := (hg₁.absent_of_pending habsent meanwhile).silent hg₁
    have hnot (h' : Handle) (hr : e₂.Registered h') : h'.id ≠ h.id := by
      intro hid
      rw [Engine.Registered, hreg₂, hid, habsent] at hr
      cases hr
    have hmute : Engine.Mute h e₂ :=
      ⟨fun h' hr hid => absurd hid (hnot h' hr), fun hruns => hnot h hruns.1 rfl⟩
    -- while it is undone, no other request with its id is touched
    rw [← hreg₂, ← hhandles₂] at hledger
    have hmeets := Engine.undo_call_handled (c := c) hg₂.rest hp₂ hledger
      (undo.imp_right fun hdue => ⟨hdue.1, hdue.2 _ hp₂⟩)
    have hg₃ := hg₂.step (.call e₂ c)
    obtain ⟨-, hsent₂⟩ := undoing.mute hg₃ hmeets honly hmute
    exact ⟨hg₃.run undoing, undoing.last.2, Engine.sent_trans hsent₁ hsent₂⟩

/-- What a collector has of a leaf after the sample `last`: `m` is what it had before the events, and
`first` was read for the restart. -/
inductive Recovered (s : Setup) (h : Handle) (sub : Subscription) (first last : Leaves)
    (events : List Event) (m : Mirror) (path : String) : Prop where
  /-- It was told of the leaf, and has what was sampled. -/
  | told (tells : ∃ ev ∈ events, ev.Tells h.id sub.id path)
    (shows : Option.Rel (fun text v => ∃ v' : Json, text = v'.compact ∧ v'.same v = true)
      ((Mirror.follow h.id sub.id events m).find? path) (last.find? path))
  /-- The leaf is not there and was not there at the restart. -/
  | absent (untold : ∀ ev ∈ events, ¬ev.Tells h.id sub.id path)
    (kept : (Mirror.follow h.id sub.id events m).find? path = m.find? path)
    (unread : first.find? path = none) (unsampled : last.find? path = none)
  /-- The restart did not report it and the samples had nothing new. -/
  | withheld (untold : ∀ ev ∈ events, ¬ev.Tells h.id sub.id path)
    (kept : (Mirror.follow h.id sub.id events m).find? path = m.find? path)
    (unreported : h.request.updatesOnly = true)
    (suppressed : (Sampling.ofSubscription h.id sub s.least).suppress = true) {v v' : Json}
    (read : first.find? path = some v) (sampled : last.find? path = some v')
    (same : v.same v' = true)

section

variable {sub : Subscription} {first last : Leaves} {readings : List Snapshot.Reading} {path : String}

/-- If no sample told of a leaf, then what was sampled is what was read for the restart. -/
theorem recovered_of_untold {before new : List Event} (hn : (readings.map (·.1)).Nodup)
    (hfirst : (sub.id, first) ∈ readings) (hbefore : ∀ ev ∈ before, ¬ev.Tells h.id sub.id path)
    (hnew : ∀ ev ∈ new, ¬ev.Tells h.id sub.id path)
    (hread : Option.Rel (fun v v' : Json => v.same v' = true) (first.find? path) (last.find? path))
    (hsup : ∀ v, last.find? path = some v → (Sampling.ofSubscription h.id sub s.least).suppress = true)
    (m : Mirror) :
    Recovered s h sub first last (before ++ Engine.opening h readings ++ new) m path := by
  have untold (hopening : ∀ ev ∈ Engine.opening h readings, ¬ev.Tells h.id sub.id path) :
      ∀ ev ∈ before ++ Engine.opening h readings ++ new, ¬ev.Tells h.id sub.id path := by
    intro ev hev
    rcases List.mem_append.1 hev with hev | hev
    · rcases List.mem_append.1 hev with hev | hev
      · exact hbefore ev hev
      · exact hopening ev hev
    · exact hnew ev hev
  cases hv : first.find? path with
  | none =>
    have huntold := untold fun ev hev ht => by
      obtain ⟨-, v, hv', -⟩ := (Engine.tells_opening hn hfirst).1 ⟨hev, ht⟩
      rw [hv] at hv'
      cases hv'
    refine .absent huntold (Mirror.find?_follow_of_untold huntold m) hv ?_
    rw [hv] at hread
    generalize last.find? path = sampled at hread ⊢
    cases hread
    rfl
  | some v =>
    rw [hv] at hread
    generalize hlast : last.find? path = sampled at hread
    cases hread with
    | @some _ v' hsame =>
      cases hu : h.request.updatesOnly with
      | false =>
        have hev := (Engine.tells_opening hn hfirst).2 ⟨hu, v, hv, rfl⟩
        refine .told ⟨_, List.mem_append_left _ (List.mem_append_right _ hev.1), hev.2⟩ ?_
        rw [Mirror.follow_append, Mirror.find?_follow_of_untold hnew, Mirror.follow_append,
          Engine.find?_follow_opening hn hfirst hu, hv, hlast]
        exact .some ⟨v, rfl, hsame⟩
      | true =>
        have huntold := untold fun ev hev ht => by
          obtain ⟨hfalse, -⟩ := (Engine.tells_opening hn hfirst).1 ⟨hev, ht⟩
          rw [hu] at hfalse
          cases hfalse
        exact .withheld huntold (Mirror.find?_follow_of_untold huntold m) hu (hsup v' hlast) hv hlast
          hsame

/-- Leaf by leaf: the start and the samples after it, and what they leave a collector with. -/
theorem recovered {e' : Engine} {ns : List Note} {before new : List (Notification Event)}
    (hn : (readings.map (·.1)).Nodup) (hfirst : (sub.id, first) ∈ readings)
    (hbucket : ∃ now, e.cache.bucket h.id sub.id = first.map fun _ v => ⟨v, now⟩)
    (hother : ∀ n ∈ before, n.event.request ≠ h.id) (hm : Mirrored s h sub first e ns new e')
    (hs : Engine.Spoken s h sub e ns new e')
    (hlast : (Note.samples (.ofSubscription h.id sub s.least) ns).getLast? = some last)
    (m : Mirror) : Recovered s h sub first last
      (before.map (·.event) ++ Engine.opening h readings ++ new.map (·.event)) m path := by
  have hagrees : (e'.cache.bucket h.id sub.id).Agrees last := by
    have hagrees := hm.agrees
    rwa [List.getLastD_eq_getLast?, hlast] at hagrees
  by_cases hnew : ∃ ev ∈ new.map (·.event), ev.Tells h.id sub.id path
  · -- a sample told of it: what the collector had of it does not matter
    obtain ⟨ev, hev, ht⟩ := hnew
    refine .told ⟨ev, List.mem_append_right _ hev, ht⟩ ?_
    rw [Mirror.follow_append, Mirror.find?_follow_congr (.inr ⟨ev, hev, ht⟩),
      Mirror.follow_of_replay hm.replay]
    exact hagrees.shows path
  · -- no sample did: what was read for the restart is still cached
    have hnew : ∀ ev ∈ new.map (·.event), ¬ev.Tells h.id sub.id path :=
      fun ev hev ht => hnew ⟨ev, hev, ht⟩
    have hbefore : ∀ ev ∈ before.map (·.event), ¬ev.Tells h.id sub.id path := by
      intro ev hev ht
      obtain ⟨n, hmem, rfl⟩ := List.mem_map.1 hev
      exact hother n hmem ht.about.request
    have hread : Option.Rel (fun v v' : Json => v.same v' = true) (first.find? path)
        (last.find? path) := by
      obtain ⟨now, hbucket⟩ := hbucket
      have hcached := hagrees path
      rw [hs.kept hnew, hbucket, SortedMap.find?_map] at hcached
      generalize first.find? path = read, last.find? path = sampled at hcached ⊢
      cases read with
      | none =>
        cases hcached
        exact .none
      | some v =>
        cases hcached with
        | some hsame => exact .some hsame
    refine recovered_of_untold hn hfirst hbefore hnew hread (fun v hv => ?_) m
    cases hsup : (Sampling.ofSubscription h.id sub s.least).suppress with
    | true => rfl
    | false =>
      obtain ⟨ev, hev, ht⟩ := hs.every hsup hlast hv
      exact absurd ht (hnew ev hev)

end

/-- When the deletion of a STREAM request is undone and the request starts again, nothing was said
about it since the deletion was accepted. A collector that had the leaves `m` of a subscription at
that time has after every sample since the restart what it was told, and apart from that what it
had. It was told of every leaf of the sample, unless the restart did not report it; a leaf that was
gone by then it was not told of. -/
theorem comeback_view (hc : Comeback s h e x y) (stream : h.request.mode = .stream) :
    ∃ before readings, x.engine.datastore.sent = e.datastore.sent ++ before ∧
      (∀ n ∈ before, n.event.request ≠ h.id) ∧ y.engine = Engine.begin s h readings x.engine ∧
      ∀ sub ∈ h.request.subscriptions, ∃ first ref, (sub.id, first) ∈ readings ∧
        (∃ l, y.engine.loops.find? ref = some l ∧ l.Serves s h sub) ∧
        ∀ {ns z last}, System.Run s (fun z => (z.engine.loops.find? ref).isSome ∧
            z.engine.datastore.Delivers) y ns z →
          (Note.samples (.ofSubscription h.id sub s.least) ns).getLast? = some last →
          ∃ new, z.engine.datastore.sent = e.datastore.sent ++ new ∧
            ∀ m path, Recovered s h sub first last (new.map (·.event)) m path := by
  obtain ⟨gx, hnot, before, hbefore, hother⟩ := hc.silent
  cases hc with
  | @undone txn cs c e₀ e₂ _ _ ns₁ ns₂ ns₃ ns₄ reachable registered named accepted meanwhile undo
      undoing restart runs delivers =>
    have gy := gx.step restart
    obtain ⟨readings, hbegin, hr, hrest, hread⟩ :=
      Engine.Runs.begun gx.sound (gx.turn restart) hnot runs
    have hmade := gx.sound.proper.wellMade hr
    have hn : (readings.map (·.1)).Nodup := hread ▸ hmade.distinct
    have hopened := (gx.sound.dormant hr hrest).opened (s := s) hmade hread
    rw [← hbegin] at hopened
    refine ⟨before, readings, hbefore, hother, hbegin, fun sub hsub => ?_⟩
    -- the loop and what was read for the subscription
    have hrefs : (y.engine.life h).loops ≠ [] := by
      rw [hbegin]
      exact Engine.loops_begin_ne_nil readings stream hmade
    have hlooping := (gy.sound.fit runs.1).looping_of_refs stream hrefs
    obtain ⟨ref, hw, hlive⟩ :=
      (Engine.served_of_looping hmade hlooping hsub).watched runs.1 hsub
    have hid : sub.id ∈ readings.map (·.1) := by
      rw [hread]
      exact List.mem_map_of_mem hsub
    obtain ⟨⟨_, first⟩, hfirst, rfl⟩ := List.mem_map.1 hid
    refine ⟨first, ref, hfirst, hlive, fun {ns z last} r hlast => ?_⟩
    have hbucket := hopened.buckets _ hfirst
    obtain ⟨-, new, hm⟩ := r.mirrored gy hw (.begin hbucket)
    obtain ⟨new', hs⟩ := r.spoken gy hw
    obtain rfl : new = new' := List.append_cancel_left (hm.sent.symm.trans hs.sent)
    have hsent := hm.sent
    rw [hopened.delivered delivers, hbefore, List.append_assoc, List.append_assoc] at hsent
    refine ⟨_, hsent, fun m path => ?_⟩
    rw [List.map_append, List.map_append, Datastore.map_event, ← List.append_assoc]
    exact recovered hn hfirst ⟨_, hbucket⟩ hother hm hs hlast m

/-! ## An example -/

namespace Small

/-- A STREAM request for later changes only. -/
def reticent : Request where
  id := 1
  mode := .stream
  updatesOnly := true
  subscriptions := [⟨5, "/m:c", some .sample, some (2 * 1_000_000_000), some true, some 0⟩]

def reticentPayload : Json := .object [
  ("config", .object [("mode", .string "STREAM"), ("updates-only", .bool true)]),
  ("subscriptions", .object [("subscription", .array [.object [
    ("id", Json.nat 5),
    ("config", .object [("path", .string "/m:c"), ("mode", .string "SAMPLE"),
      ("suppress-redundant", .bool true)])]])])]

def reticentCreation : Change :=
  .creation "/t:subscribe-requests/subscribe-request[id='1']" reticentPayload

/-- The engine once that request was created. -/
def reserved : Engine := after (.phase (.done 7)) (after (.phase (.change 7 [reticentCreation])) engine)

theorem reachable_reserved : System.Reachable setup ⟨reserved, none⟩ :=
  reachable_after (reachable_after reachable _) _

/-! The request is deleted, the data change, and the deletion is aborted, step by step. -/

def deleted (e : Engine) : Engine := after (.phase (.change 8 [deletion])) e

def changed (e : Engine) (trees : SortedMap String Json) : Engine := holding trees (deleted e)

def undoing (e : Engine) (trees : SortedMap String Json) (n : Nat) : System :=
  .ahead setup n ⟨changed e trees, some ((Call.phase (.abort 8)).work setup)⟩

/-- The engine when its loop is due. -/
def due (e : Engine) (trees : SortedMap String Json) : Engine :=
  { (undoing e trees 10).engine with now := 2 * 1_000_000_000 }

def sampled (e : Engine) (trees : SortedMap String Json) (p : Sampling) : Engine :=
  (undoing e trees 10).engine.sampledAt setup p (2 * 1_000_000_000)

/-- What a collector has that begins with the leaf as it was at first and hears everything. -/
def view (e : Engine) : Mirror :=
  .follow 1 5 (e.datastore.sent.map (·.event)) (.ofLeaves (.ofList [("/m:c/x", Json.nat 3)]))

/-- A request is deleted while the leaf is 3 and comes back, and then its loop samples `leaf`. The
eighth step of the abort starts it again, and two steps later the abort is answered. -/
structure Story (e : Engine) (h : Handle) (sub : Subscription) (trees : SortedMap String Json)
    (leaf : Option Nat) : Prop where
  reachable : System.Reachable setup ⟨e, none⟩
  registered : e.Registered h := by decide +kernel
  named : h.id ∈ Change.deleted setup.moduleName [deletion] := by decide +kernel
  accepted : (((Call.phase (.change 8 [deletion])).work setup).run setup e).2 = .ok () := by
    decide +kernel
  resting : ∀ k ≤ 7, (undoing e trees k).call.isSome ∧ ¬(undoing e trees k).engine.Runs h := by
    decide +kernel
  runs : (undoing e trees 8).engine.Runs h := by decide +kernel
  delivers : (undoing e trees 7).engine.datastore.Delivers := by decide +kernel
  alive : ∀ k ≤ 2, ((System.ahead setup k (undoing e trees 8)).engine.loops.find? 1).isSome ∧
    (System.ahead setup k (undoing e trees 8)).engine.datastore.Delivers := by decide +kernel
  idle : (undoing e trees 10).call.isNone := by decide +kernel
  early : (undoing e trees 10).engine.now ≤ 2 * 1_000_000_000 := by decide +kernel
  live : ((due e trees).loops.find? 1).map (·.plan) =
    some (.ofSubscription h.id sub setup.least) := by decide +kernel
  read : ((due e trees).answer setup sub.path false).toOption.map
    (fun leaves => (leaves.find? "/m:c/x").map Json.nat?) = some (leaf.map some) := by decide +kernel
  after : ((sampled e trees (.ofSubscription h.id sub setup.least)).loops.find? 1).isSome ∧
    (sampled e trees (.ofSubscription h.id sub setup.least)).datastore.Delivers := by decide +kernel
  viewed : (view (sampled e trees (.ofSubscription h.id sub setup.least))).find? "/m:c/x" =
    some "3" := by decide +kernel

namespace Story

variable {e : Engine} {h : Handle} {sub : Subscription} {trees : SortedMap String Json}
  {leaf : Option Nat}

theorem comeback (st : Story e h sub trees leaf) :
    Comeback setup h (deleted e) (undoing e trees 7) (undoing e trees 8) := by
  obtain ⟨ns₁, hperf⟩ := st.reachable.good.rest.performs (.phase (.change 8 [deletion]))
  rw [st.accepted] at hperf
  have hstart : System.Run setup (fun z => z.engine.pending = (deleted e).pending)
      ⟨deleted e, none⟩ [] ⟨deleted e, none⟩ := .here rfl
  have hdata : System.Step setup ⟨deleted e, none⟩ [] ⟨changed e trees, none⟩ :=
    .stir (.data _ rfl)
  obtain ⟨ns₃, hundoing, -⟩ := System.run_ahead (s := setup)
    (x := ⟨changed e trees, some ((Call.phase (.abort 8)).work setup)⟩)
    (P := fun z => z.call.isSome ∧ ¬z.engine.Runs h) st.resting
  obtain ⟨ns₄, hst⟩ := System.step_next (P := fun z => z.engine.Runs h)
    (st.resting 7 (Nat.le_refl 7)).2 st.runs
  exact .undone st.reachable st.registered st.named hperf (hstart.step hdata rfl) (.inl rfl)
    hundoing hst st.runs st.delivers

/-- Once the request has come back, its loop takes a sample. -/
theorem run_sampled (st : Story e h sub trees leaf) : ∃ ns leaves,
    System.Run setup (fun z => (z.engine.loops.find? 1).isSome ∧ z.engine.datastore.Delivers)
      (undoing e trees 8) ns ⟨sampled e trees (.ofSubscription h.id sub setup.least), none⟩ ∧
      Note.samples (.ofSubscription h.id sub setup.least) ns = [leaves] ∧
      (leaves.find? "/m:c/x").map Json.nat? = leaf.map some := by
  obtain ⟨ns, hahead, hnone⟩ := System.run_ahead (s := setup) (x := undoing e trees 8)
    (P := fun z => (z.engine.loops.find? 1).isSome ∧ z.engine.datastore.Delivers) st.alive
  have hidle : undoing e trees 10 = ⟨(undoing e trees 10).engine, none⟩ := by
    rw [← Option.isNone_iff_eq_none.1 st.idle]
  have hlast := st.alive 2 (Nat.le_refl 2)
  change ((undoing e trees 10).engine.loops.find? 1).isSome ∧ _ at hlast
  change System.Run setup _ _ ns (undoing e trees 10) at hahead
  rw [hidle] at hahead
  obtain ⟨ns', leaves, hrun, hsamples, hvalue⟩ := hahead.sampled st.early st.live st.read hlast st.after
  refine ⟨_, leaves, hrun, ?_, hvalue⟩
  rw [Note.samples_append, hnone, hsamples]
  rfl

end Story

/-- A request comes back, and every notification since then is delivered; but after a sample a
collector that heard everything has something else than what was sampled. -/
def Unnoticed (e : Engine) (h : Handle) (sub : Subscription) : Prop :=
  ∃ x y ns z last, Comeback setup h (deleted e) x y ∧
    System.Run setup (fun z => (z.engine.loops.find? 1).isSome ∧ z.engine.datastore.Delivers) y ns z ∧
    (Note.samples (.ofSubscription h.id sub setup.least) ns).getLast? = some last ∧
    ¬(view z.engine).Shows last

theorem Story.unnoticed {e : Engine} {h : Handle} {sub : Subscription}
    {trees : SortedMap String Json} {leaf : Option Nat} (st : Story e h sub trees leaf)
    (hleaf : leaf.map (fun n => (Json.nat n).compact) ≠ some "3") : Unnoticed e h sub := by
  obtain ⟨ns, leaves, hrun, hsamples, hvalue⟩ := st.run_sampled
  refine ⟨_, _, _, _, leaves, st.comeback, hrun, by rw [hsamples]; rfl, fun hshows => ?_⟩
  have hshown := hshows "/m:c/x"
  rw [st.viewed] at hshown
  cases hv : leaves.find? "/m:c/x" with
  | none =>
    rw [hv] at hshown
    cases hshown
  | some v =>
    rw [hv] at hshown hvalue
    cases hshown with
    | some hsame =>
      obtain ⟨v', htext, hsame⟩ := hsame
      obtain ⟨n, hn⟩ := Option.map_eq_some_iff.1 hvalue.symm
      refine hleaf ?_
      rw [hn.1, Option.map_some, ← Json.eq_nat_of_same hn.2.symm hsame, htext]

/-- The request for all there is, while the leaf goes away. -/
theorem story_established : Story established ⟨0, request⟩
    ⟨5, "/m:c", some .sample, some (2 * 1_000_000_000), some false, some 0⟩ .empty none where
  reachable := reachable_established

/-- The request for later changes only, while the leaf becomes 4. -/
theorem story_reserved : Story reserved ⟨0, reticent⟩
    ⟨5, "/m:c", some .sample, some (2 * 1_000_000_000), some true, some 0⟩
    (.ofList [("c", .object [("x", Json.nat 4)])]) (some 4) where
  reachable := reachable_reserved

/-- A leaf that goes away between deletion and restart stays in the view, and a value that changes
then stays what it was for a request for later changes only. -/
theorem deletion_undone_unnoticed :
    Unnoticed established ⟨0, request⟩
        ⟨5, "/m:c", some .sample, some (2 * 1_000_000_000), some false, some 0⟩ ∧
      Unnoticed reserved ⟨0, reticent⟩
        ⟨5, "/m:c", some .sample, some (2 * 1_000_000_000), some true, some 0⟩ :=
  ⟨story_established.unnoticed (by decide +kernel), story_reserved.unnoticed (by decide +kernel)⟩

/-- The silence until the request comes back, and what a collector then has of the leaf that went
away. -/
theorem small_deletion_recovered : ∃ x y before ns z first last new,
    Comeback setup ⟨0, request⟩ (deleted established) x y ∧
      x.engine.datastore.sent = (deleted established).datastore.sent ++ before ∧
      (∀ n ∈ before, n.event.request ≠ 1) ∧
      System.Run setup (fun z => (z.engine.loops.find? 1).isSome ∧ z.engine.datastore.Delivers)
        y ns z ∧
      z.engine.datastore.sent = (deleted established).datastore.sent ++ new ∧
      Recovered setup ⟨0, request⟩
        ⟨5, "/m:c", some .sample, some (2 * 1_000_000_000), some false, some 0⟩ first last
        (new.map (·.event)) (view (deleted established)) "/m:c/x" := by
  have hc := story_established.comeback
  obtain ⟨ns, last, hrun, hsamples, -⟩ := story_established.run_sampled
  obtain ⟨before, readings, hbefore, hsilent, -, hall⟩ := comeback_view hc rfl
  obtain ⟨first, ref, -, ⟨l, hl, -⟩, hview⟩ := hall _ List.mem_cons_self
  -- there is one loop
  obtain rfl : ref = 1 := by
    have hkeys : (undoing established .empty 8).engine.loops.keys = [1] := by decide +kernel
    have hmem : ref ∈ (undoing established .empty 8).engine.loops.keys :=
      SortedMap.mem_keys.2 (Option.isSome_of_mem hl)
    rw [hkeys] at hmem
    exact List.mem_singleton.1 hmem
  obtain ⟨new, hnew, hrecovered⟩ := hview hrun (by rw [hsamples]; rfl)
  exact ⟨_, _, before, ns, _, first, last, new, hc, hbefore, hsilent, hrun, hnew, hrecovered _ _⟩

end Small

end Telemetry
