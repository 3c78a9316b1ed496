import Mathlib.Data.List.Nodup
import Telemetry.Proofs.Convergence
import Telemetry.Proofs.Starting

/-!
# Collectors that take events as they come

A collector that was not told everything may be told that a leaf is gone which it does not have. If
it takes events as they come (`Mirror.follow`) it lets that pass, and goes on with whatever it had
before. Leaf by leaf there are two cases: either some event tells of the leaf, and then what the
collector had of it before does not matter, or none does, and then it has what it had.

* `Mirror.follow_of_replay`: who hears nothing wrong is such a collector.
* `Mirror.find?_follow_congr`: two collectors that had the same of a leaf, or were told of it, have
  the same of it.
* `Mirror.find?_follow_of_untold`: a leaf that no event tells of stays as it is.
* `Sampling.find?_observe_of_untold`, `Sampling.tells_of_unsuppressed`: what a sample says nothing of
  stays as it is in the cache, and without suppression it says something of every leaf that it has.
* `Engine.find?_follow_opening`: what a start says to a collector.
* `System.Run.spoken`: what is said after it, and what stays cached as it was.
-/
namespace Telemetry

/-- An event tells of a leaf: it sets the leaf or removes it. -/
def Event.Tells (r s : Nat) (path : String) : Event → Prop
  | .update r' s' path' _ | .delete r' s' path' => r' = r ∧ s' = s ∧ path' = path
  | .sync _ => False

theorem Event.Tells.about {r s : Nat} {path : String} {ev : Event} (h : ev.Tells r s path) :
    ev.about r s := by
  cases ev with
  | update | delete => exact ⟨h.1, h.2.1⟩
  | sync => exact h.elim

namespace Mirror

variable {r s : Nat} {path : String}

/-- An event is taken as it comes. -/
def heed (r s : Nat) (m : Mirror) : Event → Mirror
  | .update r' s' path text => if r' = r ∧ s' = s then m.insert path text else m
  | .delete r' s' path => if r' = r ∧ s' = s then m.erase path else m
  | .sync _ => m

def follow (r s : Nat) (events : List Event) (m : Mirror) : Mirror := events.foldl (heed r s) m

theorem follow_append (events events' : List Event) (m : Mirror) :
    follow r s (events ++ events') m = follow r s events' (follow r s events m) :=
  List.foldl_append

theorem heed_other {ev : Event} (h : ¬ev.about r s) (m : Mirror) : m.heed r s ev = m := by
  cases ev with
  | update | delete => exact if_neg h
  | sync => rfl

theorem heed_of_hear {ev : Event} {m m' : Mirror} (h : m.hear r s ev = some m') :
    m.heed r s ev = m' := by
  by_cases ha : ev.about r s
  · cases ev with
    | update =>
      simp only [hear, show _ ∧ _ from ha, and_self, if_true] at h
      simp only [heed, show _ ∧ _ from ha, and_self, if_true]
      exact Option.some.inj h
    | delete =>
      simp only [hear, show _ ∧ _ from ha, and_self, if_true] at h
      simp only [heed, show _ ∧ _ from ha, and_self, if_true]
      obtain ⟨_, -, hm⟩ := Option.map_eq_some_iff.1 h
      exact hm
    | sync => exact ha.elim
  · rw [hear_other ha] at h
    rw [heed_other ha]
    exact Option.some.inj h

/-- A collector that was told of no leaf twice that it is gone takes every event as it comes. -/
theorem follow_of_replay {events : List Event} {m m' : Mirror}
    (h : replay r s events m = some m') : follow r s events m = m' := by
  induction events generalizing m with
  | nil => exact Option.some.inj h
  | cons ev events ih =>
    obtain ⟨m₁, hheard, hrest⟩ := Option.bind_eq_some_iff.1 h
    change follow r s events (m.heed r s ev) = m'
    rw [heed_of_hear hheard]
    exact ih hrest

/-- What an event does to a leaf: nothing, unless it tells of it. -/
theorem find?_heed_of_untold {ev : Event} (h : ¬ev.Tells r s path) (m : Mirror) :
    (m.heed r s ev).find? path = m.find? path := by
  by_cases ha : ev.about r s
  · cases ev with
    | update r' s' path' text =>
      have hne : path ≠ path' := fun hpath => h ⟨ha.1, ha.2, hpath.symm⟩
      simp only [heed, show _ ∧ _ from ha, and_self, if_true, SortedMap.find?_insert_of_ne _ hne]
    | delete r' s' path' =>
      have hne : path ≠ path' := fun hpath => h ⟨ha.1, ha.2, hpath.symm⟩
      simp only [heed, show _ ∧ _ from ha, and_self, if_true, SortedMap.find?_erase_of_ne hne]
    | sync => exact ha.elim
  · rw [heed_other ha]

/-- If it does, what the collector had of it does not matter. -/
theorem find?_heed_of_tells {ev : Event} (h : ev.Tells r s path) (m m' : Mirror) :
    (m.heed r s ev).find? path = (m'.heed r s ev).find? path := by
  cases ev with
  | update r' s' path' text =>
    obtain ⟨rfl, rfl, rfl⟩ := h
    simp only [heed, and_self, if_true, SortedMap.find?_insert_self]
  | delete r' s' path' =>
    obtain ⟨rfl, rfl, rfl⟩ := h
    simp only [heed, and_self, if_true, SortedMap.find?_erase_self]
  | sync => exact h.elim

/-- A leaf that no event tells of stays as it is. -/
theorem find?_follow_of_untold {events : List Event} (h : ∀ ev ∈ events, ¬ev.Tells r s path)
    (m : Mirror) : (follow r s events m).find? path = m.find? path := by
  induction events generalizing m with
  | nil => rfl
  | cons ev events ih =>
    change (follow r s events (m.heed r s ev)).find? path = _
    rw [ih fun ev' hm => h ev' (.tail _ hm)]
    exact find?_heed_of_untold (h ev (.head _)) m

/-- Collectors that had the same of a leaf, or were told of it, have the same of it. -/
theorem find?_follow_congr {events : List Event} {m m' : Mirror}
    (h : m.find? path = m'.find? path ∨ ∃ ev ∈ events, ev.Tells r s path) :
    (follow r s events m).find? path = (follow r s events m').find? path := by
  induction events generalizing m m' with
  | nil =>
    rcases h with h | ⟨ev, hm, -⟩
    · exact h
    · cases hm
  | cons ev events ih =>
    change (follow r s events (m.heed r s ev)).find? path =
      (follow r s events (m'.heed r s ev)).find? path
    apply ih
    by_cases ht : ev.Tells r s path
    · exact .inl (find?_heed_of_tells ht m m')
    · rcases h with h | ⟨ev', hm, ht'⟩
      · left
        rw [find?_heed_of_untold ht, find?_heed_of_untold ht, h]
      · right
        rcases List.mem_cons.1 hm with rfl | hm
        · exact absurd ht' ht
        · exact ⟨ev', hm, ht'⟩

/-- A leaf that is told, always with the same text, has that text. -/
theorem find?_follow_of_update {events : List Event} {text : String}
    (told : ∃ ev ∈ events, ev.Tells r s path)
    (same : ∀ ev ∈ events, ev.Tells r s path → ev = .update r s path text) (m : Mirror) :
    (follow r s events m).find? path = some text := by
  -- a collector that has the leaf with that text keeps it
  suffices hkeep : ∀ m : Mirror, m.find? path = some text →
      (follow r s events m).find? path = some text by
    have hother : (follow r s events m).find? path =
        (follow r s events (m.insert path text)).find? path := find?_follow_congr (.inr told)
    rw [hother]
    exact hkeep _ (SortedMap.find?_insert_self ..)
  clear told
  induction events with
  | nil => exact fun m hm => hm
  | cons ev events ih =>
    intro m hm
    refine ih (fun ev' hm' => same ev' (.tail _ hm')) (m.heed r s ev) ?_
    by_cases ht : ev.Tells r s path
    · rw [same ev (.head _) ht]
      simp only [heed, and_self, if_true, SortedMap.find?_insert_self]
    · rw [find?_heed_of_untold ht]
      exact hm

end Mirror

/-! ## Samples -/

namespace Sampling

variable {p : Sampling} {now : Nat} {leaves : Leaves} {c : Cache} {path : String}

theorem tells_of_due {v : Json} (hv : leaves.find? path = some v)
    (due : p.isDue now ((c.bucket p.request p.subscription).find? path) v = true) :
    ∃ ev ∈ (p.observe now leaves c).2, ev.Tells p.request p.subscription path := by
  refine ⟨.ofLeaf p.request p.subscription path v, ?_, rfl, rfl, rfl⟩
  rw [events_observe]
  refine List.mem_append_left _ (List.mem_map.2 ⟨(path, v), List.mem_filter.2 ⟨?_, due⟩, rfl⟩)
  exact SortedMap.find?_eq_some.1 hv

theorem tells_of_gone (hv : leaves.find? path = none)
    (cached : ((c.bucket p.request p.subscription).find? path).isSome) :
    ∃ ev ∈ (p.observe now leaves c).2, ev.Tells p.request p.subscription path := by
  refine ⟨.delete p.request p.subscription path, ?_, rfl, rfl, rfl⟩
  rw [events_observe]
  refine List.mem_append_right _ (List.mem_map.2 ⟨path, mem_vanished.2 ⟨?_, hv⟩, rfl⟩)
  exact SortedMap.mem_keys.2 cached

/-- What a sample says nothing of stays as it is. -/
theorem find?_observe_of_untold
    (untold : ∀ ev ∈ (p.observe now leaves c).2, ¬ev.Tells p.request p.subscription path) :
    ((p.observe now leaves c).1.bucket p.request p.subscription).find? path =
      (c.bucket p.request p.subscription).find? path := by
  rw [find?_observe]
  cases hv : leaves.find? path with
  | none =>
    cases hc : (c.bucket p.request p.subscription).find? path with
    | none => rfl
    | some o =>
      have hcached : ((c.bucket p.request p.subscription).find? path).isSome := by
        rw [hc]
        rfl
      obtain ⟨ev, hm, ht⟩ := tells_of_gone hv hcached
      exact absurd ht (untold ev hm)
  | some v =>
    dsimp only
    split
    · next due =>
      obtain ⟨ev, hm, ht⟩ := tells_of_due hv due
      exact absurd ht (untold ev hm)
    · rfl

/-- Without suppression a sample says something of every leaf that it has. -/
theorem tells_of_unsuppressed (hs : p.suppress = false) {v : Json}
    (hv : leaves.find? path = some v) :
    ∃ ev ∈ (p.observe now leaves c).2, ev.Tells p.request p.subscription path := by
  refine tells_of_due hv ?_
  simp [isDue, hs]

end Sampling

/-! ## Starts -/

namespace Engine

variable {h : Handle} {readings : List Snapshot.Reading} {sid : Nat} {first : Leaves}
  {path : String}

/-- What a start says of a leaf: its value, unless the request wants later changes only. -/
theorem tells_opening (hn : (readings.map (·.1)).Nodup) (hm : (sid, first) ∈ readings)
    {ev : Event} : ev ∈ opening h readings ∧ ev.Tells h.id sid path ↔
      h.request.updatesOnly = false ∧
        ∃ v, first.find? path = some v ∧ ev = .ofLeaf h.id sid path v := by
  constructor
  · rintro ⟨hev, ht⟩
    rcases List.mem_append.1 hev with hev | hev
    · cases hu : h.request.updatesOnly with
      | true =>
        rw [hu] at hev
        cases hev
      | false =>
        rw [hu] at hev
        obtain ⟨reading, hr, hev⟩ := List.mem_flatMap.1 hev
        obtain ⟨⟨path', v⟩, hl, rfl⟩ := List.mem_map.1 hev
        obtain ⟨-, hsid, rfl⟩ := ht
        obtain rfl := List.inj_on_of_nodup_map hn hr hm hsid
        exact ⟨rfl, v, SortedMap.find?_eq_some.2 hl, rfl⟩
    · rw [List.mem_singleton.1 hev] at ht
      exact ht.elim
  · rintro ⟨hu, v, hv, rfl⟩
    refine ⟨List.mem_append_left _ ?_, rfl, rfl, rfl⟩
    rw [hu]
    refine List.mem_flatMap.2 ⟨(sid, first), hm, List.mem_map.2 ⟨(path, v), ?_, rfl⟩⟩
    exact SortedMap.find?_eq_some.1 hv

/-- A collector that hears a start has of every leaf what was read, and of the others what it had. -/
theorem find?_follow_opening (hn : (readings.map (·.1)).Nodup) (hm : (sid, first) ∈ readings)
    (told : h.request.updatesOnly = false) (m : Mirror) :
    (Mirror.follow h.id sid (opening h readings) m).find? path =
      ((first.find? path).map Json.compact).or (m.find? path) := by
  cases hv : first.find? path with
  | none =>
    refine Mirror.find?_follow_of_untold (fun ev hev ht => ?_) m
    obtain ⟨-, v, hv', -⟩ := (tells_opening hn hm).1 ⟨hev, ht⟩
    rw [hv] at hv'
    cases hv'
  | some v =>
    refine Mirror.find?_follow_of_update ?_ (fun ev hev ht => ?_) m
    · exact ⟨_, (tells_opening hn hm).2 ⟨told, v, hv, rfl⟩⟩
    · obtain ⟨-, v', hv', rfl⟩ := (tells_opening hn hm).1 ⟨hev, ht⟩
      rw [hv] at hv'
      cases hv'
      rfl

/-! ## What is said after a start -/

variable {s : Setup} {sub : Subscription} {e e' : Engine} {ns : List Note}

/-- What the notifications `new` have told of a subscription since engine `e`, when the notes `ns`
were taken on the way. -/
structure Spoken (s : Setup) (h : Handle) (sub : Subscription) (e : Engine) (ns : List Note)
    (new : List (Notification Event)) (e' : Engine) : Prop where
  sent : e'.datastore.sent = e.datastore.sent ++ new
  /-- A leaf that they did not tell of is cached as it was. -/
  kept : ∀ {path}, (∀ ev ∈ new.map (·.event), ¬ev.Tells h.id sub.id path) →
    (e'.cache.bucket h.id sub.id).find? path = (e.cache.bucket h.id sub.id).find? path
  /-- Without suppression they told of every leaf of the last sample. -/
  every : (Sampling.ofSubscription h.id sub s.least).suppress = false → ∀ {last path v},
    (Note.samples (.ofSubscription h.id sub s.least) ns).getLast? = some last →
    last.find? path = some v → ∃ ev ∈ new.map (·.event), ev.Tells h.id sub.id path

theorem Spoken.begin : Spoken s h sub e [] [] e :=
  ⟨(List.append_nil _).symm, fun _ => rfl, fun _ {last path v} hl => by cases hl⟩

theorem Spoken.heard {e₀ : Engine} {ns' : List Note} {new : List (Notification Event)}
    (hs : Spoken s h sub e₀ ns new e) (hd : e.datastore.Delivers) (hh : Heard s h sub e ns' e') :
    ∃ new', Spoken s h sub e₀ (ns ++ ns') (new ++ new') e' := by
  -- what was told before stays told, and what was not told at all was not told before
  have told {new' : List (Notification Event)} {path : String}
      (ht : ∃ ev ∈ new.map (·.event), ev.Tells h.id sub.id path) :
      ∃ ev ∈ (new ++ new').map (·.event), ev.Tells h.id sub.id path := by
    obtain ⟨ev, hev, ht⟩ := ht
    exact ⟨ev, by rw [List.map_append]; exact List.mem_append_left _ hev, ht⟩
  have kept {new' : List (Notification Event)} {path : String}
      (huntold : ∀ ev ∈ (new ++ new').map (·.event), ¬ev.Tells h.id sub.id path) :
      (e.cache.bucket h.id sub.id).find? path = (e₀.cache.bucket h.id sub.id).find? path := by
    rw [List.map_append] at huntold
    exact hs.kept fun ev hev => huntold ev (List.mem_append_left _ hev)
  cases hh with
  | quiet samples bucket sent =>
    obtain ⟨new', hnew', -⟩ := sent
    refine ⟨new', by rw [hnew', hs.sent, List.append_assoc], fun huntold => ?_,
      fun hsup {last path v} hl hv => ?_⟩
    · rw [bucket]
      exact kept huntold
    · rw [Note.samples_append, samples, List.append_nil] at hl
      exact told (hs.every hsup hl hv)
  | @sample leaves samples observed =>
    have hsent : (e.datastore.sendAll e.now s.topic
        ((Sampling.ofSubscription h.id sub s.least).observe e.now leaves e.cache).2).sent = _ :=
      hd.sendAll_sent _
    rw [observed, observe_eq]
    refine ⟨_, hsent.trans (by rw [hs.sent, List.append_assoc]), fun huntold => ?_,
      fun hsup {last path v} hl hv => ?_⟩
    · refine (Sampling.find?_observe_of_untold fun ev hev => huntold ev ?_).trans (kept huntold)
      rw [List.map_append, Datastore.map_event]
      exact List.mem_append_right _ hev
    · rw [Note.samples_append, samples, List.getLast?_concat] at hl
      obtain rfl := Option.some.inj hl
      have htells : ∃ ev ∈ ((Sampling.ofSubscription h.id sub s.least).observe e.now leaves
          e.cache).2, ev.Tells h.id sub.id path := Sampling.tells_of_unsuppressed hsup hv
      obtain ⟨ev, hev, ht⟩ := htells
      refine ⟨ev, ?_, ht⟩
      rw [List.map_append, Datastore.map_event]
      exact List.mem_append_right _ hev

end Engine

/-- What is said of a subscription while its loop runs. -/
theorem System.Run.spoken {s : Setup} {h : Handle} {sub : Subscription} {ref : Nat}
    {y z : System} {ns : List Note} (g : Good s y)
    (hw : Engine.Watched s h sub ref y.engine)
    (r : Run s (fun z => (z.engine.loops.find? ref).isSome ∧ z.engine.datastore.Delivers) y ns z) :
    ∃ new, Engine.Spoken s h sub y.engine ns new z.engine := by
  refine (Run.watch (K := fun ns e => ∃ new, Engine.Spoken s h sub y.engine ns new e) ⟨[], .begin⟩
    (fun hk hd hheard => ?_) g hw r).2
  obtain ⟨new, hs⟩ := hk
  obtain ⟨new', hs'⟩ := hs.heard hd hheard
  exact ⟨_, hs'⟩

end Telemetry
