import Telemetry.Proofs.Stores
import Telemetry.Snapshot

/-!
# What samples and snapshots report

A sample and a snapshot of a subscription write one bucket of the cache and report on that bucket
alone. `Cache.ChangesAt` is the frame they share.

* `Sampling.find?_observe`, `Sampling.events_observe`: leaf by leaf, what a sample leaves in its
  bucket and the events it reports.
* `Snapshot.events_takeAll`: the events of a snapshot, subscription by subscription.
* `Snapshot.bucket_takeAll_self`: a first snapshot leaves exactly the leaves that were read, and so
  does any snapshot that drops what is gone.
-/
namespace Telemetry

/-! ## Frames -/

/-- Only the bucket of one subscription differs, and no bucket is left empty. -/
structure Cache.ChangesAt (r s : Nat) (c c' : Cache) : Prop where
  other : ∀ r' s', ¬(r' = r ∧ s' = s) → c'.bucket r' s' = c.bucket r' s'
  tidy : c.Tidy → c'.Tidy

namespace Cache.ChangesAt

variable {r s : Nat} {c c' c'' : Cache}

theorem refl (c : Cache) : c.ChangesAt r s c := ⟨fun _ _ _ => rfl, id⟩

theorem trans (h : c.ChangesAt r s c') (h' : c'.ChangesAt r s c'') : c.ChangesAt r s c'' :=
  ⟨fun r' s' hk => (h'.other r' s' hk).trans (h.other r' s' hk), fun ht => h'.tidy (h.tidy ht)⟩

theorem set (c : Cache) (now r s : Nat) (path : String) (v : Json) :
    c.ChangesAt r s (c.set now r s path v) :=
  ⟨fun r' s' hk => by rw [bucket_set, if_neg hk], fun ht => ht.set ..⟩

theorem drop (c : Cache) (r s : Nat) (path : String) : c.ChangesAt r s (c.drop r s path) :=
  ⟨fun r' s' hk => by rw [bucket_drop, if_neg hk], fun ht => ht.drop ..⟩

end Cache.ChangesAt

/-- Events about one subscription of a request. -/
def Event.about (r s : Nat) : Event → Prop
  | .update r' s' .. | .delete r' s' _ => r' = r ∧ s' = s
  | .sync _ => False

instance (r s : Nat) : DecidablePred (Event.about r s)
  | .update r' s' .. | .delete r' s' _ => inferInstanceAs (Decidable (r' = r ∧ s' = s))
  | .sync _ => inferInstanceAs (Decidable False)

theorem Event.about.request {r s : Nat} {ev : Event} (h : ev.about r s) : ev.request = r := by
  cases ev with
  | update => exact h.1
  | delete => exact h.1
  | sync => exact h.elim

/-! ## Samples -/

namespace Sampling

theorem report_changesAt (p : Sampling) (now : Nat) :
    ∀ l c, Cache.ChangesAt p.request p.subscription c (p.report now l c).1
  | [], c => .refl c
  | (path, value) :: rest, c => by
    unfold report
    split
    · exact (Cache.ChangesAt.set c now _ _ path value).trans (report_changesAt p now rest _)
    · exact report_changesAt p now rest c

theorem retract_changesAt (r s : Nat) :
    ∀ l c, Cache.ChangesAt r s c (retract r s l c).1
  | [], c => .refl c
  | path :: rest, c => (Cache.ChangesAt.drop c r s path).trans (retract_changesAt r s rest _)

theorem observe_changesAt (p : Sampling) (now : Nat) (leaves : Leaves) (c : Cache) :
    Cache.ChangesAt p.request p.subscription c (p.observe now leaves c).1 :=
  (report_changesAt p now leaves.entries c).trans (retract_changesAt _ _ _ _)

/-- What a report makes of the cached leaf at a path: leaves that are due are recorded anew. -/
theorem find?_report (p : Sampling) (now : Nat) (path : String) :
    ∀ (l : List (String × Json)) (c : Cache), (l.map (·.1)).Nodup →
      ((p.report now l c).1.bucket p.request p.subscription).find? path =
        match SortedMap.lookup path l with
        | none => (c.bucket p.request p.subscription).find? path
        | some v =>
          if p.isDue now ((c.bucket p.request p.subscription).find? path) v then some ⟨v, now⟩
          else (c.bucket p.request p.subscription).find? path
  | [], c, _ => rfl
  | (path₀, v₀) :: rest, c, hl => by
    obtain ⟨hne, hrest⟩ := List.nodup_cons.1 hl
    have habsent : SortedMap.lookup path₀ rest = none :=
      SortedMap.lookup_eq_none.2 fun e he h => hne (List.mem_map.2 ⟨e, he, h⟩)
    unfold report
    rw [Cache.get?_eq]
    by_cases hk : path = path₀
    · subst hk
      simp only [SortedMap.lookup, Std.ReflOrd.compare_self, if_true]
      split
      · next hd =>
        simp [find?_report p now path rest _ hrest, habsent, Cache.bucket_set]
      · next hd => simp [find?_report p now path rest _ hrest, habsent]
    · have hc : compare path path₀ ≠ .eq := fun h => hk (Std.LawfulEqOrd.eq_of_compare h)
      simp only [SortedMap.lookup, hc, if_false]
      split
      · simp [find?_report p now path rest _ hrest, Cache.bucket_set,
          SortedMap.find?_insert_of_ne _ hk]
      · exact find?_report p now path rest _ hrest

/-- The events of a report: an update for every leaf that is due, in order. -/
theorem events_report (p : Sampling) (now : Nat) :
    ∀ (l : List (String × Json)) (c : Cache), (l.map (·.1)).Nodup →
      (p.report now l c).2 =
        (l.filter fun e =>
          p.isDue now ((c.bucket p.request p.subscription).find? e.1) e.2).map fun e =>
            Event.ofLeaf p.request p.subscription e.1 e.2
  | [], _, _ => rfl
  | (path₀, v₀) :: rest, c, hl => by
    obtain ⟨hne, hrest⟩ := List.nodup_cons.1 hl
    unfold report
    rw [Cache.get?_eq]
    split
    · next hd =>
      have hsame : ∀ e ∈ rest,
          p.isDue now (((c.set now p.request p.subscription path₀ v₀).bucket p.request
            p.subscription).find? e.1) e.2 =
          p.isDue now ((c.bucket p.request p.subscription).find? e.1) e.2 := by
        intro e he
        have hk : e.1 ≠ path₀ := fun h => hne (List.mem_map.2 ⟨e, he, h⟩)
        simp [Cache.bucket_set, SortedMap.find?_insert_of_ne _ hk]
      simp only [events_report p now rest _ hrest, List.filter_cons, hd, if_true, List.map_cons]
      rw [List.filter_congr hsame]
    · next hd =>
      simp only [events_report p now rest _ hrest, List.filter_cons, hd, if_false,
        Bool.false_eq_true]

theorem find?_retract (r s : Nat) (path : String) :
    ∀ (l : List String) (c : Cache), ((retract r s l c).1.bucket r s).find? path =
      if path ∈ l then none else (c.bucket r s).find? path
  | [], c => by simp [retract]
  | path₀ :: rest, c => by
    simp only [retract, find?_retract r s path rest, Cache.bucket_drop, and_self, if_true,
      SortedMap.find?_erase, List.mem_cons]
    by_cases hk : path = path₀ <;> by_cases hm : path ∈ rest <;> simp [hk, hm]

theorem events_retract (r s : Nat) :
    ∀ (l : List String) (c : Cache), (retract r s l c).2 = l.map (Event.delete r s)
  | [], _ => rfl
  | path :: rest, c => by simp [retract, events_retract r s rest]

theorem keys_nodup (leaves : Leaves) : (leaves.entries.map (·.1)).Nodup := by
  rw [List.Nodup, List.pairwise_map]
  exact leaves.sorted.imp fun {a b} hlt heq => by simp [heq] at hlt

theorem mem_vanished {cached : List String} {leaves : Leaves} {path : String} :
    path ∈ vanished cached leaves ↔ path ∈ cached ∧ leaves.find? path = none := by
  simp [vanished, SortedMap.contains]

/-- What a sample leaves of the leaf at a path: nothing if it is gone, the value seen if it was
reported, and else what there was. -/
theorem find?_observe (p : Sampling) (now : Nat) (leaves : Leaves) (c : Cache) (path : String) :
    ((p.observe now leaves c).1.bucket p.request p.subscription).find? path =
      match leaves.find? path with
      | none => none
      | some v =>
        if p.isDue now ((c.bucket p.request p.subscription).find? path) v then some ⟨v, now⟩
        else (c.bucket p.request p.subscription).find? path := by
  simp only [observe, find?_retract, mem_vanished, find?_report p now path _ c (keys_nodup leaves)]
  change (if _ then _ else match leaves.find? path with | none => _ | some v => _) = _
  cases hv : leaves.find? path with
  | some v => simp
  | none =>
    simp only [and_true, Cache.list, SortedMap.mem_keys]
    cases (c.bucket p.request p.subscription).find? path <;> simp

/-- The events of a sample: an update for every leaf that is due, in path order, and then a
deletion for every leaf that is gone. -/
theorem events_observe (p : Sampling) (now : Nat) (leaves : Leaves) (c : Cache) :
    (p.observe now leaves c).2 =
      ((leaves.entries.filter fun e =>
        p.isDue now ((c.bucket p.request p.subscription).find? e.1) e.2).map fun e =>
          Event.ofLeaf p.request p.subscription e.1 e.2) ++
      (vanished (c.list p.request p.subscription) leaves).map
        (Event.delete p.request p.subscription) := by
  simp only [observe, events_report p now _ c (keys_nodup leaves), events_retract]

theorem about_observe (p : Sampling) (now : Nat) (leaves : Leaves) (c : Cache) {ev : Event}
    (h : ev ∈ (p.observe now leaves c).2) : ev.about p.request p.subscription := by
  rw [events_observe, List.mem_append, List.mem_map, List.mem_map] at h
  rcases h with ⟨e, -, rfl⟩ | ⟨path, -, rfl⟩
  · exact ⟨rfl, rfl⟩
  · exact ⟨rfl, rfl⟩

end Sampling

/-! ## Snapshots -/

namespace Snapshot

theorem store_changesAt (now r s : Nat) :
    ∀ l c, Cache.ChangesAt r s c (store now r s l c)
  | [], c => .refl c
  | (path, v) :: rest, c => (Cache.ChangesAt.set c now r s path v).trans (store_changesAt now r s rest _)

theorem find?_store (now r s : Nat) (path : String) :
    ∀ (l : List (String × Json)) (c : Cache), (l.map (·.1)).Nodup →
      ((store now r s l c).bucket r s).find? path =
        match SortedMap.lookup path l with
        | none => (c.bucket r s).find? path
        | some v => some ⟨v, now⟩
  | [], c, _ => rfl
  | (path₀, v₀) :: rest, c, hl => by
    obtain ⟨hne, hrest⟩ := List.nodup_cons.1 hl
    have habsent : SortedMap.lookup path₀ rest = none :=
      SortedMap.lookup_eq_none.2 fun e he h => hne (List.mem_map.2 ⟨e, he, h⟩)
    change ((store now r s rest (c.set now r s path₀ v₀)).bucket r s).find? path = _
    rw [find?_store now r s path rest _ hrest, Cache.bucket_set, if_pos ⟨rfl, rfl⟩]
    by_cases hk : path = path₀
    · subst hk
      simp [habsent, SortedMap.lookup]
    · have hc : compare path path₀ ≠ .eq := fun h => hk (Std.LawfulEqOrd.eq_of_compare h)
      simp [SortedMap.lookup, hc, SortedMap.find?_insert_of_ne _ hk]

theorem take_changesAt (scope : Scope) (now r : Nat) (reading : Reading) (c : Cache) :
    Cache.ChangesAt r reading.1 c (take scope now r reading c).1 := by
  unfold take
  simp only
  split
  · exact (store_changesAt now r _ _ c).trans (Sampling.retract_changesAt _ _ _ _)
  · exact store_changesAt now r _ _ c

theorem about_take (scope : Scope) (now r : Nat) (reading : Reading) (c : Cache) {ev : Event}
    (h : ev ∈ (take scope now r reading c).2) : ev.about r reading.1 := by
  have hupdates {ev : Event} (h : ev ∈ if scope.updates then
      reading.2.entries.map fun l => Event.ofLeaf r reading.1 l.1 l.2 else []) :
      ev.about r reading.1 := by
    split at h
    · obtain ⟨l, -, rfl⟩ := List.mem_map.1 h
      exact ⟨rfl, rfl⟩
    · cases h
  unfold take at h
  simp only at h
  split at h
  · rcases List.mem_append.1 h with h | h
    · exact hupdates h
    · rw [Sampling.events_retract] at h
      obtain ⟨path, -, rfl⟩ := List.mem_map.1 h
      exact ⟨rfl, rfl⟩
  · exact hupdates h

/-- A snapshot writes only the buckets of the subscriptions it reads. -/
theorem bucket_takeAll_of_notMem (scope : Scope) (now r : Nat) {r' s' : Nat} :
    ∀ (readings : List Reading) (c : Cache), ¬(r' = r ∧ s' ∈ readings.map (·.1)) →
      (takeAll scope now r readings c).1.bucket r' s' = c.bucket r' s'
  | [], _, _ => rfl
  | reading :: rest, c, h => by
    simp only [List.map_cons, List.mem_cons, not_and, not_or] at h
    simp only [takeAll]
    rw [bucket_takeAll_of_notMem scope now r rest _ fun hm => (h hm.1).2 hm.2]
    exact (take_changesAt scope now r reading c).other r' s' fun hm => (h hm.1).1 hm.2

theorem tidy_takeAll (scope : Scope) (now r : Nat) :
    ∀ (readings : List Reading) (c : Cache), c.Tidy → (takeAll scope now r readings c).1.Tidy
  | [], _, h => h
  | reading :: rest, c, h =>
    tidy_takeAll scope now r rest _ ((take_changesAt scope now r reading c).tidy h)

theorem request_takeAll (scope : Scope) (now r : Nat) {ev : Event} :
    ∀ (readings : List Reading) (c : Cache), ev ∈ (takeAll scope now r readings c).2 →
      ev.request = r
  | [], _, h => by cases h
  | reading :: rest, c, h => by
    rcases List.mem_append.1 h with h | h
    · exact (about_take scope now r reading c h).request
    · exact request_takeAll scope now r rest _ h

/-- What a snapshot reports of one subscription: an update for every leaf, in path order, and then a
deletion for every cached leaf that is gone. -/
def reported (scope : Scope) (r : Nat) (c : Cache) (reading : Reading) : List Event :=
  (if scope.updates then
    reading.2.entries.map fun l => Event.ofLeaf r reading.1 l.1 l.2
  else []) ++
  (if scope.deletes then
    (Sampling.vanished (c.list r reading.1) reading.2).map (Event.delete r reading.1)
  else [])

theorem events_take (scope : Scope) (now r : Nat) (reading : Reading) (c : Cache) :
    (take scope now r reading c).2 = reported scope r c reading := by
  unfold take reported
  cases scope.deletes with
  | false => simp
  | true => simp [Sampling.events_retract]

theorem events_takeAll (scope : Scope) (now r : Nat) :
    ∀ (readings : List Reading) (c : Cache), (readings.map (·.1)).Nodup →
      (takeAll scope now r readings c).2 = readings.flatMap (reported scope r c)
  | [], _, _ => rfl
  | first :: rest, c, hn => by
    obtain ⟨hne, hrest⟩ := List.nodup_cons.1 hn
    -- the first snapshot writes no bucket that a later one looks at
    have hlater : ∀ reading ∈ rest,
        reported scope r (take scope now r first c).1 reading = reported scope r c reading := by
      intro reading hm
      have hid : reading.1 ≠ first.1 := fun h => hne (List.mem_map.2 ⟨reading, hm, h⟩)
      have hlist : (take scope now r first c).1.list r reading.1 = c.list r reading.1 := by
        unfold Cache.list
        rw [(take_changesAt scope now r first c).other r reading.1 fun h => hid h.2]
      simp only [reported, hlist]
    simp only [takeAll, events_takeAll scope now r rest _ hrest, events_take, List.flatMap_cons]
    rw [List.flatMap_def, List.map_congr_left hlater, ← List.flatMap_def]

/-- What a snapshot leaves of the leaf at a path: what was read, and where nothing was, what there was
unless it drops what is gone. -/
theorem find?_take (scope : Scope) (now r : Nat) (reading : Reading) (c : Cache) (path : String) :
    ((take scope now r reading c).1.bucket r reading.1).find? path =
      match reading.2.find? path with
      | some v => some ⟨v, now⟩
      | none => if scope.deletes then none else (c.bucket r reading.1).find? path := by
  have hstore := find?_store now r reading.1 path _ c (Sampling.keys_nodup reading.2)
  change _ = match reading.2.find? path with | none => _ | some v => _ at hstore
  unfold take
  cases hd : scope.deletes with
  | false =>
    simp only [Bool.false_eq_true, if_false, hstore]
    cases reading.2.find? path <;> rfl
  | true =>
    simp only [if_true, Sampling.find?_retract, hstore, Sampling.mem_vanished, Cache.list,
      SortedMap.mem_keys]
    cases reading.2.find? path with
    | some v => simp
    | none => cases (c.bucket r reading.1).find? path <;> simp

/-- A snapshot that starts from nothing, or that drops what is gone, leaves exactly the leaves that
were read. -/
theorem bucket_take_self (scope : Scope) (now r : Nat) (reading : Reading) (c : Cache)
    (h : scope.deletes = true ∨ c.bucket r reading.1 = .empty) :
    (take scope now r reading c).1.bucket r reading.1 = reading.2.map fun _ v => ⟨v, now⟩ := by
  refine SortedMap.ext_find? fun path => ?_
  rw [SortedMap.find?_map, find?_take]
  cases reading.2.find? path with
  | some v => rfl
  | none =>
    rcases h with hd | hempty
    · simp only [hd, if_true, Option.map_none]
    · rw [hempty]
      exact ite_self _

theorem bucket_takeAll_self (scope : Scope) (now r : Nat) {reading : Reading} :
    ∀ (readings : List Reading) (c : Cache), (readings.map (·.1)).Nodup → reading ∈ readings →
      (scope.deletes = true ∨ c.bucket r reading.1 = .empty) →
      (takeAll scope now r readings c).1.bucket r reading.1 = reading.2.map fun _ v => ⟨v, now⟩
  | first :: rest, c, hn, hm, hc => by
    obtain ⟨hne, hrest⟩ := List.nodup_cons.1 hn
    simp only [takeAll]
    rcases List.mem_cons.1 hm with rfl | hm
    · rw [bucket_takeAll_of_notMem _ now r rest _ fun h => hne h.2]
      exact bucket_take_self scope now r _ c hc
    · have hs : reading.1 ≠ first.1 := fun h => hne (List.mem_map.2 ⟨reading, hm, h⟩)
      refine bucket_takeAll_self scope now r rest _ hrest hm (hc.imp_right fun hc => ?_)
      rw [(take_changesAt scope now r first c).other r reading.1 fun h => hs h.2, hc]

/-- The first snapshot of a request: every bucket is what was read for it. -/
theorem bucket_takeAll (updates : Bool) (now r : Nat) {reading : Reading} (readings : List Reading)
    (c : Cache) (hn : (readings.map (·.1)).Nodup) (hm : reading ∈ readings)
    (hc : c.bucket r reading.1 = .empty) :
    (takeAll ⟨updates, false⟩ now r readings c).1.bucket r reading.1 =
      reading.2.map fun _ v => ⟨v, now⟩ :=
  bucket_takeAll_self _ now r readings c hn hm (.inr hc)

end Snapshot

end Telemetry
