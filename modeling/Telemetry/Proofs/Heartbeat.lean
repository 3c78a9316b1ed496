import Mathlib.Data.List.Chain
import Telemetry.Proofs.Suppression

/-!
# How long a loop is silent

A leaf that is there in every sample of a suppressing loop with a heartbeat is reported again and
again. The reports are dated by the samples, and the first snapshot counts as one.

* `Sampling.silent_lt`: while a leaf is not reported, the last report is less than a heartbeat
  interval old. So a report is never late by more than one sample (`Sampling.Attended.gap_lt`).
* `Sampling.Attended.le_gap`: a report of the same value is never early.
* `Sampling.Attended.gap_least`: at an exact period a leaf that does not change is reported at the
  first multiple of the period that is a heartbeat interval or more.
* `System.heartbeat_bounds`: all three, for every subscription of every STREAM request.
-/
namespace Telemetry

namespace Sampling

/-- A leaf is there in every sample, and no sample is taken more than `gap` after the one before. -/
structure Attended (path : String) (gap : Nat) (shots : List Shot) : Prop where
  present : ∀ x ∈ shots, ∃ v, x.leaf? path = some v
  close : shots.IsChain fun x y => x.time ≤ y.time ∧ y.time ≤ x.time + gap

variable {p : Sampling} {path : String} {gap beat : Nat} {c : Cache} {first : Round}
  {xs : List Shot} {a b d : List Round} {x y z : Round} {v w : Json}

theorem leaf_of_present {leaves : Leaves} (hx : ∃ v, x.leaf? path = some v)
    (hok : x.answer = .ok leaves) : (leaves.find? path).isSome := by
  obtain ⟨v, hv⟩ := hx
  rw [Shot.leaf?, hok] at hv
  rw [show leaves.find? path = some v from hv]
  rfl

/-- A suppressing loop with a heartbeat reports a leaf if its value is new or the last report is
old. -/
theorem isDue_beat (hs : p.suppress = true) (hb : p.heartbeat = some beat) {now : Nat}
    {o : Observed} : p.isDue now (some o) v = true ↔ o.value.same v = false ∨ o.time + beat ≤ now := by
  simp [isDue, hs, hb]

/-- What was played was attended. -/
theorem Attended.rounds (ha : Attended path gap (first.toShot :: xs)) :
    Attended path gap ((first :: (p.play xs c).2).map (·.toShot)) := by
  rwa [List.map_cons, shots_play]

/-- As long as a leaf is not reported, its last report is less than a heartbeat interval old. -/
theorem Attended.silent_lt (hs : p.suppress = true) (hb : p.heartbeat = some beat)
    (hr : p.Recalls [first] c) (ha : Attended path gap (first.toShot :: xs))
    (heq : first :: (p.play xs c).2 = a ++ x :: (b ++ d)) (hu : p.Updates path x)
    (hno : ∀ z ∈ b, ¬p.Updates path z) (hz : z ∈ b) : z.time < x.time + beat := by
  have hpresent {z : Round} (hz : z ∈ x :: (b ++ d)) : ∃ v, z.leaf? path = some v :=
    (ha.rounds (p := p) (c := c)).present _
      (List.mem_map_of_mem (heq ▸ List.mem_append_right a hz))
  obtain ⟨v, hv⟩ := hpresent (List.mem_cons_self ..)
  obtain ⟨w, hw⟩ := hpresent (.tail _ (List.mem_append_left d hz))
  obtain ⟨b₁, b₂, rfl⟩ := List.append_of_mem hz
  have hstand : p.standing path (a ++ x :: b₁) = some ⟨v, x.time⟩ :=
    standing_of_present hu hv (fun z' hz' => hno z' (List.mem_append_left _ hz'))
      fun z' hz' _ hok => leaf_of_present (hpresent (by simp [hz'])) hok
  have hdue := due_of_update (b := b₁) (d := b₂ ++ d) hr (by simpa using heq) hstand hw
  rw [isDue_beat hs hb] at hdue
  have hnot := fun hlate => hno z (by simp) (hdue.2 (.inr hlate))
  exact Nat.lt_of_not_le hnot

/-- No round is later than it may be. -/
theorem Attended.next_le (ha : Attended path gap (first.toShot :: xs))
    (heq : first :: (p.play xs c).2 = a ++ x :: y :: d) : y.time ≤ x.time + gap := by
  have hclose := (ha.rounds (p := p) (c := c)).close
  rw [heq, List.map_append, List.map_cons, List.map_cons] at hclose
  exact (List.isChain_append_cons_cons.1 hclose).2.1.2

/-- From one report to the next it takes less than a heartbeat interval and the time between two
samples. -/
theorem Attended.gap_lt (hs : p.suppress = true) (hb : p.heartbeat = some beat) (hpos : 0 < beat)
    (hr : p.Recalls [first] c) (ha : Attended path gap (first.toShot :: xs))
    (heq : first :: (p.play xs c).2 = a ++ x :: (b ++ y :: d)) (hu : p.Updates path x)
    (hno : ∀ z ∈ b, ¬p.Updates path z) : y.time < x.time + beat + gap := by
  -- the sample before the next report is the last report, or it was silent
  rcases List.eq_nil_or_concat b with rfl | ⟨b', z, rfl⟩
  · have hnext := ha.next_le heq
    omega
  · have hearly := ha.silent_lt hs hb hr heq hu hno (z := z) (by simp)
    have hnext := ha.next_le (a := a ++ x :: b') (x := z) (y := y) (d := d) (by simpa using heq)
    omega

/-- A report that only repeats the last one is a heartbeat interval or more after it. -/
theorem Attended.le_gap (hs : p.suppress = true) (hb : p.heartbeat = some beat)
    (hr : p.Recalls [first] c) (ha : Attended path gap (first.toShot :: xs))
    (heq : first :: (p.play xs c).2 = a ++ x :: (b ++ y :: d)) (hu : p.Updates path x)
    (hno : ∀ z ∈ b, ¬p.Updates path z) (hu' : p.Updates path y) (hv : x.leaf? path = some v)
    (hw : y.leaf? path = some w) (hsame : v.same w = true) : x.time + beat ≤ y.time := by
  have hpresent {z : Round} (hz : z ∈ b) : ∃ v, z.leaf? path = some v :=
    (ha.rounds (p := p) (c := c)).present _ (List.mem_map_of_mem (by simp [heq, hz]))
  have hstand := standing_of_present (a := a) hu hv hno fun z hz _ hok =>
    leaf_of_present (hpresent hz) hok
  have hdue := (due_of_update hr heq hstand hw).1 hu'
  rw [isDue_beat hs hb, hsame] at hdue
  exact hdue.resolve_left Bool.noConfusion

/-- When samples are an exact period apart and the leaf does not change, it takes the least number of
periods that make a heartbeat interval. -/
theorem Attended.gap_least (hs : p.suppress = true) (hb : p.heartbeat = some beat) (hpos : 0 < beat)
    (hr : p.Recalls [first] c) (ha : Attended path gap (first.toShot :: xs))
    (heq : first :: (p.play xs c).2 = a ++ x :: (b ++ y :: d)) (hu : p.Updates path x)
    (hno : ∀ z ∈ b, ¬p.Updates path z) (hu' : p.Updates path y)
    (periodic : ∀ {i z}, (first.toShot :: xs)[i]? = some z → z.time = first.time + i * gap)
    (unchanged : ∀ {x y v w}, x ∈ first.toShot :: xs → y ∈ first.toShot :: xs →
      x.leaf? path = some v → y.leaf? path = some w → v.same w = true) :
    ∃ n, y.time = x.time + n * gap ∧ beat ≤ n * gap ∧ ∀ m, beat ≤ m * gap → n ≤ m := by
  have hshots : first.toShot :: xs = (a ++ x :: (b ++ y :: d)).map (·.toShot) := by
    rw [← heq, List.map_cons, shots_play]
  -- the times of the report, of the silent samples after it and of the next report
  have htime {i : Nat} {z : Round} (hz : (x :: (b ++ y :: d))[i]? = some z) :
      z.time = first.time + (a.length + i) * gap := by
    refine periodic (z := z.toShot) ?_
    rw [hshots, List.getElem?_map, List.getElem?_append_right (Nat.le_add_right ..),
      Nat.add_sub_cancel_left, hz]
    rfl
  have hx : x.time = first.time + a.length * gap := htime (i := 0) rfl
  have hy : y.time = first.time + (a.length + (b.length + 1)) * gap :=
    htime (by rw [List.getElem?_cons_succ, List.getElem?_append_right (Nat.le_refl _)]; simp)
  have hmem {z : Round} (hz : z ∈ x :: (b ++ y :: d)) : z.toShot ∈ first.toShot :: xs := by
    rw [hshots]
    exact List.mem_map_of_mem (List.mem_append_right a hz)
  obtain ⟨v, hv⟩ := ha.present _ (hmem (z := x) (by simp))
  obtain ⟨w, hw⟩ := ha.present _ (hmem (z := y) (by simp))
  have hle := ha.le_gap hs hb hr heq hu hno hu' hv hw
    (unchanged (hmem (by simp)) (hmem (by simp)) hv hw)
  refine ⟨b.length + 1, by rw [hy, hx, Nat.add_mul, Nat.add_assoc], ?_, fun m hm => ?_⟩
  · rw [hy, hx, Nat.add_mul] at hle
    omega
  · -- a smaller multiple would be the time of a silent sample
    refine Nat.le_of_not_lt fun hlt => ?_
    cases m with
    | zero => omega
    | succ m =>
      have hlt : m < b.length := by omega
      have hz : (x :: (b ++ y :: d))[m + 1]? = some b[m] := by
        rw [List.getElem?_cons_succ, List.getElem?_append_left hlt, List.getElem?_eq_getElem hlt]
      have hearly := ha.silent_lt hs hb hr heq hu hno (List.getElem_mem hlt)
      rw [htime hz, hx, Nat.add_mul] at hearly
      omega

theorem heartbeat_ofSubscription (r least : Nat) {sub : Subscription}
    (hbeat : sub.heartbeatInterval = some beat) (hpos : 0 < beat) :
    (ofSubscription r sub least).heartbeat = some beat := by
  have hne : beat ≠ noHeartbeat := Nat.ne_of_gt hpos
  simp [ofSubscription, hbeat, hne]

end Sampling

namespace System

variable {s : Setup} {h : Handle} {sub : Subscription} {x y : System} {ns₀ : List Note}
  {p : Sampling} {beat : Nat}

/-- When a STREAM request starts, each of its subscriptions is played from the first snapshot on. Take
one that suppresses and has a heartbeat, and samples no further apart than `gap` that all have a leaf.
Then the leaf is never silent for a heartbeat interval without being reported by the next sample; from
one report to the next it takes less than a heartbeat interval and the gap; if that report has the
same value, it takes a heartbeat interval or more; and if the gap is an exact period and the value
never changes, it takes the least number of periods that make a heartbeat interval. -/
theorem heartbeat_bounds (hx : Reachable s x) (st : Step s x ns₀ y)
    (stream : h.request.mode = .stream) (before : ¬x.engine.Runs h) (after : y.engine.Runs h)
    (hsub : sub ∈ h.request.subscriptions)
    (suppressing : sub.mode = some .onChange ∨ sub.suppressRedundant = some true)
    (hbeat : sub.heartbeatInterval = some beat) (hpos : 0 < beat)
    (plan : p = .ofSubscription h.id sub s.least) :
    ∃ first ref, Opening s h sub first ref x y ∧
      (∀ {ns z}, Run s (fun z => (z.engine.loops.find? ref).isSome ∧ z.engine.datastore.Delivers)
        y ns z → ∃ new, Engine.Played s p y.engine ns new z.engine) ∧
      ∀ {path : String} {gap : Nat} {shots : List Shot},
        Sampling.Attended path gap (⟨y.engine.now, .ok first⟩ :: shots) →
        ∀ {a b : List Round} {one : Round}, p.Updates path one → (∀ z ∈ b, ¬p.Updates path z) →
          (∀ {d}, .first p y.engine.now first :: (p.play shots y.engine.cache).2 =
              a ++ one :: (b ++ d) → ∀ z ∈ b, z.time < one.time + beat) ∧
          ∀ {two d}, .first p y.engine.now first :: (p.play shots y.engine.cache).2 =
              a ++ one :: (b ++ two :: d) → p.Updates path two →
            two.time < one.time + beat + gap ∧
            (∀ {v w : Json}, one.leaf? path = some v → two.leaf? path = some w →
              v.same w = true → one.time + beat ≤ two.time) ∧
            ((∀ {i : Nat} {z : Shot}, (⟨y.engine.now, .ok first⟩ :: shots)[i]? = some z →
                z.time = y.engine.now + i * gap) →
              (∀ {x' y' : Shot} {v w : Json}, x' ∈ ⟨y.engine.now, .ok first⟩ :: shots →
                y' ∈ ⟨y.engine.now, .ok first⟩ :: shots → x'.leaf? path = some v →
                y'.leaf? path = some w → v.same w = true) →
              ∃ n, two.time = one.time + n * gap ∧ beat ≤ n * gap ∧
                ∀ m, beat ≤ m * gap → n ≤ m) := by
  obtain ⟨first, ref, o⟩ := st.opens hx stream before after hsub
  subst plan
  have hs := Sampling.suppress_ofSubscription h.id s.least suppressing
  have hb := Sampling.heartbeat_ofSubscription h.id s.least hbeat hpos
  have hr : (Sampling.ofSubscription h.id sub s.least).Recalls
      [.first _ y.engine.now first] y.engine.cache := .first o.cached
  refine ⟨first, ref, o, o.played, fun {path gap shots} ha {a b one} hu hno => ⟨fun heq z hz => ?_,
    fun heq hu' => ⟨?_, fun {v w} hv hw hsame => ?_, fun periodic unchanged => ?_⟩⟩⟩
  · exact ha.silent_lt hs hb hr heq hu hno hz
  · exact ha.gap_lt hs hb hpos hr heq hu hno
  · exact ha.le_gap hs hb hr heq hu hno hu' hv hw hsame
  · exact ha.gap_least hs hb hpos hr heq hu hno hu' periodic unchanged

/-- The small engine has read a leaf. It samples every two seconds, and with a heartbeat of three
seconds it reports a leaf that does not change after four. -/
theorem small_heartbeat_bounds : ∃ x y ns first ref, Step Small.setup x ns y ∧
    Opening Small.setup ⟨0, Small.beating⟩ Small.beat first ref x y ∧
    first = .ofList [("/m:c/x", Json.nat 3)] ∧
    (Small.beatPlan.play [⟨y.engine.now + 2_000_000_000, .ok first⟩,
        ⟨y.engine.now + 4_000_000_000, .ok first⟩] y.engine.cache).2.map (·.events) =
      [[], [.update 1 5 "/m:c/x" "3"]] ∧
    ∀ {path v b two d}, first.find? path = some v →
      (Small.beatPlan.play [⟨y.engine.now + 2_000_000_000, .ok first⟩,
        ⟨y.engine.now + 4_000_000_000, .ok first⟩] y.engine.cache).2 = b ++ two :: d →
      (∀ z ∈ b, ¬Small.beatPlan.Updates path z) → Small.beatPlan.Updates path two →
      two.time = y.engine.now + 4_000_000_000 := by
  obtain ⟨ns, st, hbefore, hafter⟩ := Small.beating_started
  obtain ⟨first, ref, hopening, -, hall⟩ := heartbeat_bounds (Small.reachable_creating _ 7) st rfl
    hbefore hafter List.mem_cons_self (.inr rfl) rfl (by decide) (p := Small.beatPlan) rfl
  have hread := Small.beating_read hopening
  refine ⟨_, _, ns, first, ref, st, hopening, hread, by rw [hread]; decide +kernel, ?_⟩
  generalize Small.creating Small.beatingCreation 8 = y at hall ⊢
  intro path v b two d hv heq hno hu'
  have hleaf {z : Shot} (hz : z ∈ [⟨y.engine.now, .ok first⟩,
      ⟨y.engine.now + 2_000_000_000, .ok first⟩, ⟨y.engine.now + 4_000_000_000, .ok first⟩]) :
      z.leaf? path = some v := by
    simp only [List.mem_cons, List.not_mem_nil, or_false] at hz
    rcases hz with rfl | rfl | rfl <;> exact hv
  have ha : Sampling.Attended path 2_000_000_000 [⟨y.engine.now, .ok first⟩,
      ⟨y.engine.now + 2_000_000_000, .ok first⟩, ⟨y.engine.now + 4_000_000_000, .ok first⟩] :=
    ⟨fun z hz => ⟨v, hleaf hz⟩, by
      simp only [List.isChain_cons_cons, List.isChain_singleton, and_true]
      omega⟩
  have hu : Small.beatPlan.Updates path (.first Small.beatPlan y.engine.now first) :=
    ⟨v.compact, List.mem_map.2 ⟨(path, v), SortedMap.find?_eq_some.1 hv, rfl⟩⟩
  obtain ⟨n, htime, hle, hleast⟩ := ((hall ha (a := []) hu hno).2 (congrArg _ heq) hu').2.2
    (fun {i z} hz => by
      match i with
      | 0 | 1 | 2 =>
        cases hz
        simp
      | i + 3 => cases hz)
    (fun {z z' w w'} hz hz' hw hw' => by
      rw [hleaf hz] at hw
      rw [hleaf hz'] at hw'
      cases hw
      cases hw'
      exact Json.same_refl v)
  have htwo : n ≤ 2 := hleast 2 (by decide)
  change two.time = y.engine.now + n * 2_000_000_000 at htime
  omega

end System

end Telemetry
