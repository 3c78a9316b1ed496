import Telemetry.Proofs.Rounds

/-!
# What suppression leaves out

A loop that suppresses is compared with the same loop without suppression, started from the same
snapshot and given the same samples. An update is redundant when the last report of its leaf still
stands, the value is equal as JSON to the one reported then, and the heartbeat interval since then is
not over. The first loop reports what the second one does, without the redundant updates and with
everything else in its place.

* `Sampling.redundant_update`: redundancy, read off the rounds before.
* `Sampling.play_eq_thin`: suppression leaves out the redundant updates and nothing else.
* `Sampling.due_of_update`: from one update of a leaf to the next it has become due.
* `System.suppression_exact`: both, for every subscription of every STREAM request.
-/
namespace Telemetry

namespace Sampling

/-- The same loop without suppression. -/
def plain (p : Sampling) : Sampling := { p with suppress := false }

/-- Whether an update of a sample is redundant, given the last reports that stand. -/
def redundant (p : Sampling) (told : String → Option Observed) (x : Shot) : Event → Bool
  | .update _ _ path _ =>
    match told path, x.leaf? path with
    | some o, some v => o.value.same v && !p.heartbeat.any fun h => o.time + h ≤ x.time
    | _, _ => false
  | .delete .. | .sync _ => false

/-- A round without its redundant updates. -/
def thinned (p : Sampling) (past : List Round) (x : Round) : Round :=
  { x with events := x.events.filter fun ev => !p.redundant (p.standing · past) x.toShot ev }

/-- Rounds without their redundant updates, after the rounds `past`. -/
def thin (p : Sampling) (past : List Round) : List Round → List Round
  | [] => []
  | x :: rest => p.thinned past x :: thin p (past ++ [p.thinned past x]) rest

end Sampling

/-- The deletions of a round, in order. -/
def Round.deletions (x : Round) : List Event :=
  x.events.filter fun
    | .delete .. => true
    | _ => false

namespace Sampling

variable {p : Sampling} {c c' : Cache} {path : String}

/-- An update is redundant exactly when some round reported the leaf with a value equal to its own,
every round since has kept the leaf, and no heartbeat interval has passed. -/
theorem redundant_update {past : List Round} {x : Shot} {v : Json} (hv : x.leaf? path = some v)
    (r sid : Nat) (text : String) :
    p.redundant (p.standing · past) x (.update r sid path text) = true ↔
      ∃ a y b u, past = a ++ y :: b ∧ p.Updates path y ∧ y.leaf? path = some u ∧
        (∀ z ∈ b, p.Keeps path z) ∧ u.same v = true ∧
        ∀ h, p.heartbeat = some h → x.time < y.time + h := by
  have hbeat (o : Observed) : (!p.heartbeat.any fun h => decide (o.time + h ≤ x.time)) = true ↔
      ∀ h, p.heartbeat = some h → x.time < o.time + h := by
    cases p.heartbeat <;> simp
  have stands {a b : List Round} {y : Round} {u : Json} (heq : past = a ++ y :: b)
      (hu : p.Updates path y) (hy : y.leaf? path = some u) (hb : ∀ z ∈ b, p.Keeps path z) :
      p.standing path past = some ⟨u, y.time⟩ :=
    standing_eq_some.2 ⟨a, y, b, heq, hu, hy, rfl, hb⟩
  simp only [redundant, hv]
  cases hstand : p.standing path past with
  | none =>
    simp only [Bool.false_eq_true, false_iff, not_exists]
    rintro a y b u ⟨heq, hu, hy, hb, -⟩
    have hsome := stands heq hu hy hb
    rw [hstand] at hsome
    cases hsome
  | some o =>
    simp only [Bool.and_eq_true, hbeat]
    constructor
    · rintro ⟨hsame, hlate⟩
      obtain ⟨a, y, b, heq, hu, hy, htime, hb⟩ := standing_eq_some.1 hstand
      exact ⟨a, y, b, o.value, heq, hu, hy, hb, hsame, by rwa [htime]⟩
    · rintro ⟨a, y, b, u, heq, hu, hy, hb, hsame, hlate⟩
      have hsome := stands heq hu hy hb
      rw [hstand] at hsome
      cases hsome
      exact ⟨hsame, hlate⟩

/-! ## Two loops side by side -/

/-- A suppressing loop reports a leaf unless that is redundant. -/
theorem isDue_eq_not_redundant (hs : p.suppress = true) (told : String → Option Observed) {x : Shot}
    {v : Json} (hv : x.leaf? path = some v) (r sid : Nat) (text : String) :
    p.isDue x.time (told path) v = !p.redundant told x (.update r sid path text) := by
  simp only [isDue, redundant, hs, hv]
  cases told path with
  | none => rfl
  | some o => simp

/-- Two caches have leaves of the subscription under the same paths. -/
def Alike (p : Sampling) (c c' : Cache) : Prop :=
  ∀ path, ((c.bucket p.request p.subscription).find? path).isSome =
    ((c'.bucket p.request p.subscription).find? path).isSome

theorem Alike.list (h : p.Alike c c') :
    c.list p.request p.subscription = c'.list p.request p.subscription :=
  SortedMap.keys_congr h

/-- Whatever was reported, the leaves of the last sample are cached. -/
theorem Alike.shoot (h : p.Alike c c') (x : Shot) :
    p.Alike (p.shoot x c).1 (p.plain.shoot x c').1 := by
  intro path
  unfold Sampling.shoot
  cases x.answer with
  | error => exact h path
  | ok leaves =>
    exact ((Bucket.agrees_observe p x.time leaves c).isSome path).trans
      ((Bucket.agrees_observe p.plain x.time leaves c').isSome path).symm

theorem shoot_eq_filter (hs : p.suppress = true) (h : p.Alike c c') {past : List Round}
    (hr : p.Recalls past c) (x : Shot) :
    (p.shoot x c).2 =
      (p.plain.shoot x c').2.filter fun ev => !p.redundant (p.standing · past) x ev := by
  unfold Sampling.shoot
  cases ha : x.answer with
  | error => rfl
  | ok leaves =>
    have hplain {now : Nat} {last : Option Observed} {v : Json} : p.plain.isDue now last v = true :=
      rfl
    have hlist : c'.list p.plain.request p.plain.subscription =
        c.list p.request p.subscription := h.list.symm
    simp only [events_observe, List.filter_append, hlist, hplain, List.filter_true]
    congr 1
    · -- an update stays unless it is redundant
      rw [List.filter_map]
      change _ = List.map (fun e : String × Json => Event.ofLeaf p.request p.subscription e.1 e.2) _
      refine congrArg _ (List.filter_congr fun e he => ?_)
      have hv : x.leaf? e.1 = some e.2 := by
        rw [Shot.leaf?, ha]
        exact SortedMap.find?_eq_some.2 he
      rw [← hr e.1]
      exact isDue_eq_not_redundant hs (p.standing · past) hv _ _ _
    · -- a deletion stays
      refine (List.filter_eq_self.2 fun ev hev => ?_).symm
      obtain ⟨path, -, rfl⟩ := List.mem_map.1 hev
      rfl

/-- Suppression leaves out the redundant updates and nothing else. -/
theorem play_eq_thin (hs : p.suppress = true) {past : List Round} (hr : p.Recalls past c)
    (h : p.Alike c c') (xs : List Shot) :
    (p.play xs c).2 = p.thin past (p.plain.play xs c').2 := by
  induction xs generalizing past c c' with
  | nil => rfl
  | cons x xs ih =>
    have hround : (⟨x, (p.shoot x c).2⟩ : Round) =
        p.thinned past ⟨x, (p.plain.shoot x c').2⟩ := by
      rw [thinned, shoot_eq_filter hs h hr x]
    simp only [play, thin, ← hround]
    exact congrArg _ (ih (hr.shoot x) (h.shoot x))

theorem deletions_thinned (past : List Round) (x : Round) :
    (p.thinned past x).deletions = x.deletions := by
  unfold Round.deletions thinned
  rw [List.filter_filter]
  refine List.filter_congr fun ev _ => ?_
  cases ev <;> simp [redundant]

/-- Deletions are where they were. -/
theorem deletions_thin (past rounds : List Round) :
    (p.thin past rounds).map (·.deletions) = rounds.map (·.deletions) := by
  induction rounds generalizing past with
  | nil => rfl
  | cons x rest ih => simp only [thin, List.map_cons, deletions_thinned, ih]

/-! ## From one update to the next -/

section

variable {first : Round} {xs : List Shot} {a b d : List Round} {x y : Round} {v w : Json}

/-- A round after the snapshot was taken with the rounds before it in the cache. -/
theorem round_eq_shoot (hr : p.Recalls [first] c) (hne : a ≠ [])
    (heq : first :: (p.play xs c).2 = a ++ y :: d) :
    ∃ c', p.Recalls a c' ∧ y = ⟨y.toShot, (p.shoot y.toShot c').2⟩ := by
  cases a with
  | nil => exact absurd rfl hne
  | cons z a =>
    rw [List.cons_append, List.cons.injEq] at heq
    obtain ⟨rfl, heq⟩ := heq
    obtain ⟨c', hc', hy⟩ := play_eq_append hr heq
    exact ⟨c', hc', by rw [← hy]⟩

/-- A report stands as long as the leaf is there and is not reported again. -/
theorem standing_of_present (hu : p.Updates path x) (hv : x.leaf? path = some v)
    (hno : ∀ z ∈ b, ¬p.Updates path z)
    (present : ∀ z ∈ b, ∀ leaves, z.answer = .ok leaves → (leaves.find? path).isSome) :
    p.standing path (a ++ x :: b) = some ⟨v, x.time⟩ :=
  standing_eq_some.2 ⟨a, x, b, rfl, hu, hv, rfl, fun z hz leaves hok =>
    ⟨present z hz leaves hok, hno z hz⟩⟩

/-- A leaf whose report stands is there until its deletion is told. -/
theorem standing_of_undeleted (hr : p.Recalls [first] c)
    (heq : first :: (p.play xs c).2 = a ++ x :: (b ++ d)) (hu : p.Updates path x)
    (hv : x.leaf? path = some v) (hno : ∀ z ∈ b, ¬p.Updates path z ∧ ¬p.Deletes path z) :
    p.standing path (a ++ x :: b) = some ⟨v, x.time⟩ := by
  induction b using List.reverseRecOn generalizing d with
  | nil => exact standing_of_present hu hv (fun _ hz => by cases hz) (fun _ hz => by cases hz)
  | append_singleton b z ih =>
    have hstand := ih (d := z :: d) (by simpa using heq) fun z' hz' =>
      hno z' (List.mem_append_left _ hz')
    obtain ⟨hnotold, hnodeletion⟩ := hno z (by simp)
    obtain ⟨c', hc', hz⟩ := round_eq_shoot (a := a ++ x :: b) hr (by simp) (by simpa using heq)
    have hcons : a ++ x :: (b ++ [z]) = a ++ x :: b ++ [z] := by simp
    rw [hcons, standing_concat, hstand]
    refine follow_of_keeps (fun leaves hok => ⟨?_, hnotold⟩) _
    -- a leaf that is cached and not there would be deleted
    cases hleaf : leaves.find? path with
    | some => rfl
    | none =>
      refine absurd ?_ hnodeletion
      rw [hz, Deletes]
      simp only [Sampling.shoot, hok]
      refine delete_mem_observe.2 ⟨?_, hleaf⟩
      rw [← hc' path, hstand]
      rfl

/-- What is reported while a report stands has become due since. -/
theorem due_of_update (hr : p.Recalls [first] c)
    (heq : first :: (p.play xs c).2 = a ++ x :: (b ++ y :: d))
    (hstand : p.standing path (a ++ x :: b) = some ⟨v, x.time⟩) (hw : y.leaf? path = some w) :
    p.Updates path y ↔ p.isDue y.time (some ⟨v, x.time⟩) w = true := by
  obtain ⟨c', hc', hy⟩ := round_eq_shoot (a := a ++ x :: b) hr (by simp) (by simpa using heq)
  rw [hy, updates_shoot, ← hc' path, hstand]
  constructor
  · rintro ⟨w', hw', hdue⟩
    obtain rfl : w = w' := Option.some.inj (hw.symm.trans hw')
    exact hdue
  · exact fun hdue => ⟨w, hw, hdue⟩

/-- Without a heartbeat an update is followed, until the leaf is deleted, only by updates with other
values. -/
theorem differs_of_update (hs : p.suppress = true) (silent : p.heartbeat = none)
    (hr : p.Recalls [first] c) (heq : first :: (p.play xs c).2 = a ++ x :: (b ++ y :: d))
    (hu : p.Updates path x) (hv : x.leaf? path = some v)
    (hno : ∀ z ∈ b, ¬p.Updates path z ∧ ¬p.Deletes path z) (hu' : p.Updates path y)
    (hw : y.leaf? path = some w) : v.same w = false := by
  have hstand := standing_of_undeleted hr heq hu hv hno
  have hdue := (due_of_update hr heq hstand hw).1 hu'
  simpa [isDue, hs, silent] using hdue

end

theorem suppress_ofSubscription (r least : Nat) {sub : Subscription}
    (suppressing : sub.mode = some .onChange ∨ sub.suppressRedundant = some true) :
    (ofSubscription r sub least).suppress = true := by
  rcases suppressing with hm | hs
  · simp [ofSubscription, hm]
  · simp [ofSubscription, hs]

end Sampling

namespace System

variable {s : Setup} {h : Handle} {sub : Subscription} {x y : System} {ns₀ : List Note}
  {p : Sampling}

/-- When a STREAM request starts, each of its subscriptions is played from the first snapshot on. For
one that suppresses, and for any samples, that is what it would be without suppression, less the
updates that are redundant. Deletions are told in the same places. Without a heartbeat, one update of
a leaf and the next have different values, unless the leaf was deleted in between. -/
theorem suppression_exact (hx : Reachable s x) (st : Step s x ns₀ y)
    (stream : h.request.mode = .stream) (before : ¬x.engine.Runs h) (after : y.engine.Runs h)
    (hsub : sub ∈ h.request.subscriptions)
    (suppressing : sub.mode = some .onChange ∨ sub.suppressRedundant = some true)
    (plan : p = .ofSubscription h.id sub s.least) :
    ∃ first ref, Opening s h sub first ref x y ∧
      (∀ {ns z}, Run s (fun z => (z.engine.loops.find? ref).isSome ∧ z.engine.datastore.Delivers)
        y ns z → ∃ new, Engine.Played s p y.engine ns new z.engine) ∧
      ∀ shots : List Shot,
        (p.play shots y.engine.cache).2 =
          p.thin [.first p y.engine.now first] (p.plain.play shots y.engine.cache).2 ∧
        (p.play shots y.engine.cache).2.map (·.deletions) =
          (p.plain.play shots y.engine.cache).2.map (·.deletions) ∧
        (p.heartbeat = none → ∀ {a b d : List Round} {one two : Round} {path : String} {v w : Json},
          .first p y.engine.now first :: (p.play shots y.engine.cache).2 =
            a ++ one :: (b ++ two :: d) →
          p.Updates path one → one.leaf? path = some v →
          (∀ z ∈ b, ¬p.Updates path z ∧ ¬p.Deletes path z) →
          p.Updates path two → two.leaf? path = some w → v.same w = false) := by
  obtain ⟨first, ref, o⟩ := st.opens hx stream before after hsub
  subst plan
  have hs := Sampling.suppress_ofSubscription h.id s.least suppressing
  have hr : (Sampling.ofSubscription h.id sub s.least).Recalls
      [.first _ y.engine.now first] y.engine.cache := .first o.cached
  refine ⟨first, ref, o, o.played, fun shots => ?_⟩
  have halike : (Sampling.ofSubscription h.id sub s.least).Alike y.engine.cache y.engine.cache :=
    fun _ => rfl
  have hthin := Sampling.play_eq_thin hs hr halike shots
  refine ⟨hthin, ?_, fun silent {a b d one two path v w} heq hu hv hno hu' hw => ?_⟩
  · rw [hthin, Sampling.deletions_thin]
  · exact Sampling.differs_of_update hs silent hr heq hu hv hno hu' hw

/-- The small engine has read a leaf. It has the same value two seconds later, and another one after
four: without suppression both would be reported. -/
theorem small_suppression_exact : ∃ x y ns first ref, Step Small.setup x ns y ∧
    Opening Small.setup ⟨0, Small.beating⟩ Small.beat first ref x y ∧
    first = .ofList [("/m:c/x", Json.nat 3)] ∧
    ∃ shots : List Shot,
      shots = [⟨2_000_000_000, .ok first⟩, ⟨4_000_000_000, .ok (.ofList [("/m:c/x", Json.nat 4)])⟩] ∧
      (Small.beatPlan.plain.play shots y.engine.cache).2.map (·.events) =
        [[.update 1 5 "/m:c/x" "3"], [.update 1 5 "/m:c/x" "4"]] ∧
      (Small.beatPlan.play shots y.engine.cache).2.map (·.events) =
        [[], [.update 1 5 "/m:c/x" "4"]] ∧
      (Small.beatPlan.play shots y.engine.cache).2 =
        Small.beatPlan.thin [.first Small.beatPlan y.engine.now first]
          (Small.beatPlan.plain.play shots y.engine.cache).2 := by
  obtain ⟨ns, st, hbefore, hafter⟩ := Small.beating_started
  obtain ⟨first, ref, hopening, -, hall⟩ := suppression_exact (Small.reachable_creating _ 7) st rfl
    hbefore hafter List.mem_cons_self (.inr rfl) (p := Small.beatPlan) rfl
  obtain rfl := Small.beating_read hopening
  exact ⟨_, _, ns, _, ref, st, hopening, rfl, _, rfl, by decide +kernel, by decide +kernel,
    (hall _).1⟩

end System

end Telemetry
