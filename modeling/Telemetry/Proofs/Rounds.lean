import Mathlib.Data.List.Induction
import Telemetry.Proofs.Convergence

/-!
# A loop, sample by sample

A loop is played from a cache: every sample is taken at a time and its read has an answer, and what
it reports makes a round. Nothing else matters to the leaves of a subscription while its loop lives.
The rounds so far, the first snapshot among them, say of every leaf what was last reported of it, and
that is what the cache has of it.

* `System.Step.opens`: a start of a STREAM request opens the game for each of its subscriptions.
* `System.Opening.played`: from there on, whatever else happens, cache and events are played.
* `Sampling.standing_eq_some`: the last report of a leaf, read off the rounds.
* `Sampling.standing_play`: it is what is cached.
* `Small.beating_started`: a small game.
-/
namespace Telemetry

/-- A sample as its loop takes it: when its read was answered, and how. -/
structure Shot where
  time : Nat
  answer : Except Error Leaves

/-- A sample with what was reported of it. -/
structure Round extends Shot where
  events : List Event

/-- The value that a sample has for a leaf. -/
def Shot.leaf? (x : Shot) (path : String) : Option Json :=
  match x.answer with
  | .error _ => none
  | .ok leaves => leaves.find? path

namespace Sampling

variable (p : Sampling)

/-- What a sample does. A failed read does nothing. -/
def shoot (x : Shot) (c : Cache) : Cache × List Event :=
  match x.answer with
  | .error _ => (c, [])
  | .ok leaves => p.observe x.time leaves c

/-- Samples one after the other. -/
def play : List Shot → Cache → Cache × List Round
  | [], c => (c, [])
  | x :: rest, c =>
    let (c, events) := p.shoot x c
    let (c, rounds) := play rest c
    (c, ⟨x, events⟩ :: rounds)

theorem play_append (xs ys : List Shot) (c : Cache) :
    p.play (xs ++ ys) c =
      ((p.play ys (p.play xs c).1).1, (p.play xs c).2 ++ (p.play ys (p.play xs c).1).2) := by
  induction xs generalizing c with
  | nil => rfl
  | cons x xs ih => simp only [List.cons_append, play, ih]

theorem shots_play (xs : List Shot) (c : Cache) : (p.play xs c).2.map (·.toShot) = xs := by
  induction xs generalizing c with
  | nil => rfl
  | cons x xs ih => simp only [play, List.map_cons, ih]

/-- A sample depends on the leaves of its own subscription, and on nothing else in the cache. -/
theorem shoot_congr (x : Shot) {c c' : Cache}
    (h : c.bucket p.request p.subscription = c'.bucket p.request p.subscription) :
    (p.shoot x c).1.bucket p.request p.subscription =
      (p.shoot x c').1.bucket p.request p.subscription ∧ (p.shoot x c).2 = (p.shoot x c').2 := by
  unfold shoot
  cases x.answer with
  | error => exact ⟨h, rfl⟩
  | ok leaves =>
    refine ⟨SortedMap.ext_find? fun path => ?_, ?_⟩
    · rw [find?_observe, find?_observe, h]
    · rw [events_observe, events_observe, h, Cache.list, Cache.list, h]

end Sampling

/-! ## Loops of an engine -/

/-- The samples under a plan, failed ones included, in order. -/
def Note.shots (p : Sampling) (notes : List Note) : List Shot :=
  notes.filterMap fun
    | .ticked l answer before _ => if l.plan = p then some ⟨before.now, answer⟩ else none
    | _ => none

theorem Note.shots_append (p : Sampling) (ns ns' : List Note) :
    shots p (ns ++ ns') = shots p ns ++ shots p ns' :=
  List.filterMap_append ..

/-- What is sent when a round is reported. -/
def Round.sent (s : Setup) (x : Round) : List (Notification Event) :=
  x.events.map (⟨x.time, s.topic, ·⟩)

/-- The notifications about one subscription. -/
def Notification.about (r sid : Nat) (ns : List (Notification Event)) : List (Notification Event) :=
  ns.filter fun n => n.event.about r sid

namespace Notification

variable {r sid : Nat} {ns ns' : List (Notification Event)}

theorem about_append : about r sid (ns ++ ns') = about r sid ns ++ about r sid ns' :=
  List.filter_append ..

theorem about_eq_nil (h : ∀ n ∈ ns, ¬n.event.about r sid) : about r sid ns = [] :=
  List.filter_eq_nil_iff.2 fun n hn => by simpa using h n hn

theorem about_eq_self (h : ∀ n ∈ ns, n.event.about r sid) : about r sid ns = ns :=
  List.filter_eq_self.2 fun n hn => by simpa using h n hn

end Notification

theorem Sampling.about_shoot (p : Sampling) (x : Shot) (c : Cache) {ev : Event}
    (h : ev ∈ (p.shoot x c).2) : ev.about p.request p.subscription := by
  unfold Sampling.shoot at h
  split at h
  · cases h
  · exact Sampling.about_observe _ _ _ _ h

namespace Engine

variable {s : Setup} {T : Handle → Prop} {e e' : Engine} {h : Handle} {sub : Subscription}
  {ref : Nat} {ns : List Note}

theorem sampled_shoot (p : Sampling) (a : Except Error Leaves) :
    e.sampled s p a = { e with
      cache := (p.shoot ⟨e.now, a⟩ e.cache).1
      datastore := e.datastore.sendAll e.now s.topic (p.shoot ⟨e.now, a⟩ e.cache).2 } := by
  cases a with
  | error => rfl
  | ok leaves => exact observe_eq ..

/-- A step is a sample of the subscription, or nothing to it. -/
inductive Strikes (s : Setup) (p : Sampling) (e : Engine) (ns : List Note) (e' : Engine) : Prop where
  | miss (shots : Note.shots p ns = [])
    (bucket : e'.cache.bucket p.request p.subscription = e.cache.bucket p.request p.subscription)
    (sent : ∃ new, e'.datastore.sent = e.datastore.sent ++ new ∧
      ∀ n ∈ new, ¬n.event.about p.request p.subscription)
  | hit (a : Except Error Leaves) (shots : Note.shots p ns = [⟨e.now, a⟩])
    (sampled : e' = e.sampled s p a)

/-- Samples of a subscription are those of the loop that is watched. -/
theorem Watched.strikes (hw : Watched s h sub ref e) (hs : Sound s e)
    (t : System.Turn s T e ns e') {l' : SamplingLoop} (hl' : e'.loops.find? ref = some l') :
    Strikes s (.ofSubscription h.id sub s.least) e ns e' := by
  -- whatever is no tick is quiet
  have quiet (hno : ∀ l a x y, .ticked l a x y ∉ ns) :
      Strikes s (.ofSubscription h.id sub s.least) e ns e' := by
    have hnone {β : Type} {f : Note → Option β}
        (hf : ∀ n, (∀ l a x y, n ≠ .ticked l a x y) → f n = none) : ns.filterMap f = [] :=
      List.filterMap_eq_nil_iff.2 fun n hn => hf n fun l a x y heq => hno l a x y (heq ▸ hn)
    cases (hw.turn hs t hl').2 with
    | quiet _ bucket sent =>
      refine .miss (hnone fun n hn => ?_) bucket sent
      cases n with
      | ticked => exact (hn _ _ _ _ rfl).elim
      | read | wrote => rfl
    | sample samples =>
      have hsamples : Note.samples (.ofSubscription h.id sub s.least) ns = [] := by
        refine hnone fun n hn => ?_
        cases n with
        | ticked => exact (hn _ _ _ _ rfl).elim
        | read | wrote => rfl
      rw [hsamples] at samples
      cases samples
  cases t with
  | still reads =>
    refine quiet fun l a x y hm => ?_
    obtain ⟨path, a', heq⟩ := reads _ hm
    cases heq
  | hold => exact quiet fun _ _ _ _ hm => by cases hm
  | effect => exact quiet fun _ _ _ _ hm => by cases List.mem_singleton.1 hm
  | stir hst =>
    cases hst with
    | wait | data | due | ends => exact quiet fun _ _ _ _ hm => by cases hm
    | @tick ref' l live expired =>
      by_cases hp : l.plan = .ofSubscription h.id sub s.least
      · exact .hit (e.answer s l.plan.path expired) (by simp [Note.shots, hp]) (by rw [hp])
      · have hother : ¬(h.id = l.plan.request ∧ sub.id = l.plan.subscription) := fun hc =>
          hp (hw.serves hs live hc.1 hc.2).1.plan
        obtain ⟨new, hnew, hn⟩ :=
          sent_sampled (s := s) (e := e) l.plan (e.answer s l.plan.path expired)
        refine .miss (by simp [Note.shots, hp]) ((sampled_changesAt l.plan _).other _ _ hother)
          ⟨new, hnew, fun n hm habout => hother (habout.unique (hn n hm))⟩

/-- Cache and events of a subscription are played. -/
structure Played (s : Setup) (p : Sampling) (e : Engine) (ns : List Note)
    (new : List (Notification Event)) (e' : Engine) : Prop where
  sent : e'.datastore.sent = e.datastore.sent ++ new
  told : Notification.about p.request p.subscription new =
    (p.play (Note.shots p ns) e.cache).2.flatMap (·.sent s)
  cached : e'.cache.bucket p.request p.subscription =
    (p.play (Note.shots p ns) e.cache).1.bucket p.request p.subscription

theorem Played.begin {p : Sampling} : Played s p e [] [] e := ⟨(List.append_nil _).symm, rfl, rfl⟩

theorem Played.strike {p : Sampling} {e₀ : Engine} {ns' : List Note}
    {new : List (Notification Event)} (h : Played s p e₀ ns new e) (hd : e.datastore.Delivers)
    (st : Strikes s p e ns' e') : ∃ new', Played s p e₀ (ns ++ ns') (new ++ new') e' := by
  cases st with
  | miss shots bucket sent =>
    obtain ⟨new', hnew', hother⟩ := sent
    refine ⟨new', by rw [hnew', h.sent, List.append_assoc], ?_, ?_⟩
    · rw [Notification.about_append, Notification.about_eq_nil hother, Note.shots_append, shots,
        List.append_nil, List.append_nil, h.told]
    · rw [Note.shots_append, shots, List.append_nil, bucket, h.cached]
  | hit a shots sampled =>
    obtain ⟨hbucket, hevents⟩ := p.shoot_congr ⟨e.now, a⟩ h.cached
    have hsent : (e.datastore.sendAll e.now s.topic (p.shoot ⟨e.now, a⟩ e.cache).2).sent = _ :=
      hd.sendAll_sent _
    have habout : ∀ n ∈ (p.shoot ⟨e.now, a⟩ e.cache).2.map fun ev =>
        (⟨e.now, s.topic, ev⟩ : Notification Event), n.event.about p.request p.subscription := by
      intro n hn
      obtain ⟨ev, hev, rfl⟩ := List.mem_map.1 hn
      exact p.about_shoot _ _ hev
    rw [sampled, sampled_shoot]
    refine ⟨_, hsent.trans (by rw [h.sent, List.append_assoc]), ?_, ?_⟩
    · rw [Notification.about_append, h.told, Notification.about_eq_self habout, Note.shots_append,
        shots, Sampling.play_append, List.flatMap_append]
      simp only [Sampling.play, List.flatMap_cons, List.flatMap_nil, List.append_nil, Round.sent,
        hevents]
    · rw [Note.shots_append, shots, Sampling.play_append]
      exact hbucket

end Engine

namespace System

open Engine (Watched Played)

variable {s : Setup} {h : Handle} {sub : Subscription} {ref : Nat} {x y z : System} {ns : List Note}

/-- In the step from `x` to `y` a subscription was read for the first snapshot of its request, and its
loop was started. -/
structure Opening (s : Setup) (h : Handle) (sub : Subscription) (first : Leaves) (ref : Nat)
    (x y : System) : Prop where
  begun : ∃ readings, y.engine = Engine.begin s h readings x.engine ∧ (sub.id, first) ∈ readings
  loop : ∃ l, y.engine.loops.find? ref = some l ∧ l.Serves s h sub
  cached : y.engine.cache.bucket h.id sub.id = first.map fun _ v => ⟨v, y.engine.now⟩
  good : Good s y
  watched : Watched s h sub ref y.engine

/-- So it is for every subscription of a STREAM request that comes to run. -/
theorem Step.opens (hx : Reachable s x) (st : Step s x ns y) (stream : h.request.mode = .stream)
    (before : ¬x.engine.Runs h) (after : y.engine.Runs h) (hsub : sub ∈ h.request.subscriptions) :
    ∃ first ref, Opening s h sub first ref x y := by
  have gy := hx.good.step st
  obtain ⟨readings, hbegin, hr, hrest, hread⟩ :=
    Engine.Runs.begun hx.good.sound (hx.good.turn st) before after
  have hmade := hx.good.sound.proper.wellMade hr
  have hidle := (hx.good.sound.fit hr).idle_of_status hrest
  have hrefs : (y.engine.life h).loops ≠ [] := by
    rw [hbegin]
    exact Engine.loops_begin_ne_nil readings stream hmade
  have hlooping := (gy.sound.fit after.1).looping_of_refs stream hrefs
  obtain ⟨ref, hw, hlive⟩ :=
    (Engine.served_of_looping hmade hlooping hsub).watched after.1 hsub
  have hid : sub.id ∈ readings.map (·.1) := by
    rw [hread]
    exact List.mem_map_of_mem hsub
  obtain ⟨⟨_, first⟩, hfirst, rfl⟩ := List.mem_map.1 hid
  refine ⟨first, ref, ⟨readings, hbegin, hfirst⟩, hlive, ?_, gy, hw⟩
  have hbucket := Engine.bucket_begin (s := s) hidle hmade hread hfirst
  have hnow : y.engine.now = x.engine.now := by rw [hbegin, Engine.begin_frame]; rfl
  rw [hbegin, hbucket, ← hbegin, hnow]

/-- From its opening on the subscription is played, as long as its loop lives and everything is
delivered. -/
theorem Opening.played {first : Leaves} (o : Opening s h sub first ref x y)
    (r : Run s (fun z => (z.engine.loops.find? ref).isSome ∧ z.engine.datastore.Delivers) y ns z) :
    ∃ new, Played s (.ofSubscription h.id sub s.least) y.engine ns new z.engine := by
  suffices h : Watched s h sub ref z.engine ∧
      ∃ new, Played s (.ofSubscription h.id sub s.least) y.engine ns new z.engine from h.2
  induction r with
  | here => exact ⟨o.watched, [], .begin⟩
  | step before st alive ih =>
    obtain ⟨hw, new, hp⟩ := ih
    have gy := o.good.run before
    obtain ⟨l, hl⟩ := Option.isSome_iff_exists.1 alive.1
    have ht := gy.turn st
    obtain ⟨new', hp'⟩ := hp.strike before.last.2 (hw.strikes gy.sound ht hl)
    exact ⟨(hw.turn gy.sound ht hl).1, _, hp'⟩

end System

/-! ## The last report of a leaf -/

/-- The first snapshot of a subscription. It counts as a report of every leaf, also where it was not
to be told. -/
def Round.first (p : Sampling) (time : Nat) (leaves : Leaves) : Round where
  time := time
  answer := .ok leaves
  events := leaves.entries.map fun l => .ofLeaf p.request p.subscription l.1 l.2

namespace Sampling

variable (p : Sampling)

/-- Whether a round has an update of a leaf. -/
def Updates (path : String) (x : Round) : Prop :=
  ∃ text, .update p.request p.subscription path text ∈ x.events

/-- Whether a round has the deletion of a leaf. -/
def Deletes (path : String) (x : Round) : Prop :=
  .delete p.request p.subscription path ∈ x.events

def updates (path : String) (x : Round) : Bool :=
  x.events.any fun
    | .update r sid path' _ => r = p.request ∧ sid = p.subscription ∧ path' = path
    | _ => false

variable {p} in
theorem updates_iff {path : String} {x : Round} : p.updates path x = true ↔ p.Updates path x := by
  rw [updates, List.any_eq_true]
  constructor
  · rintro ⟨ev, hev, htells⟩
    cases ev with
    | update r sid path' text =>
      obtain ⟨rfl, rfl, rfl⟩ : r = p.request ∧ sid = p.subscription ∧ path' = path := by
        simpa using htells
      exact ⟨text, hev⟩
    | delete | sync => cases htells
  · rintro ⟨text, hev⟩
    exact ⟨_, hev, by simp⟩

instance (path : String) (x : Round) : Decidable (p.Updates path x) :=
  decidable_of_iff (p.updates path x = true) updates_iff

/-- What is known of the last report of a leaf after one more round. A leaf that is gone is
forgotten, and a failed read says nothing. -/
def follow (path : String) (last : Option Observed) (x : Round) : Option Observed :=
  match x.answer with
  | .error _ => last
  | .ok leaves =>
    match leaves.find? path with
    | none => none
    | some v => if p.Updates path x then some ⟨v, x.time⟩ else last

/-- The last report of a leaf that has been there ever since. -/
def standing (path : String) (rounds : List Round) : Option Observed :=
  rounds.foldl (p.follow path) none

theorem standing_concat (path : String) (rounds : List Round) (x : Round) :
    p.standing path (rounds ++ [x]) = p.follow path (p.standing path rounds) x := by
  simp only [standing, List.foldl_append, List.foldl_cons, List.foldl_nil]

/-- A round has the leaf if it has any, and does not report it. -/
def Keeps (path : String) (x : Round) : Prop :=
  ∀ leaves, x.answer = .ok leaves → (leaves.find? path).isSome ∧ ¬p.Updates path x

variable {p}

theorem follow_of_keeps {path : String} {x : Round} (h : p.Keeps path x) (last : Option Observed) :
    p.follow path last x = last := by
  unfold follow
  split
  · rfl
  · next leaves ha =>
    obtain ⟨hsome, hno⟩ := h leaves ha
    obtain ⟨v, hv⟩ := Option.isSome_iff_exists.1 hsome
    simp only [hv, hno, if_false]

theorem foldl_follow_of_keeps {path : String} {rounds : List Round}
    (h : ∀ x ∈ rounds, p.Keeps path x) (last : Option Observed) :
    rounds.foldl (p.follow path) last = last := by
  induction rounds with
  | nil => rfl
  | cons x rest ih =>
    rw [List.foldl_cons, follow_of_keeps (h x (.head _))]
    exact ih fun y hy => h y (.tail _ hy)

/-- A report stands exactly when it was made in some round and every round since has kept the leaf
and not reported it. -/
theorem standing_eq_some {path : String} {rounds : List Round} {o : Observed} :
    p.standing path rounds = some o ↔ ∃ a x b, rounds = a ++ x :: b ∧ p.Updates path x ∧
      x.leaf? path = some o.value ∧ x.time = o.time ∧ ∀ y ∈ b, p.Keeps path y := by
  constructor
  · induction rounds using List.reverseRecOn with
    | nil => exact fun h => by cases h
    | append_singleton rounds x ih =>
      intro h
      rw [standing_concat] at h
      -- a report that stood before goes on standing in a round that keeps it
      have kept (hk : p.Keeps path x) (h : p.standing path rounds = some o) :
          ∃ a x' b, rounds ++ [x] = a ++ x' :: b ∧ p.Updates path x' ∧
            x'.leaf? path = some o.value ∧ x'.time = o.time ∧ ∀ y ∈ b, p.Keeps path y := by
        obtain ⟨a, x', b, rfl, hu, hv, ht, hb⟩ := ih h
        refine ⟨a, x', b ++ [x], by simp, hu, hv, ht, fun y hy => ?_⟩
        rcases List.mem_append.1 hy with hy | hy
        · exact hb y hy
        · rw [List.mem_singleton.1 hy]
          exact hk
      unfold follow at h
      split at h
      · next err ha => exact kept (fun leaves hok => by rw [ha] at hok; cases hok) h
      · next leaves ha =>
        split at h
        · cases h
        · next v hv =>
          split at h
          · next hu =>
            cases h
            exact ⟨rounds, x, [], rfl, hu, by rw [Shot.leaf?, ha]; exact hv, rfl, by simp⟩
          · next hno =>
            refine kept (fun leaves' hok => ⟨?_, hno⟩) h
            rw [ha] at hok
            cases hok
            rw [hv]
            rfl
  · rintro ⟨a, x, b, rfl, hu, hv, ht, hb⟩
    rw [standing, List.foldl_append, List.foldl_cons, foldl_follow_of_keeps hb]
    unfold Shot.leaf? at hv
    unfold follow
    split at hv
    · cases hv
    · simp only [hv, hu, if_true, ht]

/-! ### What is cached -/

theorem update_mem_observe {now : Nat} {leaves : Leaves} {c : Cache} {path text : String} :
    .update p.request p.subscription path text ∈ (p.observe now leaves c).2 ↔
      ∃ v, leaves.find? path = some v ∧ text = v.compact ∧
        p.isDue now ((c.bucket p.request p.subscription).find? path) v = true := by
  rw [events_observe, List.mem_append]
  constructor
  · rintro (hm | hm)
    · obtain ⟨⟨path', v⟩, hentry, heq⟩ := List.mem_map.1 hm
      cases heq
      obtain ⟨hentry, hdue⟩ := List.mem_filter.1 hentry
      exact ⟨v, SortedMap.find?_eq_some.2 hentry, rfl, hdue⟩
    · obtain ⟨_, -, heq⟩ := List.mem_map.1 hm
      cases heq
  · rintro ⟨v, hv, rfl, hdue⟩
    refine .inl (List.mem_map.2 ⟨(path, v), List.mem_filter.2 ⟨?_, hdue⟩, rfl⟩)
    exact SortedMap.find?_eq_some.1 hv

theorem delete_mem_observe {now : Nat} {leaves : Leaves} {c : Cache} {path : String} :
    .delete p.request p.subscription path ∈ (p.observe now leaves c).2 ↔
      ((c.bucket p.request p.subscription).find? path).isSome ∧ leaves.find? path = none := by
  rw [events_observe, List.mem_append]
  constructor
  · rintro (hm | hm)
    · obtain ⟨_, -, heq⟩ := List.mem_map.1 hm
      cases heq
    · obtain ⟨_, hgone, heq⟩ := List.mem_map.1 hm
      cases heq
      exact (mem_vanished.1 hgone).imp_left SortedMap.mem_keys.1
  · exact fun h => .inr (List.mem_map.2
      ⟨path, mem_vanished.2 (h.imp_left SortedMap.mem_keys.2), rfl⟩)

/-- A round updates a leaf exactly when it has the leaf and the leaf is due. -/
theorem updates_shoot {x : Shot} {c : Cache} {path : String} :
    p.Updates path ⟨x, (p.shoot x c).2⟩ ↔ ∃ v, x.leaf? path = some v ∧
      p.isDue x.time ((c.bucket p.request p.subscription).find? path) v = true := by
  unfold Updates Shot.leaf? shoot
  cases x.answer with
  | error => simp
  | ok leaves =>
    simp only [update_mem_observe]
    exact ⟨fun ⟨_, v, hv, _, hdue⟩ => ⟨v, hv, hdue⟩, fun ⟨v, hv, hdue⟩ => ⟨_, v, hv, rfl, hdue⟩⟩

/-- What is cached of a leaf after a round is what the round makes of what was cached before. -/
theorem find?_shoot (x : Shot) (c : Cache) (path : String) :
    ((p.shoot x c).1.bucket p.request p.subscription).find? path =
      p.follow path ((c.bucket p.request p.subscription).find? path) ⟨x, (p.shoot x c).2⟩ := by
  unfold follow
  cases ha : x.answer with
  | error =>
    simp only [shoot, ha]
  | ok leaves =>
    simp only [updates_shoot, Shot.leaf?, ha]
    simp only [shoot, ha, find?_observe]
    cases leaves.find? path with
    | none => rfl
    | some v => simp only [Option.some.injEq, exists_eq_left']

/-- The rounds so far say of every leaf what is cached of it. -/
def Recalls (p : Sampling) (rounds : List Round) (c : Cache) : Prop :=
  ∀ path, p.standing path rounds = (c.bucket p.request p.subscription).find? path

theorem Recalls.first {c : Cache} {time : Nat} {leaves : Leaves}
    (h : c.bucket p.request p.subscription = leaves.map fun _ v => ⟨v, time⟩) :
    p.Recalls [.first p time leaves] c := by
  intro path
  rw [h, SortedMap.find?_map]
  simp only [standing, List.foldl_cons, List.foldl_nil, follow, Round.first, Updates]
  cases hv : leaves.find? path with
  | none => rfl
  | some v =>
    refine if_pos ⟨v.compact, List.mem_map.2 ⟨(path, v), ?_, rfl⟩⟩
    exact SortedMap.find?_eq_some.1 hv

theorem Recalls.shoot {rounds : List Round} {c : Cache} (h : p.Recalls rounds c) (x : Shot) :
    p.Recalls (rounds ++ [⟨x, (p.shoot x c).2⟩]) (p.shoot x c).1 := by
  intro path
  rw [standing_concat, h path, find?_shoot]

/-- What is cached after a game is the last report. -/
theorem standing_play {rounds : List Round} {c : Cache} (h : p.Recalls rounds c) (xs : List Shot) :
    p.Recalls (rounds ++ (p.play xs c).2) (p.play xs c).1 := by
  induction xs generalizing rounds c with
  | nil => simpa only [play, List.append_nil] using h
  | cons x xs ih => simpa [play] using ih (h.shoot x)

/-- A round of a game was taken with the rounds before it in the cache. -/
theorem play_eq_append {rounds : List Round} {c : Cache} (h : p.Recalls rounds c) {xs : List Shot}
    {b d : List Round} {y : Round} (heq : (p.play xs c).2 = b ++ y :: d) :
    ∃ c', p.Recalls (rounds ++ b) c' ∧ y.events = (p.shoot y.toShot c').2 := by
  induction xs generalizing rounds c b with
  | nil => simp [play] at heq
  | cons x xs ih =>
    simp only [play] at heq
    cases b with
    | nil =>
      simp only [List.nil_append, List.cons.injEq] at heq
      obtain ⟨rfl, -⟩ := heq
      exact ⟨c, by rwa [List.append_nil], rfl⟩
    | cons z b =>
      simp only [List.cons_append, List.cons.injEq] at heq
      obtain ⟨rfl, heq⟩ := heq
      obtain ⟨c', hc', hy⟩ := ih (h.shoot x) heq
      exact ⟨c', by simpa using hc', hy⟩

end Sampling

namespace Small

/-- A subscription that suppresses, with a heartbeat interval of one and a half periods. -/
def beat : Subscription :=
  ⟨5, "/m:c", some .sample, some 2_000_000_000, some true, some 3_000_000_000⟩

def beatPlan : Sampling := .ofSubscription 1 beat setup.least

def beating : Request where
  id := 1
  mode := .stream
  updatesOnly := false
  subscriptions := [beat]

def beatingPayload : Json := .object [
  ("config", .object [("mode", .string "STREAM")]),
  ("subscriptions", .object [("subscription", .array [.object [
    ("id", Json.nat 5),
    ("config", .object [("path", .string "/m:c"), ("mode", .string "SAMPLE"),
      ("suppress-redundant", .bool true), ("heartbeat-interval", Json.nat 3_000_000_000)])]])])]

def beatingCreation : Change :=
  .creation "/t:subscribe-requests/subscribe-request[id='1']" beatingPayload

/-- The small engine starts that request at the eighth step of its creation. -/
theorem beating_started : ∃ ns,
    System.Step setup (creating beatingCreation 7) ns (creating beatingCreation 8) ∧
      ¬(creating beatingCreation 7).engine.Runs ⟨0, beating⟩ ∧
      (creating beatingCreation 8).engine.Runs ⟨0, beating⟩ := by
  have before : ¬(creating beatingCreation 7).engine.Runs ⟨0, beating⟩ := by decide +kernel
  have after : (creating beatingCreation 8).engine.Runs ⟨0, beating⟩ := by decide +kernel
  obtain ⟨ns, st⟩ := step_creating before after
  exact ⟨ns, st, before, after⟩

/-- It has read the leaf. -/
theorem beating_read {first : Leaves} {ref : Nat} (o : System.Opening setup ⟨0, beating⟩ beat first ref
    (creating beatingCreation 7) (creating beatingCreation 8)) :
    first = .ofList [("/m:c/x", Json.nat 3)] := by
  have hkeys : ((creating beatingCreation 8).engine.cache.bucket 1 5).keys = ["/m:c/x"] := by
    decide +kernel
  have hvalue : (((creating beatingCreation 8).engine.cache.bucket 1 5).find? "/m:c/x").map
      (·.value.nat?) = some (some 3) := by decide +kernel
  have hcached : (creating beatingCreation 8).engine.cache.bucket 1 5 = _ := o.cached
  rw [hcached, SortedMap.keys_map] at hkeys
  rw [hcached, SortedMap.find?_map, Option.map_map] at hvalue
  obtain ⟨v, hv, hnat⟩ := Option.map_eq_some_iff.1 hvalue
  obtain rfl := Json.eq_nat_of_same hnat (Json.same_refl v)
  refine SortedMap.ext_find? fun path => ?_
  change _ = (SortedMap.empty.insert "/m:c/x" (Json.nat 3)).find? path
  rw [SortedMap.find?_insert]
  split
  · next hpath => rw [hpath, hv]
  · next hpath =>
    rw [SortedMap.find?_empty, ← Option.not_isSome_iff_eq_none, ← SortedMap.mem_keys, hkeys]
    simpa using hpath

end Small

end Telemetry
