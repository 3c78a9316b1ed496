import Telemetry.Proofs.Reports

/-!
# What a collector makes of events

A collector keeps, for one subscription, the text of every leaf that it was told of. An update sets
a leaf and a deletion removes one; a deletion of a leaf that the collector does not have is a fault.

* `Mirror.replay_observe`: the events of a sample turn the mirror of the bucket before into the
  mirror of the bucket after.
* `Bucket.agrees_observe`: a sample leaves in the bucket what it saw, up to equality of values.
* `Mirror.deletions_observe`: it reports one deletion for every leaf that has vanished.
* `Mirror.update_between`: a leaf is deleted again only after an update of it.
-/
namespace Telemetry

/-! ## Equality of values -/

namespace Json

mutual

theorem same_refl : ∀ j : Json, j.same j = true
  | .null => by simp only [same]
  | .bool b => by simp [same]
  | .number (.whole n) => by simp [same, Number.same]
  | .number (.fraction x) => by simp [same, Number.same, Binary64.same]
  | .string s => by simp [same]
  | .array items => by rw [same]; exact sameItems_refl items
  | .object members => by rw [same]; exact sameMembers_refl members

theorem sameItems_refl : ∀ items : List Json, sameItems items items = true
  | [] => by simp only [sameItems]
  | j :: rest => by simp [sameItems, same_refl j, sameItems_refl rest]

theorem sameMembers_refl : ∀ members : List (String × Json), sameMembers members members = true
  | [] => by simp only [sameMembers]
  | (k, j) :: rest => by simp [sameMembers, same_refl j, sameMembers_refl rest]

end

/-- Only the number itself is the same value as a whole number. -/
theorem eq_nat_of_same {v v' : Json} {n : Nat} (hn : v.nat? = some n)
    (hs : v'.same v = true) : v' = .nat n := by
  cases v with
  | number m =>
    cases m with
    | whole k =>
      rw [nat?] at hn
      split at hn
      · next hk =>
        obtain rfl := Option.some.inj hn
        cases v' with
        | number m' =>
          cases m' with
          | whole k' =>
            have heq : k' = k := eq_of_beq hs
            rw [heq, nat, Int.toNat_of_nonneg hk.1]
          | fraction => cases hs
        | null | bool | string | array | object => cases hs
      · cases hn
    | fraction => cases hn
  | null | bool | string | array | object => cases hn

end Json

/-! ## Mirrors -/

/-- What a collector has of one subscription: texts by leaf path. -/
abbrev Mirror := SortedMap String String

namespace Mirror

/-- The collector that was told every leaf. -/
def ofLeaves (leaves : Leaves) : Mirror := leaves.map fun _ v => v.compact

/-- The collector that was told every cached leaf. -/
def ofBucket (b : Bucket) : Mirror := b.map fun _ o => o.value.compact

/-- An event is heard. Events about anything else do not matter; a leaf that is deleted has to be
there. -/
def hear (r s : Nat) (m : Mirror) : Event → Option Mirror
  | .update r' s' path text => if r' = r ∧ s' = s then some (m.insert path text) else some m
  | .delete r' s' path =>
    if r' = r ∧ s' = s then (m.find? path).map fun _ => m.erase path else some m
  | .sync _ => some m

def replay (r s : Nat) : List Event → Mirror → Option Mirror
  | [], m => some m
  | ev :: events, m => (m.hear r s ev).bind (replay r s events)

variable {r s : Nat}

theorem replay_append (events events' : List Event) (m : Mirror) :
    replay r s (events ++ events') m = (replay r s events m).bind (replay r s events') := by
  induction events generalizing m with
  | nil => rfl
  | cons ev events ih =>
    simp only [List.cons_append, replay]
    cases m.hear r s ev with
    | none => rfl
    | some m' => exact ih m'

theorem hear_other {ev : Event} (h : ¬ev.about r s) (m : Mirror) : m.hear r s ev = some m := by
  cases ev with
  | update | delete => exact if_neg h
  | sync => rfl

/-- Events about anything else do not matter. -/
theorem replay_other {events : List Event} (h : ∀ ev ∈ events, ¬ev.about r s) (m : Mirror) :
    replay r s events m = some m := by
  induction events with
  | nil => rfl
  | cons ev events ih =>
    rw [replay, hear_other (h ev List.mem_cons_self)]
    exact ih fun ev' hm => h ev' (List.mem_cons_of_mem _ hm)

theorem ofBucket_insert (b : Bucket) (path : String) (v : Json) (now : Nat) :
    ofBucket (b.insert path ⟨v, now⟩) = (ofBucket b).insert path v.compact := by
  refine SortedMap.ext_find? fun path' => ?_
  simp only [ofBucket, SortedMap.find?_map, SortedMap.find?_insert]
  split <;> rfl

theorem ofBucket_erase (b : Bucket) (path : String) :
    ofBucket (b.erase path) = (ofBucket b).erase path := by
  refine SortedMap.ext_find? fun path' => ?_
  simp only [ofBucket, SortedMap.find?_map, SortedMap.find?_erase]
  split <;> rfl

/-! ## Replaying a sample -/

/-- The updates of a sample tell what they record. -/
theorem replay_report (p : Sampling) (now : Nat) (l : List (String × Json)) (c : Cache) :
    replay p.request p.subscription (p.report now l c).2
        (ofBucket (c.bucket p.request p.subscription)) =
      some (ofBucket ((p.report now l c).1.bucket p.request p.subscription)) := by
  induction l generalizing c with
  | nil => rfl
  | cons leaf rest ih =>
    obtain ⟨path, v⟩ := leaf
    unfold Sampling.report
    split
    · have hset : (c.set now p.request p.subscription path v).bucket p.request p.subscription =
          (c.bucket p.request p.subscription).insert path ⟨v, now⟩ :=
        (Cache.bucket_set ..).trans (if_pos ⟨rfl, rfl⟩)
      simp only [replay, Event.ofLeaf, hear, and_self, if_true, Option.bind_some]
      rw [← ofBucket_insert, ← hset]
      exact ih _
    · exact ih c

/-- The deletions of a sample tell what they drop, provided that it is there. -/
theorem replay_retract {l : List String} {c : Cache} (hl : l.Nodup)
    (hc : ∀ path ∈ l, ((c.bucket r s).find? path).isSome) :
    replay r s (Sampling.retract r s l c).2 (ofBucket (c.bucket r s)) =
      some (ofBucket ((Sampling.retract r s l c).1.bucket r s)) := by
  induction l generalizing c with
  | nil => rfl
  | cons path rest ih =>
    obtain ⟨hne, hrest⟩ := List.nodup_cons.1 hl
    have hdrop : (c.drop r s path).bucket r s = (c.bucket r s).erase path :=
      (Cache.bucket_drop ..).trans (if_pos ⟨rfl, rfl⟩)
    obtain ⟨o, ho⟩ := Option.isSome_iff_exists.1 (hc path List.mem_cons_self)
    have hfind : (ofBucket (c.bucket r s)).find? path = some o.value.compact := by
      rw [ofBucket, SortedMap.find?_map, ho]
      rfl
    simp only [Sampling.retract, replay, hear, and_self, if_true, hfind, Option.map_some,
      Option.bind_some]
    rw [← ofBucket_erase, ← hdrop]
    refine ih hrest fun path' hm => ?_
    have hpath : path' ≠ path := fun heq => hne (heq ▸ hm)
    rw [hdrop, SortedMap.find?_erase_of_ne hpath]
    exact hc path' (List.mem_cons_of_mem _ hm)

theorem nodup_vanished (c : Cache) (r s : Nat) (leaves : Leaves) :
    (Sampling.vanished (c.list r s) leaves).Nodup := by
  refine List.Pairwise.filter _ ?_
  rw [Cache.list, SortedMap.keys, List.pairwise_map]
  exact (c.bucket r s).sorted.imp fun {a b} hlt heq => by simp [heq] at hlt

/-- A collector that has what is cached has so after a sample. -/
theorem replay_observe (p : Sampling) (now : Nat) (leaves : Leaves) (c : Cache) :
    replay p.request p.subscription (p.observe now leaves c).2
        (ofBucket (c.bucket p.request p.subscription)) =
      some (ofBucket ((p.observe now leaves c).1.bucket p.request p.subscription)) := by
  simp only [Sampling.observe]
  rw [replay_append, replay_report, Option.bind_some]
  refine replay_retract (nodup_vanished c _ _ leaves) fun path hm => ?_
  obtain ⟨hcached, hgone⟩ := Sampling.mem_vanished.1 hm
  rw [Sampling.find?_report p now path _ c (Sampling.keys_nodup leaves),
    show SortedMap.lookup path leaves.entries = none from hgone]
  exact SortedMap.mem_keys.1 hcached

/-! ## Deletions -/

/-- How often the deletion of a leaf is told. -/
def deletions (r s : Nat) (path : String) (events : List Event) : Nat :=
  events.count (.delete r s path)

theorem deletions_append (path : String) (events events' : List Event) :
    deletions r s path (events ++ events') = deletions r s path events + deletions r s path events' :=
  List.count_append

theorem deletions_other {path : String} {events : List Event} (h : ∀ ev ∈ events, ¬ev.about r s) :
    deletions r s path events = 0 :=
  List.count_eq_zero_of_not_mem fun hm => h _ hm ⟨rfl, rfl⟩

/-- A sample tells the deletion of exactly those cached leaves that it does not have, once. -/
theorem deletions_observe (p : Sampling) (now : Nat) (leaves : Leaves) (c : Cache) (path : String) :
    deletions p.request p.subscription path (p.observe now leaves c).2 =
      if ((c.bucket p.request p.subscription).find? path).isSome ∧ leaves.find? path = none then 1
      else 0 := by
  have hmem : Event.delete p.request p.subscription path ∈
      (Sampling.vanished (c.list p.request p.subscription) leaves).map
        (Event.delete p.request p.subscription) ↔
      ((c.bucket p.request p.subscription).find? path).isSome ∧ leaves.find? path = none := by
    rw [List.mem_map]
    constructor
    · rintro ⟨path', hm, heq⟩
      cases heq
      exact (Sampling.mem_vanished.1 hm).imp_left SortedMap.mem_keys.1
    · exact fun h => ⟨path, Sampling.mem_vanished.2 (h.imp_left SortedMap.mem_keys.2), rfl⟩
  have hnodup : ((Sampling.vanished (c.list p.request p.subscription) leaves).map
      (Event.delete p.request p.subscription)).Nodup :=
    List.pairwise_map.2 ((nodup_vanished c _ _ leaves).imp fun {a b} hne heq => by
      cases heq
      exact hne rfl)
  rw [Sampling.events_observe, deletions_append, deletions, deletions, hnodup.count,
    List.count_eq_zero_of_not_mem, Nat.zero_add]
  · simp only [hmem]
  · intro hm
    obtain ⟨e, -, heq⟩ := List.mem_map.1 hm
    cases heq

/-- What a collector does not have it has only after an update. -/
theorem find?_replay {events : List Event} {m m' : Mirror} {path : String}
    (h : replay r s events m = some m') (hm : m.find? path = none)
    (hno : ∀ text, .update r s path text ∉ events) : m'.find? path = none := by
  induction events generalizing m with
  | nil =>
    cases h
    exact hm
  | cons ev events ih =>
    rw [replay] at h
    obtain ⟨m₁, hheard, hrest⟩ := Option.bind_eq_some_iff.1 h
    refine ih hrest ?_ fun text hin => hno text (List.mem_cons_of_mem _ hin)
    by_cases habout : ev.about r s
    · cases ev with
      | update r' s' path' text =>
        obtain ⟨rfl, rfl⟩ := habout
        cases (if_pos ⟨rfl, rfl⟩ : hear r' s' m (.update r' s' path' text) = _).symm.trans hheard
        rw [SortedMap.find?_insert_of_ne]
        · exact hm
        · rintro rfl
          exact hno text List.mem_cons_self
      | delete r' s' path' =>
        obtain ⟨rfl, rfl⟩ := habout
        have heard : (m.find? path').map (fun _ => m.erase path') = some m₁ :=
          (if_pos ⟨rfl, rfl⟩ : hear r' s' m (.delete r' s' path') = _).symm.trans hheard
        obtain ⟨-, -, rfl⟩ := Option.map_eq_some_iff.1 heard
        rw [SortedMap.find?_erase, hm]
        exact ite_self _
      | sync => exact habout.elim
    · rw [hear_other habout] at hheard
      cases hheard
      exact hm

/-- Between two deletions of a leaf there is an update of it. -/
theorem update_between {a b c : List Event} {m m' : Mirror} {path : String}
    (h : replay r s (a ++ .delete r s path :: (b ++ .delete r s path :: c)) m = some m') :
    ∃ text, .update r s path text ∈ b := by
  refine Classical.byContradiction fun hno => ?_
  rw [replay_append] at h
  obtain ⟨m₁, -, h⟩ := Option.bind_eq_some_iff.1 h
  rw [replay] at h
  obtain ⟨m₂, hfirst, h⟩ := Option.bind_eq_some_iff.1 h
  rw [replay_append] at h
  obtain ⟨m₃, hb, h⟩ := Option.bind_eq_some_iff.1 h
  rw [replay] at h
  obtain ⟨m₄, hsecond, -⟩ := Option.bind_eq_some_iff.1 h
  have hgone : m₂.find? path = none := by
    have heard : (m₁.find? path).map (fun _ => m₁.erase path) = some m₂ :=
      (if_pos ⟨rfl, rfl⟩ : hear r s m₁ (.delete r s path) = _).symm.trans hfirst
    obtain ⟨-, -, rfl⟩ := Option.map_eq_some_iff.1 heard
    exact SortedMap.find?_erase_self ..
  have hstill := find?_replay hb hgone fun text hin => hno ⟨text, hin⟩
  have heard : (m₃.find? path).map (fun _ => m₃.erase path) = some m₄ :=
    (if_pos ⟨rfl, rfl⟩ : hear r s m₃ (.delete r s path) = _).symm.trans hsecond
  rw [hstill] at heard
  cases heard

end Mirror

/-! ## Agreement with a sample -/

/-- Bucket and sample have the same leaves, with values that are equal as JSON. -/
def Bucket.Agrees (b : Bucket) (leaves : Leaves) : Prop :=
  ∀ path, Option.Rel (fun o v => o.value.same v = true) (b.find? path) (leaves.find? path)

/-- A collector has the leaves of a sample, with texts of values that are equal as JSON. -/
def Mirror.Shows (m : Mirror) (leaves : Leaves) : Prop :=
  ∀ path, Option.Rel (fun text v => ∃ v' : Json, text = v'.compact ∧ v'.same v = true)
    (m.find? path) (leaves.find? path)

namespace Bucket

variable {b : Bucket} {leaves : Leaves}

theorem Agrees.shows (h : b.Agrees leaves) : (Mirror.ofBucket b).Shows leaves := by
  intro path
  rw [Mirror.ofBucket, SortedMap.find?_map]
  generalize b.find? path = o, leaves.find? path = v, h path = hrel
  cases hrel with
  | none => exact .none
  | some hsame => exact .some ⟨_, rfl, hsame⟩

theorem Agrees.isSome (h : b.Agrees leaves) (path : String) :
    (b.find? path).isSome = (leaves.find? path).isSome := by
  generalize b.find? path = o, leaves.find? path = v, h path = hrel
  cases hrel <;> rfl

theorem agrees_of_read (leaves : Leaves) (now : Nat) :
    Agrees (leaves.map fun _ v => ⟨v, now⟩) leaves := by
  intro path
  rw [SortedMap.find?_map]
  cases leaves.find? path with
  | none => exact .none
  | some v => exact .some (Json.same_refl v)

theorem agrees_observe (p : Sampling) (now : Nat) (leaves : Leaves) (c : Cache) :
    Agrees ((p.observe now leaves c).1.bucket p.request p.subscription) leaves := by
  intro path
  rw [Sampling.find?_observe]
  cases leaves.find? path with
  | none => exact .none
  | some v =>
    dsimp only
    split
    · exact .some (Json.same_refl v)
    · next hd =>
      -- a leaf that is not due has the value that is cached
      cases hf : (c.bucket p.request p.subscription).find? path with
      | none => simp [Sampling.isDue, hf] at hd
      | some o =>
        refine .some ?_
        simp only [Sampling.isDue, hf] at hd
        cases hsame : o.value.same v with
        | true => rfl
        | false => simp [hsame] at hd

end Bucket

/-! ## Disappearances -/

/-- Whether a leaf is in one sample and not in the next. -/
def vanishes (path : String) (before after : Leaves) : Nat :=
  if (before.find? path).isSome ∧ after.find? path = none then 1 else 0

/-- How often a leaf has vanished from one sample to the next. -/
def vanishings (path : String) (first : Leaves) : List Leaves → Nat
  | [] => 0
  | next :: rest => vanishes path first next + vanishings path next rest

theorem vanishings_append (path : String) (first : Leaves) (rest : List Leaves) (last : Leaves) :
    vanishings path first (rest ++ [last]) =
      vanishings path first rest + vanishes path (rest.getLastD first) last := by
  induction rest generalizing first with
  | nil => simp [vanishings]
  | cons next rest ih =>
    simp only [List.cons_append, vanishings, ih, Nat.add_assoc]
    cases rest <;> rfl

end Telemetry
