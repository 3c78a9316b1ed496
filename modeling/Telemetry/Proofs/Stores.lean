import Telemetry.Cache
import Telemetry.Registry

/-!
# Cache and registry, look-up by look-up

What each operation of a store does to every look-up, so that nothing after this module opens a
store again.

* `Cache.bucket_set`, `Cache.bucket_drop`, `Cache.bucket_removeSubscription`,
  `Cache.bucket_removeRequest`: each operation changes the buckets it names and no other.
* `Cache.Tidy`: no bucket is kept empty, on either level. Every operation keeps that, and it makes
  `Cache.isEmpty` say that nothing is cached (`Cache.Tidy.isEmpty_iff`).
* `Registry.add_eq_ok`, `Registry.delete_eq_ok`: when adding and deleting succeed, and with what.
-/
namespace Telemetry

/-! ## Finite maps -/

namespace SortedMap

variable {κ ν : Type} [Ord κ] [Std.TransOrd κ] [Std.LawfulEqOrd κ]

theorem find?_insert [DecidableEq κ] (m : SortedMap κ ν) (k k' : κ) (v : ν) :
    (m.insert k v).find? k' = if k' = k then some v else m.find? k' := by
  split
  · next h => rw [h, find?_insert_self]
  · next h => exact find?_insert_of_ne v h

omit [Std.TransOrd κ] in
theorem find?_erase [DecidableEq κ] (m : SortedMap κ ν) (k k' : κ) :
    (m.erase k).find? k' = if k' = k then none else m.find? k' := by
  split
  · next h => rw [h, find?_erase_self]
  · next h => exact find?_erase_of_ne h

omit [Std.TransOrd κ] in
theorem find?_of_erase [DecidableEq κ] {m : SortedMap κ ν} {k k' : κ} {v : ν}
    (h : (m.erase k).find? k' = some v) : m.find? k' = some v := by
  rw [find?_erase] at h
  split at h
  · cases h
  · exact h

theorem erase_insert [DecidableEq κ] {m : SortedMap κ ν} {k : κ} (v : ν) (h : m.find? k = none) :
    (m.insert k v).erase k = m := by
  apply ext_find?
  intro k'
  rw [find?_erase, find?_insert]
  split
  · next hk => rw [hk, h]
  · rfl

theorem insert_erase [DecidableEq κ] {m : SortedMap κ ν} {k : κ} {v : ν}
    (h : m.find? k = some v) : (m.erase k).insert k v = m := by
  apply ext_find?
  intro k'
  rw [find?_insert, find?_erase]
  split
  · next hk => rw [hk, h]
  · rfl

omit [Std.TransOrd κ] in
theorem mem_keys {m : SortedMap κ ν} {k : κ} : k ∈ m.keys ↔ (m.find? k).isSome := by
  simp only [keys, List.mem_map, Prod.exists, exists_and_right, exists_eq_right,
    Option.isSome_iff_exists, find?_eq_some]

omit [Std.TransOrd κ] [Std.LawfulEqOrd κ] in
theorem keys_map {μ : Type} (m : SortedMap κ ν) (f : κ → ν → μ) : (m.map f).keys = m.keys := by
  simp [keys, map]

omit [Std.TransOrd κ] [Std.LawfulEqOrd κ] in
theorem keys_sorted (m : SortedMap κ ν) : m.keys.Pairwise fun a b => compare a b = .lt :=
  List.pairwise_map.2 m.sorted

/-- Maps that have values for the same keys have the same keys in the same order. -/
theorem keys_congr {m m' : SortedMap κ ν} (h : ∀ k, (m.find? k).isSome = (m'.find? k).isSome) :
    m.keys = m'.keys := by
  have hmap : (m.map fun _ _ => ()) = m'.map fun _ _ => () := by
    refine ext_find? fun k => ?_
    rw [find?_map, find?_map]
    have hk := h k
    cases hm : m.find? k <;> cases hm' : m'.find? k <;> simp [hm, hm'] at hk ⊢
  rw [← keys_map m fun _ _ => (), hmap, keys_map]

omit [Std.TransOrd κ] in
theorem isEmpty_iff {m : SortedMap κ ν} : m.isEmpty = true ↔ ∀ k, m.find? k = none := by
  obtain ⟨l, hl⟩ := m
  cases l with
  | nil => simp [isEmpty, find?, lookup]
  | cons a l =>
    simp only [isEmpty, List.isEmpty_cons, Bool.false_eq_true, find?, false_iff]
    intro h
    have := h a.1
    simp [lookup] at this

omit [Std.TransOrd κ] in
theorem isEmpty_eq_false {m : SortedMap κ ν} {k : κ} {v : ν} (h : m.find? k = some v) :
    m.isEmpty = false := by
  cases hm : m.isEmpty with
  | false => rfl
  | true => rw [isEmpty_iff.1 hm] at h; cases h

omit [Std.TransOrd κ] in
theorem exists_find? {m : SortedMap κ ν} (h : m.isEmpty = false) :
    ∃ k, (m.find? k).isSome = true := by
  obtain ⟨l, hl⟩ := m
  cases l with
  | nil => cases h
  | cons a l => exact ⟨a.1, by simp [find?, lookup]⟩

theorem eq_empty_of_isEmpty {m : SortedMap κ ν} (h : m.isEmpty = true) : m = .empty :=
  ext_find? fun k => by rw [isEmpty_iff.1 h k, find?_empty]

omit [Std.TransOrd κ] [Std.LawfulEqOrd κ] in
/-- Where no map is kept while it is empty, to have none is to have an empty one. -/
theorem eq_of_getD {o o' : Option (SortedMap κ ν)} (h : ∀ m, o = some m → m.isEmpty = false)
    (h' : ∀ m, o' = some m → m.isEmpty = false) (heq : o.getD .empty = o'.getD .empty) : o = o' := by
  cases o with
  | none =>
    cases o' with
    | none => rfl
    | some m' =>
      have hm := h' m' rfl
      rw [← show (empty : SortedMap κ ν) = m' from heq] at hm
      cases hm
  | some m =>
    cases o' with
    | none =>
      have hm := h m rfl
      rw [show m = (empty : SortedMap κ ν) from heq] at hm
      cases hm
    | some m' => exact congrArg some heq

end SortedMap

/-! ## The cache -/

namespace Cache

theorem get?_eq (c : Cache) (r s : Nat) (path : String) :
    c.get? r s path = (c.bucket r s).find? path := by
  unfold get? bucket ofRequest
  cases c.buckets.find? r with
  | none => rfl
  | some subs => cases h : subs.find? s <;> simp [h]

theorem bucket_set (c : Cache) (now r s : Nat) (path : String) (v : Json) (r' s' : Nat) :
    (c.set now r s path v).bucket r' s' =
      if r' = r ∧ s' = s then (c.bucket r s).insert path ⟨v, now⟩ else c.bucket r' s' := by
  simp only [set, bucket, ofRequest, SortedMap.find?_insert]
  by_cases hr : r' = r
  · by_cases hs : s' = s <;> simp [hr, hs, SortedMap.find?_insert]
  · simp [hr]

theorem bucket_putRequest (c : Cache) (r : Nat) (subs : SortedMap Nat Bucket) (r' s' : Nat) :
    (c.putRequest r subs).bucket r' s' =
      if r' = r then (subs.find? s').getD .empty else c.bucket r' s' := by
  unfold putRequest bucket ofRequest
  split
  · next h =>
    rw [SortedMap.find?_erase]
    split
    · rw [SortedMap.isEmpty_iff.1 h s']; rfl
    · rfl
  · rw [SortedMap.find?_insert]
    split <;> rfl

/-- Dropping a leaf takes it out of its bucket, whether it was there or not. -/
theorem bucket_drop (c : Cache) (r s : Nat) (path : String) (r' s' : Nat) :
    (c.drop r s path).bucket r' s' =
      if r' = r ∧ s' = s then (c.bucket r s).erase path else c.bucket r' s' := by
  -- without the leaf nothing is dropped, and its erasure changes nothing
  have kept (h : (c.bucket r s).find? path = none) :
      c.bucket r' s' = if r' = r ∧ s' = s then (c.bucket r s).erase path else c.bucket r' s' := by
    split
    · next hk =>
      rw [hk.1, hk.2]
      refine SortedMap.ext_find? fun p => ?_
      rw [SortedMap.find?_erase]
      split
      · next hp => rw [hp, h]
      · rfl
    · rfl
  unfold drop delete?
  cases hr : c.buckets.find? r with
  | none => exact kept (by simp [bucket, ofRequest, hr])
  | some subs =>
    cases hs : subs.find? s with
    | none => simpa [hs] using kept (by simp [bucket, ofRequest, hr, hs])
    | some leaves =>
      have hb : c.bucket r s = leaves := by simp [bucket, ofRequest, hr, hs]
      cases hp : leaves.find? path with
      | none => simpa [hs, hp] using kept (by rw [hb, hp])
      | some o =>
        simp only [Option.bind_eq_bind, Option.bind_some, hs, hp, Option.pure_def,
          Option.getD_some, bucket_putRequest, hb]
        by_cases hr' : r' = r
        · have hb' : c.bucket r s' = (subs.find? s').getD .empty := by
            simp [bucket, ofRequest, hr]
          by_cases hs' : s' = s
          · simp only [hr', hs', and_self, if_true]
            split
            · next he => simp [SortedMap.eq_empty_of_isEmpty he]
            · simp
          · simp only [hr', hs', if_true, and_false, if_false, hb']
            split
            · rw [SortedMap.find?_erase_of_ne hs']
            · rw [SortedMap.find?_insert_of_ne _ hs']
        · simp [hr']

theorem bucket_removeSubscription (c : Cache) (r s r' s' : Nat) :
    (c.removeSubscription r s).bucket r' s' =
      if r' = r ∧ s' = s then .empty else c.bucket r' s' := by
  unfold removeSubscription
  cases hr : c.buckets.find? r with
  | none =>
    by_cases h : r' = r ∧ s' = s
    · simp [bucket, ofRequest, h, hr]
    · simp only [h, if_false]
  | some subs =>
    simp only [bucket_putRequest, SortedMap.find?_erase]
    by_cases h : r' = r
    · by_cases hs : s' = s <;> simp [h, hs, bucket, ofRequest, hr]
    · simp [h]

theorem bucket_removeRequest (c : Cache) (r r' s' : Nat) :
    (c.removeRequest r).bucket r' s' = if r' = r then .empty else c.bucket r' s' := by
  simp only [removeRequest, bucket, ofRequest, SortedMap.find?_erase]
  split <;> rfl

/-! ### No empty buckets -/

/-- A bucket is kept only while it holds a leaf, and the buckets of a request only while there is
one. -/
structure Tidy (c : Cache) : Prop where
  requests : ∀ {r subs}, c.buckets.find? r = some subs → subs.isEmpty = false
  leaves : ∀ {r subs s b}, c.buckets.find? r = some subs → subs.find? s = some b →
    b.isEmpty = false

theorem tidy_empty : empty.Tidy where
  requests h := by cases h
  leaves h := by cases h

theorem Tidy.ofRequest {c : Cache} (h : c.Tidy) {r s : Nat} {b : Bucket}
    (hb : (c.ofRequest r).find? s = some b) : b.isEmpty = false := by
  unfold Cache.ofRequest at hb
  cases hr : c.buckets.find? r with
  | none => rw [hr] at hb; cases hb
  | some subs => rw [hr] at hb; exact h.leaves hr hb

theorem Tidy.putRequest {c : Cache} (h : c.Tidy) (r : Nat) {subs : SortedMap Nat Bucket}
    (hs : ∀ {s b}, subs.find? s = some b → b.isEmpty = false) : (c.putRequest r subs).Tidy := by
  have hput {r' subs'} (hr' : (c.putRequest r subs).buckets.find? r' = some subs') :
      (subs' = subs ∧ subs.isEmpty = false) ∨ c.buckets.find? r' = some subs' := by
    unfold Cache.putRequest at hr'
    split at hr'
    · rw [SortedMap.find?_erase] at hr'
      split at hr'
      · cases hr'
      · exact Or.inr hr'
    · next he =>
      rw [SortedMap.find?_insert] at hr'
      split at hr'
      · cases hr'; exact Or.inl ⟨rfl, by simpa using he⟩
      · exact Or.inr hr'
  constructor
  · intro r' subs' hr'
    rcases hput hr' with ⟨rfl, he⟩ | hold
    · exact he
    · exact h.requests hold
  · intro r' subs' s b hr' hb
    rcases hput hr' with ⟨rfl, -⟩ | hold
    · exact hs hb
    · exact h.leaves hold hb

theorem Tidy.set {c : Cache} (h : c.Tidy) (now r s : Nat) (path : String) (v : Json) :
    (c.set now r s path v).Tidy := by
  -- what is set is never empty, so `putRequest` would have kept it too
  have hne : ((c.ofRequest r).insert s ((c.bucket r s).insert path ⟨v, now⟩)).isEmpty = false :=
    SortedMap.isEmpty_eq_false (SortedMap.find?_insert_self ..)
  have hput : c.set now r s path v =
      c.putRequest r ((c.ofRequest r).insert s ((c.bucket r s).insert path ⟨v, now⟩)) := by
    simp only [Cache.set, Cache.putRequest, hne, Bool.false_eq_true, if_false]
  rw [hput]
  refine h.putRequest r fun {s' b} hb => ?_
  rw [SortedMap.find?_insert] at hb
  split at hb
  · cases hb
    exact SortedMap.isEmpty_eq_false (SortedMap.find?_insert_self ..)
  · exact h.ofRequest hb

theorem Tidy.drop {c : Cache} (h : c.Tidy) (r s : Nat) (path : String) :
    (c.drop r s path).Tidy := by
  unfold Cache.drop delete?
  cases hr : c.buckets.find? r with
  | none => exact h
  | some subs =>
    cases hs : subs.find? s with
    | none => simpa [hs] using h
    | some leaves =>
      cases hp : leaves.find? path with
      | none => simpa [hs, hp] using h
      | some o =>
        simp only [Option.bind_eq_bind, Option.bind_some, hs, hp, Option.pure_def,
          Option.getD_some]
        refine h.putRequest r fun {s' b} hb => ?_
        split at hb
        · rw [SortedMap.find?_erase] at hb
          split at hb
          · cases hb
          · exact h.leaves hr hb
        · next he =>
          rw [SortedMap.find?_insert] at hb
          split at hb
          · cases hb
            simpa using he
          · exact h.leaves hr hb

theorem Tidy.removeSubscription {c : Cache} (h : c.Tidy) (r s : Nat) :
    (c.removeSubscription r s).Tidy := by
  unfold Cache.removeSubscription
  cases hr : c.buckets.find? r with
  | none => exact h
  | some subs =>
    refine h.putRequest r fun {s' b} hb => ?_
    rw [SortedMap.find?_erase] at hb
    split at hb
    · cases hb
    · exact h.leaves hr hb

theorem Tidy.removeRequest {c : Cache} (h : c.Tidy) (r : Nat) : (c.removeRequest r).Tidy := by
  have hold {r' subs} (hr' : (c.removeRequest r).buckets.find? r' = some subs) :
      c.buckets.find? r' = some subs := by
    simp only [Cache.removeRequest, SortedMap.find?_erase] at hr'
    split at hr'
    · cases hr'
    · exact hr'
  exact ⟨fun hr' => h.requests (hold hr'), fun hr' => h.leaves (hold hr')⟩

/-- A request has the bucket of a subscription exactly when there is a leaf in it. -/
theorem Tidy.isSome_ofRequest {c : Cache} (h : c.Tidy) (r s : Nat) :
    ((c.ofRequest r).find? s).isSome = true ↔
      ∃ path, ((c.bucket r s).find? path).isSome = true := by
  unfold bucket
  cases hs : (c.ofRequest r).find? s with
  | none => simp
  | some b => simpa using SortedMap.exists_find? (h.ofRequest hs)

/-- Tidy caches are the same if their buckets are. -/
theorem Tidy.ext {c c' : Cache} (h : c.Tidy) (h' : c'.Tidy)
    (hb : ∀ r s, c.bucket r s = c'.bucket r s) : c = c' := by
  have hreq (r : Nat) : c.ofRequest r = c'.ofRequest r :=
    SortedMap.ext_find? fun s =>
      SortedMap.eq_of_getD (fun _ hm => h.ofRequest hm) (fun _ hm => h'.ofRequest hm) (hb r s)
  refine congrArg Cache.mk (SortedMap.ext_find? fun r => ?_)
  exact SortedMap.eq_of_getD (fun _ hm => h.requests hm) (fun _ hm => h'.requests hm) (hreq r)

/-- A tidy cache is empty exactly when no bucket holds a leaf. -/
theorem Tidy.isEmpty_iff {c : Cache} (h : c.Tidy) :
    c.isEmpty = true ↔ ∀ r s, c.bucket r s = .empty := by
  unfold Cache.isEmpty
  constructor
  · intro he r s
    simp [bucket, Cache.ofRequest, SortedMap.isEmpty_iff.1 he r]
  · intro hb
    rw [SortedMap.isEmpty_iff]
    intro r
    cases hr : c.buckets.find? r with
    | none => rfl
    | some subs =>
      have hsubs := h.requests hr
      have none_left : ∀ s, subs.find? s = none := by
        intro s
        cases hs : subs.find? s with
        | none => rfl
        | some b =>
          have he : b = .empty := by simpa [bucket, Cache.ofRequest, hr, hs] using hb r s
          have hf := h.leaves hr hs
          rw [he] at hf
          cases hf
      rw [SortedMap.isEmpty_iff.2 none_left] at hsubs
      cases hsubs

end Cache

/-! ## The registry -/

namespace Registry

variable {α : Type}

theorem contains_eq {g : Registry α} {id : Nat} : g.contains id = (g.find? id).isSome := rfl

theorem add_eq_ok {g g' : Registry α} {id : Nat} {a : α} :
    g.add id a = .ok g' ↔ g.find? id = none ∧ g' = ⟨g.entries.insert id a⟩ := by
  unfold add
  rw [contains_eq]
  cases h : g.find? id with
  | none => simp [eq_comm]
  | some b => simp

theorem delete_eq_ok {g g' : Registry α} {id : Nat} {a : α} :
    g.delete id = .ok (a, g') ↔ g.find? id = some a ∧ g' = ⟨g.entries.erase id⟩ := by
  unfold delete
  cases h : g.find? id with
  | none => simp
  | some b => simp [eq_comm, Prod.ext_iff]

theorem ext_find? {g g' : Registry α} (h : ∀ id, g.find? id = g'.find? id) : g = g' := by
  obtain ⟨m⟩ := g
  obtain ⟨m'⟩ := g'
  exact congrArg _ (SortedMap.ext_find? h)

theorem find?_insert (g : Registry α) (id id' : Nat) (a : α) :
    (⟨g.entries.insert id a⟩ : Registry α).find? id' = if id' = id then some a else g.find? id' :=
  SortedMap.find?_insert ..

theorem find?_erase (g : Registry α) (id id' : Nat) :
    (⟨g.entries.erase id⟩ : Registry α).find? id' = if id' = id then none else g.find? id' :=
  SortedMap.find?_erase ..

theorem erase_insert {g : Registry α} {id : Nat} (a : α) (h : g.find? id = none) :
    (⟨(g.entries.insert id a).erase id⟩ : Registry α) = g :=
  congrArg Registry.mk (SortedMap.erase_insert a h)

theorem insert_erase {g : Registry α} {id : Nat} {a : α} (h : g.find? id = some a) :
    (⟨(g.entries.erase id).insert id a⟩ : Registry α) = g :=
  congrArg Registry.mk (SortedMap.insert_erase h)

theorem mem_ids {g : Registry α} {id : Nat} : id ∈ g.ids ↔ (g.find? id).isSome :=
  SortedMap.mem_keys

end Registry

end Telemetry
