import Mathlib.Data.List.Nodup
import Telemetry.Proofs.Stores

/-!
# Buckets and one flat map

A cache keeps its leaves in buckets on two levels, which are made when they are needed and dropped
with their last leaf. Whoever uses it need not know: whatever is done to it, it answers as one
finite map from request, subscription and path would.

* `Revision`: what can be done to a cache, with the keys it names and what it leaves under them;
  `Cache.revise` does it to the buckets and `FlatCache.revise` to a flat map.
* `Cache.find?_revise`, `FlatCache.getElem?_revise`: one equation says what every revision does, and
  it is the same for the buckets and for the flat map.
* `FlatCache.getElem?_after`: after any sequence a key has what the last revision that names it left.
* `Cache.Holds.revise`, `Cache.holds_after`: buckets that hold what a flat map holds go on doing so,
  and the caller is told the same.
* `Cache.Holds.answers`: what such buckets answer.
* `Cache.buckets_as_flat`: the statement.
-/
namespace Telemetry

/-! ## Revisions -/

/-- Where a leaf is cached. -/
@[ext] structure CacheKey where
  request : Nat
  subscription : Nat
  path : String
  deriving DecidableEq, Hashable, Repr

/-- What can be done to a cache. Only `set` looks at the clock. -/
inductive Revision where
  | set (now : Nat) (k : CacheKey) (value : Json)
  | delete (k : CacheKey)
  | removeSubscription (request subscription : Nat)
  | removeRequest (request : Nat)

namespace Revision

/-- The keys that a revision is about. -/
def names : Revision → CacheKey → Bool
  | set _ k _, k' => k == k'
  | delete k, k' => k == k'
  | removeSubscription r s, k' => k'.request == r && k'.subscription == s
  | removeRequest r, k' => k'.request == r

/-- What is cached under the keys it names afterwards. -/
def left : Revision → Option Observed
  | set now _ value => some ⟨value, now⟩
  | delete _ | removeSubscription .. | removeRequest _ => none

/-- Revisions one after another: what the caller is told of each, and what they lead to. -/
def run {σ : Type} (revise : σ → Revision → Except Error Unit × σ) (x : σ) :
    List Revision → List (Except Error Unit) × σ
  | [] => ([], x)
  | rev :: rest =>
    let (told, y) := revise x rev
    let (later, z) := run revise y rest
    (told :: later, z)

end Revision

/-! ## The flat map -/

/-- A cache without buckets. -/
abbrev FlatCache := Std.ExtHashMap CacheKey Observed

namespace FlatCache

def revise (m : FlatCache) : Revision → Except Error Unit × FlatCache
  | .set now k value => (.ok (), m.insert k ⟨value, now⟩)
  | .delete k =>
    if k ∈ m then (.ok (), m.erase k)
    else (.error (.leafUnknown k.request k.subscription k.path), m)
  | .removeSubscription r s =>
    (.ok (), m.filter fun k _ => !(k.request == r && k.subscription == s))
  | .removeRequest r => (.ok (), m.filter fun k _ => !(k.request == r))

/-- The flat map after revisions of the empty one. -/
def after (revs : List Revision) : FlatCache := (Revision.run revise ∅ revs).2

theorem getElem?_filter_not (m : FlatCache) (p : CacheKey → Bool) (k : CacheKey) :
    (m.filter fun k _ => !p k)[k]? = if p k = true then none else m[k]? := by
  rw [Std.ExtHashMap.getElem?_filter']
  cases p k <;> cases m[k]? <;> simp

/-- A revision decides what is under the keys it names, and leaves the others alone. -/
theorem getElem?_revise (m : FlatCache) (rev : Revision) (k : CacheKey) :
    (m.revise rev).2[k]? = if rev.names k = true then rev.left else m[k]? := by
  cases rev with
  | set now k' value => exact Std.ExtHashMap.getElem?_insert
  | delete k' =>
    by_cases hk' : k' ∈ m
    · rw [revise, if_pos hk']
      exact Std.ExtHashMap.getElem?_erase
    · -- nothing is erased, because there is nothing under the key
      simp only [revise, hk', if_false, Revision.names, Revision.left, beq_iff_eq]
      split
      · next hk => rw [← hk, Std.ExtHashMap.getElem?_eq_none hk']
      · rfl
  | removeSubscription r s => exact getElem?_filter_not m _ k
  | removeRequest r => exact getElem?_filter_not m _ k

/-- What is under a key was left there by the last revision that names it. -/
theorem getElem?_run (m : FlatCache) (revs : List Revision) (k : CacheKey) :
    (Revision.run revise m revs).2[k]? =
      match revs.findRev? (·.names k) with
      | some rev => rev.left
      | none => m[k]? := by
  induction revs generalizing m with
  | nil => rfl
  | cons rev rest ih =>
    rw [Revision.run, ih, List.findRev?]
    cases rest.findRev? (·.names k) with
    | some last => rfl
    | none =>
      rw [getElem?_revise]
      cases rev.names k <;> rfl

theorem getElem?_after (revs : List Revision) (k : CacheKey) :
    (after revs)[k]? = (revs.findRev? (·.names k)).bind (·.left) := by
  rw [after, getElem?_run]
  cases revs.findRev? (·.names k) with
  | some last => rfl
  | none => exact Std.ExtHashMap.getElem?_empty

end FlatCache

/-! ## The buckets -/

namespace Cache

def revise (c : Cache) : Revision → Except Error Unit × Cache
  | .set now k value => (.ok (), c.set now k.request k.subscription k.path value)
  | .delete k =>
    match c.delete k.request k.subscription k.path with
    | .ok c => (.ok (), c)
    | .error e => (.error e, c)
  | .removeSubscription r s => (.ok (), c.removeSubscription r s)
  | .removeRequest r => (.ok (), c.removeRequest r)

/-- The cache after revisions of the empty one. -/
def after (revs : List Revision) : Cache := (Revision.run revise .empty revs).2

/-- What is cached under a key. -/
def find? (c : Cache) (k : CacheKey) : Option Observed := c.get? k.request k.subscription k.path

theorem find?_eq (c : Cache) (k : CacheKey) :
    c.find? k = (c.bucket k.request k.subscription).find? k.path :=
  c.get?_eq ..

theorem delete_eq (c : Cache) (r s : Nat) (path : String) :
    c.delete r s path =
      if (c.get? r s path).isSome then .ok (c.drop r s path) else .error (.leafUnknown r s path) := by
  unfold delete drop delete? get?
  cases hr : c.buckets.find? r with
  | none => rfl
  | some subs =>
    cases hs : subs.find? s with
    | none => simp [hs]
    | some leaves => cases hp : leaves.find? path <;> simp [hs, hp]

theorem revise_delete (c : Cache) (k : CacheKey) :
    c.revise (.delete k) =
      if (c.find? k).isSome then (.ok (), c.drop k.request k.subscription k.path)
      else (.error (.leafUnknown k.request k.subscription k.path), c) := by
  rw [revise, delete_eq, find?]
  cases (c.get? k.request k.subscription k.path).isSome <;> rfl

/-- A bucket that changes at one path changes the cache at one key. -/
theorem find?_of_bucket {c c' : Cache} {k : CacheKey} {b : Bucket} {o : Option Observed}
    (hbucket : ∀ r s, c'.bucket r s =
      if r = k.request ∧ s = k.subscription then b else c.bucket r s)
    (hleaf : ∀ path, b.find? path =
      if path = k.path then o else (c.bucket k.request k.subscription).find? path)
    (k' : CacheKey) : c'.find? k' = if k = k' then o else c.find? k' := by
  rw [find?_eq, find?_eq, hbucket]
  by_cases hb : k'.request = k.request ∧ k'.subscription = k.subscription
  · rw [if_pos hb, hleaf, ← hb.1, ← hb.2]
    simp only [CacheKey.ext_iff, hb.1, hb.2, true_and, eq_comm]
  · have hk : k ≠ k' := fun h => hb ⟨h ▸ rfl, h ▸ rfl⟩
    rw [if_neg hb, if_neg hk]

theorem find?_set (c : Cache) (now : Nat) (k k' : CacheKey) (value : Json) :
    (c.set now k.request k.subscription k.path value).find? k' =
      if k = k' then some ⟨value, now⟩ else c.find? k' :=
  find?_of_bucket (c.bucket_set now _ _ _ value) (fun path => SortedMap.find?_insert _ _ path _) k'

theorem find?_drop (c : Cache) (k k' : CacheKey) :
    (c.drop k.request k.subscription k.path).find? k' = if k = k' then none else c.find? k' :=
  find?_of_bucket (c.bucket_drop _ _ _) (fun path => SortedMap.find?_erase _ _ path) k'

/-- The same equation as for the flat map. -/
theorem find?_revise (c : Cache) (rev : Revision) (k : CacheKey) :
    (c.revise rev).2.find? k = if rev.names k = true then rev.left else c.find? k := by
  cases rev with
  | set now k' value => simpa [revise, Revision.names, Revision.left] using find?_set ..
  | delete k' =>
    rw [revise_delete]
    split
    · simpa [Revision.names, Revision.left] using find?_drop ..
    · next habsent =>
      simp only [Revision.names, Revision.left, beq_iff_eq]
      split
      · next hk => simpa [← hk] using habsent
      · rfl
  | removeSubscription r s =>
    simp only [revise, find?_eq, bucket_removeSubscription, Revision.names, Revision.left]
    by_cases hb : k.request = r ∧ k.subscription = s <;> simp [hb]
  | removeRequest r =>
    simp only [revise, find?_eq, bucket_removeRequest, Revision.names, Revision.left]
    by_cases hr : k.request = r <;> simp [hr]

theorem Tidy.revise {c : Cache} (h : c.Tidy) (rev : Revision) : (c.revise rev).2.Tidy := by
  cases rev with
  | set now k value => exact h.set ..
  | delete k =>
    rw [revise_delete]
    split
    · exact h.drop ..
    · exact h
  | removeSubscription r s => exact h.removeSubscription r s
  | removeRequest r => exact h.removeRequest r

/-! ## Both together -/

/-- Buckets that hold what a flat map holds, none of them empty. -/
structure Holds (c : Cache) (m : FlatCache) : Prop where
  find : ∀ k, c.find? k = m[k]?
  tidy : c.Tidy

variable {c : Cache} {m : FlatCache}

theorem holds_empty : Holds .empty ∅ where
  find _ := Std.ExtHashMap.getElem?_empty.symm
  tidy := tidy_empty

theorem Holds.isSome (h : c.Holds m) (k : CacheKey) : (c.find? k).isSome = true ↔ k ∈ m := by
  rw [h.find, Std.ExtHashMap.mem_iff_isSome_getElem?]

theorem Holds.revise (h : c.Holds m) (rev : Revision) :
    (c.revise rev).1 = (m.revise rev).1 ∧ (c.revise rev).2.Holds (m.revise rev).2 := by
  constructor
  · cases rev with
    | delete k =>
      rw [revise_delete, FlatCache.revise]
      by_cases hk : k ∈ m
      · rw [if_pos ((h.isSome k).2 hk), if_pos hk]
      · rw [if_neg (mt (h.isSome k).1 hk), if_neg hk]
    | _ => rfl
  · refine ⟨fun k => ?_, h.tidy.revise rev⟩
    rw [find?_revise, FlatCache.getElem?_revise, h.find]

theorem Holds.run (h : c.Holds m) (revs : List Revision) :
    (Revision.run Cache.revise c revs).1 = (Revision.run FlatCache.revise m revs).1 ∧
    (Revision.run Cache.revise c revs).2.Holds (Revision.run FlatCache.revise m revs).2 := by
  induction revs generalizing c m with
  | nil => exact ⟨rfl, h⟩
  | cons rev rest ih =>
    obtain ⟨told, hnext⟩ := h.revise rev
    obtain ⟨later, hend⟩ := ih hnext
    exact ⟨congrArg₂ List.cons told later, hend⟩

theorem holds_after (revs : List Revision) : (after revs).Holds (FlatCache.after revs) :=
  (holds_empty.run revs).2

/-! ### Answers -/

/-- What a cache answers is what a flat map has. Both lists ascend strictly, so nothing is in them
twice. -/
structure Answers (c : Cache) (m : FlatCache) : Prop where
  get : ∀ k : CacheKey, c.get k.request k.subscription k.path =
    match m[k]? with
    | some o => .ok o
    | none => .error (.leafUnknown k.request k.subscription k.path)
  list_sorted : ∀ r s, (c.list r s).Pairwise (· < ·)
  mem_list : ∀ r s path, path ∈ c.list r s ↔ ⟨r, s, path⟩ ∈ m
  subscriptions_sorted : ∀ r, (c.subscriptions r).Pairwise (· < ·)
  mem_subscriptions : ∀ r s, s ∈ c.subscriptions r ↔ ∃ path, ⟨r, s, path⟩ ∈ m
  isEmpty_iff : c.isEmpty = true ↔ ∀ k, k ∉ m

theorem Holds.answers (h : c.Holds m) : c.Answers m where
  get k := by
    rw [← h.find k]
    rfl
  list_sorted r s := (c.bucket r s).keys_sorted.imp compareOfLessAndEq_eq_lt.1
  mem_list r s path := by
    rw [list, SortedMap.mem_keys, ← h.isSome, find?_eq]
  subscriptions_sorted r := (c.ofRequest r).keys_sorted.imp Nat.compare_eq_lt.1
  mem_subscriptions r s := by
    rw [subscriptions, SortedMap.mem_keys, h.tidy.isSome_ofRequest]
    simp only [← h.isSome, find?_eq]
  isEmpty_iff := by
    rw [h.tidy.isEmpty_iff]
    constructor
    · intro hempty k hk
      have hsome := (h.isSome k).2 hk
      rw [find?_eq, hempty] at hsome
      cases hsome
    · intro hnone r s
      refine SortedMap.ext_find? fun path => ?_
      have hk := mt (h.isSome ⟨r, s, path⟩).1 (hnone _)
      rw [find?_eq] at hk
      exact Option.not_isSome_iff_eq_none.1 hk

/-! ### The statement -/

/-- After any revisions of the empty cache its buckets are one flat map after the same revisions:
the caller has been told the same and every question is answered from the map, under every key the
map has what the last revision that names the key left there, and no bucket is kept empty. A leaf
can be deleted exactly when it is there, and to try it otherwise changes nothing. Whatever is done
next, keys that it does not name keep what they have. -/
theorem buckets_as_flat (revs : List Revision) :
    (Revision.run revise .empty revs).1 = (Revision.run FlatCache.revise ∅ revs).1 ∧
    (after revs).Answers (FlatCache.after revs) ∧
    (∀ k, (FlatCache.after revs)[k]? = (revs.findRev? (·.names k)).bind (·.left)) ∧
    (after revs).Tidy ∧
    (∀ k ∈ FlatCache.after revs, ((after revs).revise (.delete k)).1 = .ok ()) ∧
    (∀ k ∉ FlatCache.after revs, (after revs).revise (.delete k) =
      (.error (.leafUnknown k.request k.subscription k.path), after revs)) ∧
    ∀ rev k, rev.names k = false →
      ((after revs).revise rev).2.find? k = (after revs).find? k := by
  have h := holds_after revs
  refine ⟨(holds_empty.run revs).1, h.answers, FlatCache.getElem?_after revs, h.tidy,
    fun k hk => ?_, fun k hk => ?_, fun rev k hk => ?_⟩
  · rw [revise_delete, if_pos ((h.isSome k).2 hk)]
  · rw [revise_delete, if_neg (mt (h.isSome k).1 hk)]
  · rw [find?_revise, hk]
    rfl

/-- A leaf is deleted once, and takes its bucket along. -/
example :
    let k : CacheKey := ⟨1, 1, "/t:a/x"⟩
    let (told, c) := Revision.run revise .empty
      [.set 5 k .null, .set 6 ⟨1, 2, "/t:a/x"⟩ .null, .delete k, .delete k]
    told = [.ok (), .ok (), .ok (), .error (.leafUnknown 1 1 "/t:a/x")] ∧ c.subscriptions 1 = [2] :=
  ⟨rfl, rfl⟩

end Cache

end Telemetry
