/-!
# Finite maps kept in key order

A `SortedMap` lists its entries by strictly ascending key, and the order is part of the type. Two
maps with the same look-ups are therefore equal (`ext_find?`), and a walk over the entries is a
walk in key order. Each operation comes with its effect on `find?`.
-/
namespace Telemetry

/-- The entries of a finite map, by strictly ascending key. -/
structure SortedMap (κ : Type) (ν : Type) [Ord κ] where
  entries : List (κ × ν)
  sorted : entries.Pairwise fun a b => compare a.1 b.1 = .lt

namespace SortedMap

variable {κ ν : Type} [Ord κ]

instance [DecidableEq κ] [DecidableEq ν] : DecidableEq (SortedMap κ ν) := fun a b =>
  match a, b with
  | ⟨xs, _⟩, ⟨ys, _⟩ =>
    if h : xs = ys then isTrue (by subst h; rfl) else isFalse (by simp [h])

instance [Repr κ] [Repr ν] : Repr (SortedMap κ ν) := ⟨fun m n => reprPrec m.entries n⟩

def empty : SortedMap κ ν := ⟨[], .nil⟩

instance : Inhabited (SortedMap κ ν) := ⟨empty⟩

def isEmpty (m : SortedMap κ ν) : Bool := m.entries.isEmpty

def keys (m : SortedMap κ ν) : List κ := m.entries.map (·.1)

/-! ## Entry lists -/

def lookup (k : κ) : List (κ × ν) → Option ν
  | [] => none
  | (k', v) :: rest => if compare k k' = .eq then some v else lookup k rest

/-- Puts `v` at its place, over an entry of the same key. -/
def put (k : κ) (v : ν) : List (κ × ν) → List (κ × ν)
  | [] => [(k, v)]
  | (k', v') :: rest =>
    match compare k k' with
    | .lt => (k, v) :: (k', v') :: rest
    | .eq => (k, v) :: rest
    | .gt => (k', v') :: put k v rest

theorem mem_put {k : κ} {v : ν} {e : κ × ν} {l : List (κ × ν)} (h : e ∈ put k v l) :
    e = (k, v) ∨ e ∈ l := by
  induction l with
  | nil => simpa [put] using h
  | cons a rest ih =>
    obtain ⟨k', v'⟩ := a
    rw [put] at h
    split at h
    · simpa using h
    · rcases List.mem_cons.1 h with h | h
      · exact .inl h
      · exact .inr (List.mem_cons_of_mem _ h)
    · rcases List.mem_cons.1 h with h | h
      · exact .inr (h ▸ List.mem_cons_self)
      · rcases ih h with h | h
        · exact .inl h
        · exact .inr (List.mem_cons_of_mem _ h)

section

variable [Std.LawfulEqOrd κ]

theorem lookup_put_self (k : κ) (v : ν) (l : List (κ × ν)) : lookup k (put k v l) = some v := by
  induction l with
  | nil => simp [put, lookup]
  | cons a rest ih =>
    obtain ⟨k', v'⟩ := a
    rw [put]
    split
    · simp [lookup]
    · simp [lookup]
    · next hk => simp [lookup, hk, ih]

theorem lookup_put_of_ne {k k' : κ} (v : ν) (l : List (κ × ν)) (h : k' ≠ k) :
    lookup k' (put k v l) = lookup k' l := by
  have hne : compare k' k ≠ .eq := fun e => h (Std.LawfulEqOrd.eq_of_compare e)
  induction l with
  | nil => simp [put, lookup, hne]
  | cons a rest ih =>
    obtain ⟨k₀, v₀⟩ := a
    rw [put]
    split
    · simp [lookup, hne]
    · next hk =>
      obtain rfl := Std.LawfulEqOrd.eq_of_compare hk
      simp [lookup, hne]
    · simp [lookup, ih]

theorem lookup_eq_none {k : κ} {l : List (κ × ν)} :
    lookup k l = none ↔ ∀ e ∈ l, e.1 ≠ k := by
  induction l with
  | nil => simp [lookup]
  | cons a rest ih =>
    obtain ⟨k', v'⟩ := a
    by_cases h : compare k k' = .eq
    · obtain rfl := Std.LawfulEqOrd.eq_of_compare h
      simp [lookup]
    · have hne : k' ≠ k := fun e => h (by simp [e])
      simp [lookup, h, ih, hne]

theorem lookup_eq_some {k : κ} {v : ν} {l : List (κ × ν)}
    (h : l.Pairwise fun a b => compare a.1 b.1 = .lt) : lookup k l = some v ↔ (k, v) ∈ l := by
  induction l with
  | nil => simp [lookup]
  | cons a rest ih =>
    obtain ⟨k', v'⟩ := a
    have hr := List.pairwise_cons.1 h
    by_cases hk : compare k k' = .eq
    · obtain rfl := Std.LawfulEqOrd.eq_of_compare hk
      have hrest : (k, v) ∉ rest := fun hm => by simpa using hr.1 _ hm
      simp only [lookup, hk, if_true, List.mem_cons, Prod.mk.injEq, true_and, hrest, or_false,
        Option.some.injEq]
      exact eq_comm
    · have hne : k ≠ k' := fun e => hk (by simp [e])
      simp [lookup, hk, ih hr.2, hne]

end

variable [Std.TransOrd κ] [Std.LawfulEqOrd κ]

theorem put_sorted {k : κ} {v : ν} {l : List (κ × ν)}
    (h : l.Pairwise fun a b => compare a.1 b.1 = .lt) :
    (put k v l).Pairwise fun a b => compare a.1 b.1 = .lt := by
  induction l with
  | nil => simp [put]
  | cons a rest ih =>
    obtain ⟨k', v'⟩ := a
    have hr := List.pairwise_cons.1 h
    rw [put]
    split
    · next hk =>
      refine List.pairwise_cons.2 ⟨fun b hb => ?_, h⟩
      rcases List.mem_cons.1 hb with rfl | hb
      · exact hk
      · exact Std.TransCmp.lt_trans hk (hr.1 b hb)
    · next hk =>
      obtain rfl := Std.LawfulEqOrd.eq_of_compare hk
      exact List.pairwise_cons.2 ⟨hr.1, hr.2⟩
    · next hk =>
      refine List.pairwise_cons.2 ⟨fun b hb => ?_, ih hr.2⟩
      rcases mem_put hb with rfl | hb
      · exact Std.OrientedCmp.lt_of_gt hk
      · exact hr.1 b hb

/-- Sorted entry lists with the same look-ups are the same list. -/
theorem eq_of_lookup_eq {l m : List (κ × ν)}
    (hl : l.Pairwise fun a b => compare a.1 b.1 = .lt)
    (hm : m.Pairwise fun a b => compare a.1 b.1 = .lt)
    (h : ∀ k, lookup k l = lookup k m) : l = m := by
  induction l generalizing m with
  | nil =>
    cases m with
    | nil => rfl
    | cons b m => simpa [lookup] using h b.1
  | cons a l ih =>
    cases m with
    | nil => simpa [lookup] using h a.1
    | cons b m =>
      have hl' := List.pairwise_cons.1 hl
      have hm' := List.pairwise_cons.1 hm
      have key : a.1 = b.1 := by
        by_cases hk : a.1 = b.1
        · exact hk
        · have h₁ : (a.1, a.2) ∈ b :: m := (lookup_eq_some hm).1 (h a.1 ▸ by simp [lookup])
          have h₂ : (b.1, b.2) ∈ a :: l := (lookup_eq_some hl).1 (h b.1 ▸ by simp [lookup])
          rcases List.mem_cons.1 h₁ with h₁ | h₁
          · exact congrArg Prod.fst h₁
          · rcases List.mem_cons.1 h₂ with h₂ | h₂
            · exact (congrArg Prod.fst h₂).symm
            · have c₁ : compare b.1 a.1 = .lt := hm'.1 _ h₁
              have c₂ : compare a.1 b.1 = .lt := hl'.1 _ h₂
              simp [Std.OrientedCmp.gt_of_lt c₁] at c₂
      have val : a.2 = b.2 := by simpa [lookup, key] using h a.1
      have hab : a = b := Prod.ext key val
      subst hab
      refine congrArg (a :: ·) (ih hl'.2 hm'.2 fun k => ?_)
      by_cases hk : compare k a.1 = .eq
      · obtain rfl := Std.LawfulEqOrd.eq_of_compare hk
        have none_of {l' : List (κ × ν)} (hlt : ∀ e ∈ l', compare a.1 e.1 = .lt) :
            lookup a.1 l' = none :=
          lookup_eq_none.2 fun e he eq => by simpa [eq] using hlt e he
        rw [none_of hl'.1, none_of hm'.1]
      · simpa [lookup, hk] using h k

/-! ## Operations -/

def find? (m : SortedMap κ ν) (k : κ) : Option ν := lookup k m.entries

def contains (m : SortedMap κ ν) (k : κ) : Bool := (m.find? k).isSome

def insert (m : SortedMap κ ν) (k : κ) (v : ν) : SortedMap κ ν :=
  ⟨put k v m.entries, put_sorted m.sorted⟩

def filter (p : κ → ν → Bool) (m : SortedMap κ ν) : SortedMap κ ν :=
  ⟨m.entries.filter fun e => p e.1 e.2, m.sorted.filter _⟩

def erase (m : SortedMap κ ν) (k : κ) : SortedMap κ ν :=
  m.filter fun k' _ => compare k k' != .eq

/-- Changes values and keeps keys. -/
def map (f : κ → ν → μ) (m : SortedMap κ ν) : SortedMap κ μ :=
  ⟨m.entries.map fun e => (e.1, f e.1 e.2), List.pairwise_map.2 m.sorted⟩

/-- Of two entries with one key the later counts. -/
def ofList (l : List (κ × ν)) : SortedMap κ ν :=
  l.foldl (fun m e => m.insert e.1 e.2) empty

theorem ext_find? {m n : SortedMap κ ν} (h : ∀ k, m.find? k = n.find? k) : m = n := by
  obtain ⟨xs, hx⟩ := m
  obtain ⟨ys, hy⟩ := n
  obtain rfl : xs = ys := eq_of_lookup_eq hx hy h
  rfl

omit [Std.TransOrd κ] in
theorem find?_eq_some {m : SortedMap κ ν} {k : κ} {v : ν} :
    m.find? k = some v ↔ (k, v) ∈ m.entries := lookup_eq_some m.sorted

omit [Std.TransOrd κ] [Std.LawfulEqOrd κ] in
@[simp] theorem find?_empty (k : κ) : (empty : SortedMap κ ν).find? k = none := rfl

@[simp] theorem find?_insert_self (m : SortedMap κ ν) (k : κ) (v : ν) :
    (m.insert k v).find? k = some v := lookup_put_self ..

theorem find?_insert_of_ne {m : SortedMap κ ν} {k k' : κ} (v : ν) (h : k' ≠ k) :
    (m.insert k v).find? k' = m.find? k' := lookup_put_of_ne _ _ h

omit [Std.TransOrd κ] in
theorem find?_filter (p : κ → ν → Bool) (m : SortedMap κ ν) (k : κ) :
    (m.filter p).find? k = (m.find? k).filter (p k) := by
  apply Option.ext
  intro v
  rw [find?_eq_some]
  simp only [filter, List.mem_filter, ← find?_eq_some, Option.filter_eq_some_iff]

omit [Std.TransOrd κ] in
theorem find?_map (f : κ → ν → μ) (m : SortedMap κ ν) (k : κ) :
    (m.map f).find? k = (m.find? k).map (f k) := by
  obtain ⟨l, h⟩ := m
  simp only [find?, map]
  clear h
  induction l with
  | nil => rfl
  | cons a rest ih =>
    obtain ⟨k', v⟩ := a
    by_cases hk : compare k k' = .eq
    · obtain rfl := Std.LawfulEqOrd.eq_of_compare hk
      simp [lookup]
    · simpa [lookup, hk] using ih

omit [Std.TransOrd κ] in
@[simp] theorem find?_erase_self (m : SortedMap κ ν) (k : κ) : (m.erase k).find? k = none := by
  simp [erase, find?_filter]

omit [Std.TransOrd κ] in
theorem find?_erase_of_ne {m : SortedMap κ ν} {k k' : κ} (h : k' ≠ k) :
    (m.erase k).find? k' = m.find? k' := by
  have hne : compare k k' ≠ .eq := fun e => h (Std.LawfulEqOrd.eq_of_compare e).symm
  cases hf : m.find? k' <;> simp [erase, find?_filter, hne, hf, Option.filter]

theorem find?_foldl_insert {l : List (κ × ν)}
    (h : ∀ k v v', (k, v) ∈ l → (k, v') ∈ l → v = v') (m : SortedMap κ ν) (k : κ) (v : ν) :
    (l.foldl (fun m e => m.insert e.1 e.2) m).find? k = some v ↔
      (k, v) ∈ l ∨ (∀ v', (k, v') ∉ l) ∧ m.find? k = some v := by
  induction l generalizing m with
  | nil => simp
  | cons e l ih =>
    obtain ⟨k', v'⟩ := e
    have hl := ih fun a b c hb hc => h a b c (List.mem_cons_of_mem _ hb) (List.mem_cons_of_mem _ hc)
    rw [List.foldl_cons, hl]
    by_cases hk : k = k'
    · subst hk
      have hsame {w : ν} (hw : (k, w) ∈ l) : w = v' :=
        h k w v' (List.mem_cons_of_mem _ hw) List.mem_cons_self
      simp only [find?_insert_self, Option.some.injEq, List.mem_cons, Prod.mk.injEq, true_and]
      constructor
      · rintro (hv | ⟨-, rfl⟩)
        · exact .inl (.inr hv)
        · exact .inl (.inl rfl)
      · rintro ((rfl | hv) | ⟨hnone, -⟩)
        · by_cases hv : (k, v) ∈ l
          · exact .inl hv
          · exact .inr ⟨fun w hw => hv (hsame hw ▸ hw), rfl⟩
        · exact .inl hv
        · exact absurd (.inl rfl) (hnone v')
    · simp [find?_insert_of_ne _ hk, hk]

/-- The map of a list that never gives one key two values. -/
theorem find?_ofList {l : List (κ × ν)} (h : ∀ k v v', (k, v) ∈ l → (k, v') ∈ l → v = v') (k : κ)
    (v : ν) : (ofList l).find? k = some v ↔ (k, v) ∈ l := by
  rw [ofList, find?_foldl_insert h]
  simp

end SortedMap

end Telemetry
