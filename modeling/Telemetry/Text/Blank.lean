/-!
# Blanks

The characters Unicode counts as white space, and what is left of a text without them at its ends
or between its words.
-/
namespace Telemetry.Text

/-- The property `White_Space`. A zero-width space is not in it, a no-break space is. -/
def isBlank (c : Char) : Bool :=
  let n := c.toNat
  (0x9 ≤ n && n ≤ 0xD) || n == 0x20 || n == 0x85 || n == 0xA0 || n == 0x1680
    || (0x2000 ≤ n && n ≤ 0x200A) || n == 0x2028 || n == 0x2029 || n == 0x202F || n == 0x205F
    || n == 0x3000

theorem isBlank_of_isWhitespace {c : Char} (h : c.isWhitespace = true) : isBlank c = true := by
  simp only [Char.isWhitespace, Bool.or_eq_true, decide_eq_true_eq] at h
  rcases h with ((rfl | rfl) | rfl) | rfl <;> decide

/-- The text without the blanks at its end. -/
def dropTrailing (cs : List Char) : List Char :=
  cs.foldr (fun c rest => if isBlank c && rest.isEmpty then [] else c :: rest) []

/-- The text without the blanks at either end. -/
def trim (cs : List Char) : List Char := dropTrailing (cs.dropWhile isBlank)

theorem dropTrailing_cons (c : Char) (cs : List Char) :
    dropTrailing (c :: cs)
      = if isBlank c = true ∧ dropTrailing cs = [] then [] else c :: dropTrailing cs := by
  simp [dropTrailing]

theorem dropTrailing_sublist (cs : List Char) : (dropTrailing cs).Sublist cs := by
  induction cs with
  | nil => exact .slnil
  | cons c cs ih =>
    rw [dropTrailing_cons]
    split
    · exact List.nil_sublist _
    · exact ih.cons_cons c

theorem dropTrailing_blanks {cs : List Char} (h : ∀ c ∈ cs, isBlank c = true) :
    dropTrailing cs = [] := by
  induction cs with
  | nil => rfl
  | cons c cs ih =>
    have hcs := ih fun d hd => h d (List.mem_cons_of_mem _ hd)
    rw [dropTrailing_cons, if_pos ⟨h c List.mem_cons_self, hcs⟩]

theorem dropTrailing_append_blanks {bs : List Char} (cs : List Char)
    (h : ∀ c ∈ bs, isBlank c = true) : dropTrailing (cs ++ bs) = dropTrailing cs := by
  induction cs with
  | nil => exact dropTrailing_blanks h
  | cons c cs ih => rw [List.cons_append, dropTrailing_cons, dropTrailing_cons, ih]

/-- A text with a blank at its end is not left as it is. -/
theorem dropTrailing_eq_self_iff {cs : List Char} :
    dropTrailing cs = cs ↔ ∀ c ∈ cs.getLast?, isBlank c = false := by
  induction cs with
  | nil => simp [dropTrailing]
  | cons c cs ih =>
    rw [dropTrailing_cons]
    cases cs with
    | nil => cases hc : isBlank c <;> simp [dropTrailing, hc]
    | cons d cs =>
      rw [List.getLast?_cons_cons, ← ih]
      split
      · next h => simp [h.2]
      · simp

theorem last_dropTrailing (cs : List Char) : ∀ c ∈ (dropTrailing cs).getLast?, isBlank c = false := by
  apply dropTrailing_eq_self_iff.1
  induction cs with
  | nil => rfl
  | cons c cs ih =>
    rw [dropTrailing_cons]
    split
    · rfl
    · next h => rw [dropTrailing_cons, ih, if_neg h]

theorem trim_sublist (cs : List Char) : (trim cs).Sublist cs :=
  (dropTrailing_sublist _).trans (List.dropWhile_sublist _)

theorem trim_eq_self_iff {cs : List Char} :
    trim cs = cs ↔ (∀ c ∈ cs.head?, isBlank c = false) ∧ ∀ c ∈ cs.getLast?, isBlank c = false := by
  cases cs with
  | nil => simp [trim, dropTrailing]
  | cons d cs =>
    cases hd : isBlank d with
    | false =>
      have htrim : trim (d :: cs) = dropTrailing (d :: cs) := by simp [trim, hd]
      rw [htrim, dropTrailing_eq_self_iff]
      simp [hd]
    | true =>
      have hlt : (trim (d :: cs)).length < (d :: cs).length := by
        have hle := (dropTrailing_sublist (cs.dropWhile isBlank)).length_le
        have hle' := (List.dropWhile_sublist (l := cs) isBlank).length_le
        simp only [trim, List.dropWhile_cons, hd, if_true, List.length_cons]
        omega
      constructor
      · intro h
        rw [h] at hlt
        exact absurd hlt (Nat.lt_irrefl _)
      · intro h
        simp [hd] at h

/-- Blanks around a text do not count. -/
theorem trim_between {before after : List Char} (cs : List Char)
    (hbefore : ∀ c ∈ before, isBlank c = true) (hafter : ∀ c ∈ after, isBlank c = true) :
    trim (before ++ cs ++ after) = trim cs := by
  unfold trim
  rw [List.append_assoc, List.dropWhile_append_of_pos hbefore]
  induction cs with
  | nil =>
    have hnil : (after ++ []).dropWhile isBlank = [] := List.dropWhile_append_of_pos hafter
    rw [List.append_nil] at hnil
    rw [List.nil_append, hnil, List.dropWhile_nil]
  | cons c cs ih =>
    cases hc : isBlank c with
    | true => simpa [hc] using ih
    | false =>
      have hfull : (c :: cs ++ after).dropWhile isBlank = c :: cs ++ after := by simp [hc]
      have hself : (c :: cs).dropWhile isBlank = c :: cs := by simp [hc]
      rw [hfull, hself, dropTrailing_append_blanks _ hafter]

/-- The words of a text: its longest runs without a blank. -/
def words : List Char → List (List Char)
  | [] => []
  | c :: cs =>
    if isBlank c then words cs
    else
      match cs, words cs with
      | d :: _, w :: ws => if isBlank d then [c] :: w :: ws else (c :: w) :: ws
      | _, ws => [c] :: ws

end Telemetry.Text
