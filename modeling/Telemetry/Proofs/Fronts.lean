import Mathlib.Data.List.TakeWhile
import Telemetry.Proofs.Written

/-!
# The front of a path

A text that begins like a written path has the elements of that path, whatever follows, if only it
can be read at all. So what stands further down in a path cannot pass for something further up.

* `pieces_front`, `parse_front`: the elements of a written front, and one read off what follows;
* `first_piece`, `first_name`: that one is an element, or at least a name, if it ends where elements
  or names do;
* `legible_of_head?`, `head_of_head?`: a name that was read can be written again.
-/
namespace Telemetry.Path

/-- Nothing more, or the separator before a next element. -/
def Ends (tail : List Char) : Prop := tail = [] ∨ ∃ rest, tail = '/' :: rest

/-- Characters that end neither a name nor an element. -/
def Free (cs : List Char) : Prop := ∀ c ∈ cs, c ≠ '/' ∧ c ≠ '['

theorem crosses_free {cs : List Char} (h : Free cs) : Scan.start.Crosses cs .start := by
  apply Scan.Crosses.stay
  intro c hc
  obtain ⟨hslash, hbracket⟩ := h c hc
  exact ⟨fun hsep => hslash hsep.1, step_start hbracket⟩

theorem first_piece {cs tail : List Char} (h : Scan.start.Crosses cs .start) (ends : Ends tail) :
    (pieces .start (cs ++ tail)).1 = cs := by
  rw [pieces_append h]
  rcases ends with rfl | ⟨rest, rfl⟩
  · simp [pieces]
  · simp [pieces, Scan.outside, Scan.start]

/-- The name at the head of a piece is cut off where its predicates or the next element begin. -/
theorem first_name {name tail : List Char} (h : Free name)
    (ends : Ends tail ∨ ∃ rest, tail = '[' :: rest) :
    (pieces .start (name ++ tail)).1.takeWhile (· ≠ '[') = name := by
  have hname : ∀ c ∈ name, decide (c ≠ '[') = true := fun c hc => decide_eq_true (h c hc).2
  rcases ends with ends | ⟨rest, rfl⟩
  · rw [first_piece (crosses_free h) ends, List.takeWhile_eq_self_iff.2 hname]
  · rw [pieces_append (crosses_free h), List.takeWhile_append_of_pos hname, pieces,
      if_neg (by simp)]
    simp

theorem pieces_front {es : List Elem} (h : ∀ e ∈ es, e.Legible) (rest : List Char) :
    pieces .start (chars es ++ '/' :: rest)
      = ([], es.map Elem.chars ++ (pieces .start rest).1 :: (pieces .start rest).2.1,
          (pieces .start rest).2.2) := by
  induction es with
  | nil => rw [chars, List.flatMap_nil, List.nil_append, pieces, if_pos ⟨rfl, rfl⟩]; rfl
  | cons e es ih =>
    have hrest := ih fun d hd => h d (List.mem_cons_of_mem _ hd)
    have htail : es.flatMap (fun e => '/' :: e.chars) = chars es := rfl
    rw [chars, List.flatMap_cons, htail, List.cons_append, List.cons_append, List.append_assoc,
      pieces, if_pos ⟨rfl, rfl⟩, pieces_append (crosses_chars (h e List.mem_cons_self)), hrest]
    simp

/-- Pieces that begin with written elements are read as these, and then as what follows. -/
theorem elements_front {es ds : List Elem} {q : List Char} {qs : List (List Char)}
    (hes : ∀ e ∈ es, e.Legible)
    (h : List.Forall₂ (fun p e => Elem.parse? p = some e) (es.map Elem.chars ++ q :: qs) ds) :
    ∃ d ds', ds = es ++ d :: ds' ∧ Elem.parse? q = some d := by
  induction es generalizing ds with
  | nil =>
    cases h with
    | cons first _ => exact ⟨_, _, rfl, first⟩
  | cons e es ih =>
    cases h with
    | cons first rest =>
      rw [Elem.parse?_chars (hes e List.mem_cons_self)] at first
      cases first
      obtain ⟨d, ds', rfl, hd⟩ := ih (fun d hd => hes d (List.mem_cons_of_mem _ hd)) rest
      exact ⟨d, ds', rfl, hd⟩

/-- A path that begins like a written one has its elements, and then one read off what follows. -/
theorem parse_front {es ds : List Elem} {rest : List Char} {path : String}
    (hes : ∀ e ∈ es, e.Legible) (hpath : path.toList = chars es ++ '/' :: rest)
    (h : parse path = .ok ds) :
    ∃ d ds', ds = es ++ d :: ds' ∧ Elem.parse? (pieces .start rest).1 = some d := by
  obtain ⟨body, p, ps, hbody, hpieces, hds⟩ := parse_eq_ok.1 h
  have hfull : pieces .start (chars es ++ '/' :: rest) = ([], p :: ps, .start) := by
    rw [← hpath, hbody, pieces, if_pos ⟨rfl, rfl⟩, hpieces]
  rw [pieces_front hes rest] at hfull
  obtain ⟨hsame, -⟩ := Prod.mk.inj (Prod.mk.inj hfull).2
  rw [← hsame] at hds
  exact elements_front hes hds

/-- What is read off a text without separators can be written. -/
theorem legible_of_head? {text : List Char} {m : Option String} {name : String}
    {kvs : List (String × String)} (h : head? text = some (m, name)) (hfree : Free text)
    (hkvs : ∀ kv ∈ kvs, KeyName kv.1 ∧ quote? kv.2.toList ≠ none) : Elem.Legible ⟨m, name, kvs⟩ := by
  unfold head? at h
  split at h
  · next m' name' hcut =>
    obtain ⟨rfl, hcolon⟩ := cut?_eq_some.1 hcut
    split at h
    · cases h
    · next hne =>
      obtain ⟨hm, hname⟩ := not_or.1 hne
      cases h
      refine ⟨⟨by simpa using hname, fun c hc => hfree c ?_⟩, fun m hm' => ?_, by simp, hkvs⟩
      · simp at hc
        simp [hc]
      · obtain rfl := Option.some.inj hm'
        rw [String.toList_ofList]
        exact ⟨⟨hm, fun c hc => hfree c (by simp [hc])⟩, hcolon⟩
  · next hcut =>
    split at h
    · cases h
    · next hne =>
      cases h
      refine ⟨⟨by simpa using hne, fun c hc => hfree c (by simpa using hc)⟩, by simp, fun _ => ?_, hkvs⟩
      simpa using cut?_eq_none.1 hcut

/-- The head of an element is the text it was read off. -/
theorem head_of_head? {text : List Char} {m : Option String} {name : String}
    {kvs : List (String × String)} (h : head? text = some (m, name)) :
    Elem.head ⟨m, name, kvs⟩ = text := by
  unfold head? at h
  split at h
  · next m' name' hcut =>
    obtain ⟨rfl, -⟩ := cut?_eq_some.1 hcut
    split at h
    · cases h
    · cases h
      simp [Elem.head]
  · split at h
    · cases h
    · cases h
      simp [Elem.head]

end Telemetry.Path
