import Mathlib.Data.List.Forall2
import Mathlib.Data.List.TakeWhile
import Telemetry.Path.Parser

/-!
# What is read as a path

A text is scanned twice: for the slashes between elements, and then, piece by piece, for names and
predicates. Here both scans are described for every text, whether or not it was written as a path.

Results:
* `predicate?_eq_some`, `predicates?_eq_some`: what is read as a predicate, and as several;
* `Elem.parse?_eq_some`: what is read as an element;
* `pieces_join`, `cut_of_pieces`: the text is cut into pieces that the scan crosses;
* `parse_eq_ok`, `parse_eq_ok_iff`: a path is made of such pieces, a slash before each, that are
  read as its elements.
-/
namespace Telemetry.Path

/-! ## Predicates -/

theorem cut?_eq_none {c : Char} {cs : List Char} : cut? c cs = none ↔ c ∉ cs := by
  induction cs with
  | nil => simp [cut?]
  | cons d ds ih =>
    rw [cut?]
    split
    · next h => simp [h]
    · next h => simp [ih, Ne.symm h]

theorem afterColon_of_notMem {cs : List Char} (h : ':' ∉ cs) : afterColon cs = cs := by
  cases cs with
  | nil => rfl
  | cons c cs =>
    obtain ⟨hc, hcs⟩ := not_or.1 (mt List.mem_cons.2 h)
    rw [afterColon, if_neg hcs, if_neg (Ne.symm hc)]

/-- A module name in front of a name plays no part. -/
theorem afterColon_append (m name : List Char) :
    afterColon (m ++ ':' :: name) = afterColon name := by
  induction m with
  | nil =>
    rw [List.nil_append, afterColon]
    split
    · rfl
    · next h => rw [if_pos rfl, afterColon_of_notMem h]
  | cons c m ih => rw [List.cons_append, afterColon, if_pos (by simp), ih]

theorem afterColon_suffix (cs : List Char) : afterColon cs <:+ cs := by
  induction cs with
  | nil => exact List.suffix_rfl
  | cons c cs ih =>
    rw [afterColon]
    split
    · exact ih.trans (List.suffix_cons c cs)
    · split
      · exact List.suffix_cons c cs
      · exact List.suffix_rfl

theorem colon_notMem_afterColon (cs : List Char) : ':' ∉ afterColon cs := by
  induction cs with
  | nil => simp [afterColon]
  | cons c cs ih =>
    rw [afterColon]
    split
    · exact ih
    · next hcs =>
      split
      · exact hcs
      · next hc => simp [Ne.symm hc, hcs]

/-- Between brackets, the key name in this spelling and the value in these quotes are read as the
given predicate. -/
structure Spells (raw : List Char) (q : Char) (kv : String × String) : Prop where
  plain : '=' ∉ raw
  key : keyName raw = kv.1.toList
  ne_nil : kv.1.toList ≠ []
  quote : q = '\'' ∨ q = '"'
  free : q ∉ kv.2.toList

theorem predicate?_eq_some {cs rest : List Char} {kv : String × String} :
    predicate? cs = some (kv, rest) ↔
      ∃ raw q, Spells raw q kv ∧ cs = predicateText raw q kv.2.toList ++ rest := by
  constructor
  · intro h
    unfold predicate? at h
    split at h
    · next body =>
      simp only [Option.bind_eq_bind, Option.bind_eq_some_iff, Prod.exists] at h
      obtain ⟨raw, after, hraw, h⟩ := h
      obtain ⟨rfl, hplain⟩ := cut?_eq_some.1 hraw
      split at h
      · next q after =>
        split at h
        · next hquote =>
          simp only [Option.bind_eq_some_iff, Prod.exists] at h
          obtain ⟨value, after, hvalue, h⟩ := h
          obtain ⟨rfl, hfree⟩ := cut?_eq_some.1 hvalue
          split at h
          · next rest' =>
            split at h
            · cases h
            · next hne =>
              cases h
              exact ⟨raw, q, ⟨hplain, by simp, by simpa using hne, hquote, by simpa using hfree⟩,
                by simp [predicateText]⟩
          · cases h
        · cases h
      · cases h
    · cases h
  · rintro ⟨raw, q, hs, rfl⟩
    have hbody : predicateText raw q kv.2.toList ++ rest
        = '[' :: (raw ++ '=' :: q :: (kv.2.toList ++ q :: ']' :: rest)) := by
      simp [predicateText]
    have hkey : cut? '=' (raw ++ '=' :: q :: (kv.2.toList ++ q :: ']' :: rest))
        = some (raw, q :: (kv.2.toList ++ q :: ']' :: rest)) := cut?_eq_some.2 ⟨rfl, hs.plain⟩
    have hvalue : cut? q (kv.2.toList ++ q :: ']' :: rest) = some (kv.2.toList, ']' :: rest) :=
      cut?_eq_some.2 ⟨rfl, hs.free⟩
    rw [hbody]
    simp [predicate?, hkey, hs.quote, hvalue, hs.key, hs.ne_nil]

/-- A text that is read as these predicates. -/
inductive Predicates : List Char → List (String × String) → Prop
  | nil : Predicates [] []
  | cons {raw : List Char} {q : Char} {kv : String × String} {cs : List Char}
      {kvs : List (String × String)} (first : Spells raw q kv) (rest : Predicates cs kvs) :
      Predicates (predicateText raw q kv.2.toList ++ cs) (kv :: kvs)

theorem predicates?_eq_some {cs : List Char} {kvs : List (String × String)} :
    predicates? cs = some kvs ↔ Predicates cs kvs := by
  constructor
  · intro h
    induction kvs generalizing cs with
    | nil =>
      rw [predicates?] at h
      split at h
      · next hcs => exact hcs ▸ .nil
      · split at h
        · cases h
        · simp at h
    | cons kv kvs ih =>
      rw [predicates?] at h
      split at h
      · cases h
      · split at h
        · cases h
        · next kv' rest hfirst =>
          obtain ⟨kvs', hrest, heq⟩ := Option.map_eq_some_iff.1 h
          cases heq
          obtain ⟨raw, q, hs, rfl⟩ := predicate?_eq_some.1 hfirst
          exact .cons hs (ih hrest)
  · intro h
    induction h with
    | nil => rw [predicates?, if_pos rfl]
    | @cons raw q kv cs kvs first _ ih =>
      have hfirst : predicate? (predicateText raw q kv.2.toList ++ cs) = some (kv, cs) :=
        predicate?_eq_some.2 ⟨raw, q, first, rfl⟩
      rw [predicates?, if_neg (by simp [predicateText])]
      split
      · next hnone => cases hfirst.symm.trans hnone
      · next hsome =>
        cases hfirst.symm.trans hsome
        rw [ih]
        rfl

/-- Predicates begin with a bracket, if there are any. -/
theorem Predicates.takeWhile {cs : List Char} {kvs : List (String × String)}
    (h : Predicates cs kvs) : cs.takeWhile (· ≠ '[') = [] := by
  cases h with
  | nil => rfl
  | cons => simp [predicateText]

/-! ## Elements -/

/-- A text that is read as this element: a head without brackets, and its predicates. -/
theorem Elem.parse?_eq_some {cs : List Char} {e : Elem} :
    Elem.parse? cs = some e ↔ ∃ head tail, cs = head ++ tail ∧ '[' ∉ head ∧
      head? head = some (e.moduleName, e.name) ∧ Predicates tail e.keys := by
  unfold Elem.parse?
  constructor
  · intro h
    simp only [Option.bind_eq_bind, Option.bind_eq_some_iff, Prod.exists, Option.pure_def,
      Option.some.injEq] at h
    obtain ⟨m, name, hhead, keys, hkeys, rfl⟩ := h
    refine ⟨_, _, List.takeWhile_append_dropWhile.symm, fun hb => ?_, hhead,
      predicates?_eq_some.1 hkeys⟩
    simpa using List.mem_takeWhile_imp hb
  · rintro ⟨head, tail, rfl, hb, hhead, hkeys⟩
    have hplain : ∀ c ∈ head, decide (c ≠ '[') = true := by
      intro c hc
      exact decide_eq_true fun h => hb (h ▸ hc)
    have htake : (head ++ tail).takeWhile (· ≠ '[') = head := by
      rw [List.takeWhile_append_of_pos hplain, hkeys.takeWhile, List.append_nil]
    have hdrop : (head ++ tail).dropWhile (· ≠ '[') = tail := by
      have hall := List.takeWhile_append_dropWhile (p := (· ≠ '[')) (l := head ++ tail)
      rw [htake] at hall
      exact List.append_cancel_left hall
    rw [htake, hdrop, hhead, predicates?_eq_some.2 hkeys]
    rfl

theorem Elem.parse_eq_ok {cs : List Char} {e : Elem} :
    Elem.parse cs = .ok e ↔ Elem.parse? cs = some e := by
  unfold Elem.parse
  split <;> simp_all

/-! ## Separators -/

/-- The scan meets no separator in a text and ends in the given state. -/
inductive Scan.Crosses : Scan → List Char → Scan → Prop
  | nil {s : Scan} : Crosses s [] s
  | cons {s t : Scan} {c : Char} {cs : List Char} (hc : ¬(c = '/' ∧ s.outside = true))
      (h : Crosses (s.step c) cs t) : Crosses s (c :: cs) t

namespace Scan.Crosses

theorem append {s t u : Scan} {cs ds : List Char} (h : Crosses s cs t) (h' : Crosses t ds u) :
    Crosses s (cs ++ ds) u := by
  induction h with
  | nil => exact h'
  | cons hc _ ih => exact .cons hc (ih h')

/-- A text no character of which changes the state. -/
theorem stay {s : Scan} {cs : List Char}
    (h : ∀ c ∈ cs, ¬(c = '/' ∧ s.outside = true) ∧ s.step c = s) : Crosses s cs s := by
  induction cs with
  | nil => exact .nil
  | cons c cs ih =>
    obtain ⟨hc, hs⟩ := h c List.mem_cons_self
    refine .cons hc ?_
    rw [hs]
    exact ih fun d hd => h d (List.mem_cons_of_mem _ hd)

end Scan.Crosses

theorem pieces_append {s t : Scan} {cs : List Char} (h : s.Crosses cs t) (rest : List Char) :
    pieces s (cs ++ rest) = (cs ++ (pieces t rest).1, (pieces t rest).2) := by
  induction h with
  | nil => rfl
  | cons hc _ ih =>
    rw [List.cons_append, pieces, if_neg hc, ih]
    rfl

theorem step_start {c : Char} (h : c ≠ '[') : Scan.start.step c = Scan.start := by
  simp [Scan.step, Scan.start, h]

theorem outside_iff {s : Scan} : s.outside = true ↔ s = .start := by
  obtain ⟨depth, quote⟩ := s
  simp [Scan.outside, Scan.start]

/-- Pieces with a slash before each. -/
def slashed (ps : List (List Char)) : List Char := ps.flatMap ('/' :: ·)

/-- Pieces that the scan crosses are cut apart again. -/
theorem pieces_join {s : Scan} {p : List Char} {ps : List (List Char)} (hp : s.Crosses p .start)
    (hps : ∀ q ∈ ps, Scan.start.Crosses q .start) : pieces s (p ++ slashed ps) = (p, ps, .start) := by
  induction ps generalizing s p with
  | nil =>
    rw [pieces_append hp]
    simp [slashed, pieces]
  | cons q ps ih =>
    have hq := ih (hps q List.mem_cons_self) fun r hr => hps r (List.mem_cons_of_mem _ hr)
    have hsep : pieces .start (slashed (q :: ps)) = ([], q :: ps, .start) := by
      have hcons : slashed (q :: ps) = '/' :: (q ++ slashed ps) := by simp [slashed]
      rw [hcons, pieces, if_pos ⟨rfl, rfl⟩, hq]
    rw [pieces_append hp, hsep, List.append_nil]

/-- A text after which the scan is outside is put together from the pieces it is cut into, and the
scan crosses each of them. -/
theorem cut_of_pieces {s : Scan} {cs p : List Char} {ps : List (List Char)}
    (h : pieces s cs = (p, ps, .start)) :
    cs = p ++ slashed ps ∧ s.Crosses p .start ∧ ∀ q ∈ ps, Scan.start.Crosses q .start := by
  induction cs generalizing s p ps with
  | nil =>
    cases h
    exact ⟨rfl, .nil, by simp⟩
  | cons c cs ih =>
    rw [pieces] at h
    split at h
    · next hsep =>
      obtain ⟨rfl, houtside⟩ := hsep
      obtain rfl := outside_iff.1 houtside
      rcases hrest : pieces .start cs with ⟨q, qs, last⟩
      rw [hrest] at h
      cases h
      obtain ⟨rfl, hq, hqs⟩ := ih hrest
      refine ⟨by simp [slashed], .nil, fun r hr => ?_⟩
      rcases List.mem_cons.1 hr with rfl | hr
      · exact hq
      · exact hqs r hr
    · next hsep =>
      rcases hrest : pieces (s.step c) cs with ⟨q, qs, last⟩
      rw [hrest] at h
      cases h
      obtain ⟨rfl, hq, hqs⟩ := ih hrest
      exact ⟨rfl, .cons hsep hq, hqs⟩

/-! ## Paths -/

theorem mapM_parse_eq_ok {ps : List (List Char)} {es : List Elem} :
    ps.mapM Elem.parse = .ok es ↔ List.Forall₂ (fun p e => Elem.parse? p = some e) ps es := by
  induction ps generalizing es with
  | nil => simp [pure, Except.pure, eq_comm]
  | cons p ps ih =>
    rw [List.mapM_cons, List.forall₂_cons_left_iff]
    constructor
    · intro h
      cases hp : Elem.parse p with
      | error err => simp [hp, bind, Except.bind] at h
      | ok e =>
        cases hps : ps.mapM Elem.parse with
        | error err => simp [hp, hps, bind, Except.bind] at h
        | ok es' =>
          simp only [hp, hps, bind, Except.bind, pure, Except.pure, Except.ok.injEq] at h
          exact ⟨e, es', Elem.parse_eq_ok.1 hp, ih.1 hps, h.symm⟩
    · rintro ⟨e, es', hp, hps, rfl⟩
      rw [Elem.parse_eq_ok.2 hp, ih.2 hps]
      rfl

/-- A path is read as the elements its pieces are read as. -/
theorem parse_eq_ok {path : String} {es : List Elem} :
    parse path = .ok es ↔ ∃ body p ps, path.toList = '/' :: body ∧
      pieces .start body = (p, ps, .start) ∧
      List.Forall₂ (fun p e => Elem.parse? p = some e) (p :: ps) es := by
  unfold parse
  constructor
  · intro h
    split at h
    · next body hpath =>
      rcases hpieces : pieces .start body with ⟨p, ps, last⟩
      simp only [hpieces] at h
      split at h
      · next hlast =>
        obtain rfl := outside_iff.1 hlast
        exact ⟨body, p, ps, hpath, hpieces, mapM_parse_eq_ok.1 h⟩
      · split at h <;> cases h
    · cases h
  · rintro ⟨body, p, ps, hpath, hpieces, hes⟩
    rw [hpath]
    simp only [hpieces]
    rw [if_pos (by decide), mapM_parse_eq_ok.2 hes]

/-- A text that is read as this element wherever it stands in a path. -/
def Reads (p : List Char) (e : Elem) : Prop :=
  Scan.start.Crosses p .start ∧ Elem.parse? p = some e

/-- Before its first bracket the scan is outside all the time. -/
theorem Scan.Crosses.slash_notMem {head tail : List Char} {t : Scan}
    (h : Scan.start.Crosses (head ++ tail) t) (hb : '[' ∉ head) : '/' ∉ head := by
  induction head with
  | nil => simp
  | cons c head ih =>
    obtain ⟨hc, hhead⟩ := not_or.1 (mt List.mem_cons.2 hb)
    cases h with
    | cons hsep hrest =>
      rw [step_start (Ne.symm hc)] at hrest
      intro hmem
      rcases List.mem_cons.1 hmem with rfl | hmem
      · exact hsep ⟨rfl, rfl⟩
      · exact ih hrest hhead hmem

/-- An element has a head that ends where its predicates begin. -/
theorem Reads.head {p : List Char} {e : Elem} (h : Reads p e) :
    ∃ head tail, p = head ++ tail ∧ (∀ c ∈ head, c ≠ '/' ∧ c ≠ '[') ∧
      head? head = some (e.moduleName, e.name) ∧ Predicates tail e.keys := by
  obtain ⟨hcross, hparse⟩ := h
  obtain ⟨head, tail, rfl, hb, hhead, hkeys⟩ := Elem.parse?_eq_some.1 hparse
  refine ⟨head, tail, rfl, fun c hc => ⟨?_, ?_⟩, hhead, hkeys⟩
  · rintro rfl
    exact hcross.slash_notMem hb hc
  · rintro rfl
    exact hb hc

/-- A path is a text with a slash before each of its elements. -/
theorem parse_eq_ok_iff {path : String} {es : List Elem} :
    parse path = .ok es ↔ es ≠ [] ∧ ∃ ps, path.toList = slashed ps ∧ List.Forall₂ Reads ps es := by
  rw [parse_eq_ok]
  unfold Reads
  simp only [List.forall₂_and_left]
  constructor
  · rintro ⟨body, p, ps, hpath, hpieces, hes⟩
    obtain ⟨rfl, hp, hps⟩ := cut_of_pieces hpieces
    refine ⟨?_, p :: ps, by simp [hpath, slashed], List.forall_mem_cons.2 ⟨hp, hps⟩, hes⟩
    rintro rfl
    cases hes
  · rintro ⟨hne, ps, hpath, hcross, hes⟩
    cases hes with
    | nil => exact absurd rfl hne
    | @cons p e ps es first rest =>
      obtain ⟨hp, hps⟩ := List.forall_mem_cons.1 hcross
      exact ⟨p ++ slashed ps, p, ps, by simp [hpath, slashed], pieces_join hp hps,
        .cons first rest⟩

theorem reads_of_parse {path : String} {es : List Elem} (h : parse path = .ok es) {e : Elem}
    (he : e ∈ es) : ∃ p, Reads p e := by
  obtain ⟨-, ps, -, hes⟩ := parse_eq_ok_iff.1 h
  clear h
  induction hes with
  | nil => cases he
  | cons first _ ih =>
    rcases List.mem_cons.1 he with rfl | he
    · exact ⟨_, first⟩
    · exact ih he

theorem parse_ne_nil {path : String} : parse path ≠ .ok [] :=
  fun h => (parse_eq_ok_iff.1 h).1 rfl

end Telemetry.Path
