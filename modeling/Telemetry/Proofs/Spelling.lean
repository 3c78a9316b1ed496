import Telemetry.Leaves
import Telemetry.Proofs.Fronts

/-!
# Spellings of a path

Reading a path drops what is a matter of spelling: blanks around a key name, a module name in front
of it, the choice of quotes. Writing the elements again gives a normal form, but not for every path
that can be read. The blanks at the ends of a key name are dropped before the module name is, so a
blank that follows the module name stays; and the scan for separators heeds brackets and quotes
within key names, which the reader of predicates does not.

Results:
* `Spells.colon_notMem`, `Spells.last`, `Spells.quotable`: what is known of a predicate that was
  read;
* `Reads.settled_iff`: which elements are read again off their written form;
* `reread_iff`: which paths are, and that it is these elements that decide it;
* `parse_respelled`: two spellings of the same elements are read alike;
* `normal_form`: all this of any path that can be read;
* `Small.spelling_kept`: key names with a blank in front, and with a quote in them.
-/
namespace Telemetry.Path

/-! ## Predicates that were read -/

/-- A key name that does not begin with a blank and has neither brackets nor quotes in it. -/
def Ordinary (key : String) : Prop :=
  (∀ c ∈ key.toList.head?, Text.isBlank c = false) ∧ ∀ c ∈ key.toList, c ∉ ['[', ']', '\'', '"']

instance (key : String) : Decidable (Ordinary key) :=
  decidable_of_iff ((key.toList.head?.all fun c => !Text.isBlank c) ∧
    key.toList.all (· ∉ ['[', ']', '\'', '"'])) (by simp [Ordinary, Option.all_eq_true])

namespace Spells

variable {raw : List Char} {q : Char} {kv : String × String}

theorem sublist (h : Spells raw q kv) : kv.1.toList.Sublist raw := by
  rw [← h.key]
  exact (afterColon_suffix _).sublist.trans (Text.trim_sublist raw)

theorem colon_notMem (h : Spells raw q kv) : ':' ∉ kv.1.toList := by
  rw [← h.key]
  exact colon_notMem_afterColon _

theorem equals_notMem (h : Spells raw q kv) : '=' ∉ kv.1.toList :=
  fun hmem => h.plain (h.sublist.subset hmem)

/-- No blank is left at the end of a key name. -/
theorem last (h : Spells raw q kv) : ∀ c ∈ kv.1.toList.getLast?, Text.isBlank c = false := by
  obtain ⟨front, hfront⟩ := afterColon_suffix (Text.trim raw)
  have hkey : afterColon (Text.trim raw) = kv.1.toList := h.key
  rw [hkey] at hfront
  intro c hc
  apply Text.last_dropTrailing (raw.dropWhile Text.isBlank) c
  have htrim : Text.dropTrailing (raw.dropWhile Text.isBlank) = front ++ kv.1.toList := hfront.symm
  rw [htrim, List.getLast?_append_of_ne_nil _ h.ne_nil]
  exact hc

theorem quotable (h : Spells raw q kv) : quote? kv.2.toList ≠ none := by
  intro hnone
  obtain ⟨hsingle, hdouble⟩ := quote?_eq_none.1 hnone
  rcases h.quote with rfl | rfl
  · exact h.free hsingle
  · exact h.free hdouble

theorem keyName_of_ordinary (h : Spells raw q kv) (ordinary : Ordinary kv.1) : KeyName kv.1 := by
  refine ⟨h.ne_nil, Text.trim_eq_self_iff.2 ⟨ordinary.1, h.last⟩, fun c hc hmem => ?_⟩
  rcases List.mem_cons.1 hmem with rfl | hmem
  · exact h.equals_notMem hc
  · rcases List.mem_cons.1 hmem with rfl | hmem
    · exact h.colon_notMem hc
    · exact ordinary.2 c hc hmem

/-- Blanks at its ends are all that keeps a key name from standing as it is. -/
theorem written (h : Spells raw q kv) (trimmed : Text.trim kv.1.toList = kv.1.toList) :
    ∃ q', quote? kv.2.toList = some q' ∧ Spells kv.1.toList q' kv := by
  obtain ⟨q', hq'⟩ := Option.ne_none_iff_exists'.1 h.quotable
  obtain ⟨hquote, hfree⟩ := quote?_eq_some hq'
  refine ⟨q', hq', h.equals_notMem, ?_, h.ne_nil, hquote, hfree⟩
  rw [keyName, trimmed, afterColon_of_notMem h.colon_notMem]

end Spells

namespace Predicates

variable {cs : List Char} {kvs : List (String × String)}

theorem spells (h : Predicates cs kvs) {kv : String × String} (hkv : kv ∈ kvs) :
    ∃ raw q, Spells raw q kv := by
  induction h with
  | nil => cases hkv
  | cons first _ ih =>
    rcases List.mem_cons.1 hkv with rfl | hkv
    · exact ⟨_, _, first⟩
    · exact ih hkv

/-- Writing predicates again does not make them longer. -/
theorem length_le (h : Predicates cs kvs) : (kvs.flatMap Elem.keyText).length ≤ cs.length := by
  induction h with
  | nil => exact Nat.le_refl _
  | @cons raw q kv cs kvs first _ ih =>
    have := first.sublist.length_le
    simp only [List.flatMap_cons, List.length_append, Elem.keyText, predicateText,
      List.length_cons, List.length_nil]
    omega

/-- Of predicates that are read again off their written form the key names have no blanks at their
ends. -/
theorem trimmed (h : Predicates (kvs.flatMap Elem.keyText) kvs) :
    ∀ kv ∈ kvs, Text.trim kv.1.toList = kv.1.toList := by
  induction kvs with
  | nil => simp
  | cons kv kvs ih =>
    generalize hcs : (kv :: kvs).flatMap Elem.keyText = cs at h
    cases h with
    | @cons raw q _ rest _ first hrest =>
      -- both texts go on with the key name up to the first equals sign
      have hboth : raw ++ '=' :: (q :: (kv.2.toList ++ [q, ']'] ++ rest))
          = kv.1.toList ++ '=' :: ((quote? kv.2.toList).getD '\'' :: (kv.2.toList
            ++ [(quote? kv.2.toList).getD '\'', ']'] ++ kvs.flatMap Elem.keyText)) := by
        simpa [Elem.keyText, predicateText] using hcs.symm
      have hcut := cut?_eq_some.2 ⟨hboth, first.equals_notMem⟩
      rw [cut?_eq_some.2 ⟨rfl, first.plain⟩] at hcut
      obtain ⟨hraw, hafter⟩ := Prod.mk.inj (Option.some.inj hcut)
      have hrest' : rest = kvs.flatMap Elem.keyText := by
        have hq := (List.cons.inj hafter).1
        rw [hq] at hafter
        simpa using hafter
      have hkv : Text.trim kv.1.toList = kv.1.toList := by
        have hkey : afterColon (Text.trim raw) = kv.1.toList := first.key
        have hcolon : ':' ∉ Text.trim raw := fun hmem =>
          first.colon_notMem (hraw ▸ (Text.trim_sublist raw).subset hmem)
        rw [afterColon_of_notMem hcolon, hraw] at hkey
        exact hkey
      exact List.forall_mem_cons.2 ⟨hkv, ih (hrest' ▸ hrest)⟩

end Predicates

/-! ## Elements that were read -/

/-- An element that is read again off its written form: its key names have no blanks at their ends,
and the scan comes through the text. -/
structure Elem.Settled (e : Elem) : Prop where
  trimmed : ∀ kv ∈ e.keys, Text.trim kv.1.toList = kv.1.toList
  crossed : Scan.start.Crosses e.chars .start

namespace Reads

variable {p : List Char} {e : Elem}

theorem settled_iff (h : Reads p e) : Reads e.chars e ↔ e.Settled := by
  constructor
  · rintro ⟨hcross, hparse⟩
    obtain ⟨head, tail, hchars, -, hhead, hkeys⟩ := Elem.parse?_eq_some.1 hparse
    have hsame : e.head = head := head_of_head? hhead
    rw [Elem.chars_eq, hsame] at hchars
    rw [← List.append_cancel_left hchars] at hkeys
    exact ⟨hkeys.trimmed, hcross⟩
  · intro hs
    obtain ⟨head, tail, -, hfree, hhead, hkeys⟩ := h.head
    have hsame : e.head = head := head_of_head? hhead
    refine ⟨hs.crossed, Elem.parse?_eq_some.2 ⟨head, _, by rw [Elem.chars_eq, hsame],
      fun hb => (hfree _ hb).2 rfl, hhead, predicates_keyText fun kv hkv => ?_⟩⟩
    obtain ⟨raw, q, hspells⟩ := hkeys.spells hkv
    exact hspells.written (hs.trimmed kv hkv)

theorem length_le (h : Reads p e) : e.chars.length ≤ p.length := by
  obtain ⟨head, tail, rfl, -, hhead, hkeys⟩ := h.head
  have hsame : e.head = head := head_of_head? hhead
  have := hkeys.length_le
  rw [Elem.chars_eq, hsame]
  simp only [List.length_append]
  omega

/-- With ordinary key names nothing is in the way. -/
theorem legible (h : Reads p e) (ordinary : ∀ kv ∈ e.keys, Ordinary kv.1) : e.Legible := by
  obtain ⟨head, tail, -, hfree, hhead, hkeys⟩ := h.head
  refine legible_of_head? hhead hfree fun kv hkv => ?_
  obtain ⟨raw, q, hs⟩ := hkeys.spells hkv
  exact ⟨hs.keyName_of_ordinary (ordinary kv hkv), hs.quotable⟩

end Reads

/-! ## Paths that were read -/

theorem length_slashed_le {ps qs : List (List Char)}
    (h : List.Forall₂ (fun p q => q.length ≤ p.length) ps qs) :
    (slashed qs).length ≤ (slashed ps).length := by
  induction h with
  | nil => exact Nat.le_refl _
  | cons first _ ih =>
    simp only [slashed, List.flatMap_cons, List.length_append, List.length_cons] at ih ⊢
    omega

/-- Pieces that are no longer than those of the same text are the same pieces. -/
theorem eq_of_slashed {ps qs : List (List Char)}
    (h : List.Forall₂ (fun p q => q.length ≤ p.length) ps qs) (heq : slashed ps = slashed qs) :
    ps = qs := by
  induction h with
  | nil => rfl
  | @cons p q ps qs first rest ih =>
    have hcons : p ++ slashed ps = q ++ slashed qs := by simpa [slashed] using heq
    have hlength := congrArg List.length hcons
    have hle := length_slashed_le rest
    simp only [List.length_append] at hlength
    obtain ⟨rfl, hrest⟩ := List.append_inj hcons (by omega)
    rw [ih hrest]

/-- A path is read again off the written form of its elements if each of them is. -/
theorem reread_iff {path : String} {es : List Elem} (h : parse path = .ok es) :
    parse (text es) = .ok es ↔ ∀ e ∈ es, e.Settled := by
  obtain ⟨hne, -⟩ := parse_eq_ok_iff.1 h
  have hsettled {e : Elem} (he : e ∈ es) : Reads e.chars e ↔ e.Settled := by
    obtain ⟨p, hp⟩ := reads_of_parse h he
    exact hp.settled_iff
  constructor
  · intro hreread
    obtain ⟨-, ps, htext, hreads⟩ := parse_eq_ok_iff.1 hreread
    rw [toList_text] at htext
    have hshort : List.Forall₂ (fun p q => q.length ≤ p.length) ps (es.map Elem.chars) :=
      List.forall₂_map_right_iff.2 (hreads.imp fun _ _ hr => hr.length_le)
    rw [eq_of_slashed hshort htext.symm, List.forall₂_map_left_iff] at hreads
    intro e he
    exact (hsettled he).1 (List.forall₂_same.1 hreads e he)
  · intro hall
    refine parse_eq_ok_iff.2 ⟨hne, _, toList_text es, List.forall₂_map_left_iff.2 ?_⟩
    exact List.forall₂_same.2 fun e he => (hsettled he).2 (hall e he)

/-! ## Spellings -/

/-- How a predicate is spelled: blanks around the key name, a module name in front of it, and
quotes. -/
structure Spelling where
  before : List Char
  moduleName : Option (List Char)
  after : List Char
  quote : Char

namespace Spelling

/-- The key name with what the spelling puts around it. -/
def key (w : Spelling) (name : List Char) : List Char :=
  w.before
    ++ ((match w.moduleName with
      | some m => m ++ [':']
      | none => []) ++ name)
    ++ w.after

/-- The predicate in this spelling. -/
def text (w : Spelling) (kv : String × String) : List Char :=
  predicateText (w.key kv.1.toList) w.quote kv.2.toList

/-- A spelling for a predicate with this value. -/
structure Fits (w : Spelling) (value : List Char) : Prop where
  before : ∀ c ∈ w.before, Text.isBlank c = true
  moduleName : ∀ m ∈ w.moduleName, ∀ c ∈ m, c ∉ ['=', '[', ']', '\'', '"']
  after : ∀ c ∈ w.after, Text.isBlank c = true
  quote : w.quote = '\'' ∨ w.quote = '"'
  free : w.quote ∉ value

theorem plain_of_blank {c : Char} (h : Text.isBlank c = true) : c ∉ ['=', '[', ']', '\'', '"'] := by
  intro hc
  have hnot : ['=', '[', ']', '\'', '"'].all (fun c => !Text.isBlank c) = true := by decide
  simpa [h] using List.all_eq_true.1 hnot c hc

variable {w : Spelling} {kv : String × String}

theorem key_plain (hw : w.Fits kv.2.toList) (hk : KeyName kv.1) :
    ∀ c ∈ w.key kv.1.toList, c ∉ ['=', '[', ']', '\'', '"'] := by
  have hname : ∀ c ∈ kv.1.toList, c ∉ ['=', '[', ']', '\'', '"'] := by
    intro c hc hmem
    have := hk.plain c hc
    simp only [List.mem_cons, List.not_mem_nil, or_false, not_or] at this hmem
    simp [this] at hmem
  have hcolon : ':' ∉ ['=', '[', ']', '\'', '"'] := by decide
  unfold key
  intro c hc
  rcases List.mem_append.1 hc with hc | hc
  · rcases List.mem_append.1 hc with hc | hc
    · exact plain_of_blank (hw.before c hc)
    · rcases List.mem_append.1 hc with hc | hc
      · cases hm : w.moduleName with
        | none => simp [hm] at hc
        | some m =>
          rw [hm] at hc
          rcases List.mem_append.1 hc with hc | hc
          · exact hw.moduleName m hm c hc
          · exact List.mem_singleton.1 hc ▸ hcolon
      · exact hname c hc
  · exact plain_of_blank (hw.after c hc)

/-- The reader gets at the bare key name whatever stands around it. -/
theorem keyName_key (hw : w.Fits kv.2.toList) (hk : KeyName kv.1) :
    keyName (w.key kv.1.toList) = kv.1.toList := by
  have hbare : afterColon kv.1.toList = kv.1.toList :=
    afterColon_of_notMem fun hc => absurd (by decide) (hk.plain ':' hc)
  unfold keyName key
  rw [Text.trim_between _ hw.before hw.after]
  cases w.moduleName with
  | none => rw [List.nil_append, hk.trimmed, hbare]
  | some m =>
    have hdrop : (m ++ ':' :: kv.1.toList).dropWhile Text.isBlank
        = m.dropWhile Text.isBlank ++ ':' :: kv.1.toList := by
      have hcolon : Text.isBlank ':' = false := by decide
      induction m with
      | nil => simp [hcolon]
      | cons c m ih => cases hc : Text.isBlank c <;> simp [hc, ih]
    have hlast : Text.dropTrailing (m.dropWhile Text.isBlank ++ ':' :: kv.1.toList)
        = m.dropWhile Text.isBlank ++ ':' :: kv.1.toList := by
      obtain ⟨c, cs, hcs⟩ := List.exists_cons_of_ne_nil hk.ne_nil
      apply Text.dropTrailing_eq_self_iff.2
      have := (Text.trim_eq_self_iff.1 hk.trimmed).2
      rw [List.getLast?_append_of_ne_nil _ (by simp), hcs, List.getLast?_cons_cons, ← hcs]
      exact this
    have hjoin : m ++ [':'] ++ kv.1.toList = m ++ ':' :: kv.1.toList := by simp
    rw [hjoin, Text.trim, hdrop, hlast, afterColon_append, hbare]

theorem spells (hw : w.Fits kv.2.toList) (hk : KeyName kv.1) :
    Spells (w.key kv.1.toList) w.quote kv where
  plain hc := key_plain hw hk '=' hc (by decide)
  key := keyName_key hw hk
  ne_nil := hk.ne_nil
  quote := hw.quote
  free := hw.free

theorem crosses (hw : w.Fits kv.2.toList) (hk : KeyName kv.1) :
    Scan.start.Crosses (w.text kv) .start :=
  crosses_predicateText (fun c hc hm => key_plain hw hk c hc (List.mem_cons_of_mem _ hm)) hw.quote
    hw.free

end Spelling

/-- The predicates one after the other, each in some spelling. -/
inductive Spelled : List Char → List (String × String) → Prop
  | nil : Spelled [] []
  | cons {w : Spelling} {kv : String × String} {cs : List Char} {kvs : List (String × String)}
      (first : w.Fits kv.2.toList) (rest : Spelled cs kvs) : Spelled (w.text kv ++ cs) (kv :: kvs)

theorem Spelled.predicates {cs : List Char} {kvs : List (String × String)} (h : Spelled cs kvs)
    (names : ∀ kv ∈ kvs, KeyName kv.1) : Predicates cs kvs ∧ Scan.start.Crosses cs .start := by
  induction h with
  | nil => exact ⟨.nil, .nil⟩
  | cons first _ ih =>
    have hk := names _ List.mem_cons_self
    obtain ⟨hpredicates, hcross⟩ := ih fun kv hkv => names kv (List.mem_cons_of_mem _ hkv)
    exact ⟨.cons (Spelling.spells first hk) hpredicates, (Spelling.crosses first hk).append hcross⟩

/-- A path with these elements, the heads as written and every predicate in some spelling. -/
def Respells (path : String) (es : List Elem) : Prop :=
  ∃ ps, path.toList = slashed ps ∧
    List.Forall₂ (fun p e => ∃ tail, p = e.head ++ tail ∧ Spelled tail e.keys) ps es

/-- However its predicates are spelled, a path is read as the same elements. -/
theorem parse_respelled {path : String} {es : List Elem} (h : Respells path es) (hne : es ≠ [])
    (legible : ∀ e ∈ es, e.Legible) : parse path = .ok es := by
  obtain ⟨ps, hpath, hps⟩ := h
  refine parse_eq_ok_iff.2 ⟨hne, ps, hpath, ?_⟩
  clear hpath hne
  induction hps with
  | nil => exact .nil
  | @cons p e ps es first _ ih =>
    obtain ⟨tail, rfl, hspelled⟩ := first
    have he := legible e List.mem_cons_self
    obtain ⟨hpredicates, hcross⟩ := hspelled.predicates fun kv hkv => (he.keys kv hkv).1
    have hread : Elem.parse? (e.head ++ tail) = some e :=
      Elem.parse?_eq_some.2 ⟨e.head, tail, rfl, fun hb => (he.head_plain.2 _ hb).2 rfl,
        head?_head he, hpredicates⟩
    exact .cons ⟨(crosses_plain he.head_plain).append hcross, hread⟩
      (ih fun d hd => legible d (List.mem_cons_of_mem _ hd))

/-- What a path selects depends on its elements alone. -/
theorem flatten_congr {path path' : String} {es : List Elem} (h : parse path = .ok es)
    (h' : parse path' = .ok es) (schema : Schema) (members : List (String × Json)) :
    Leaves.flatten schema (.object members) path' = Leaves.flatten schema (.object members) path := by
  unfold Leaves.flatten
  rw [h, h']

/-- Reading a path gives it a normal form. The key names have no module name in front and no blank at
the end. The written form is read as the same elements again exactly if every key name is without
blanks at both ends and the scan comes through the written elements. With ordinary key names that is
always so, and then a path that differs in nothing but the spelling of predicates, its normal form
for one, is read as the same elements and selects the same data. -/
theorem normal_form {path : String} {es : List Elem} (h : parse path = .ok es) :
    (∀ e ∈ es, ∀ kv ∈ e.keys,
      ':' ∉ kv.1.toList ∧ ∀ c ∈ kv.1.toList.getLast?, Text.isBlank c = false) ∧
    (parse (text es) = .ok es ↔ ∀ e ∈ es, e.Settled) ∧
    ((∀ e ∈ es, ∀ kv ∈ e.keys, Ordinary kv.1) →
      parse (text es) = .ok es ∧
      ∀ path', Respells path' es → parse path' = .ok es ∧
        ∀ (schema : Schema) (members : List (String × Json)),
          schema.accepts path' = schema.accepts path ∧
          Leaves.flatten schema (.object members) path'
            = Leaves.flatten schema (.object members) path) := by
  obtain ⟨hne, -⟩ := parse_eq_ok_iff.1 h
  refine ⟨fun e he kv hkv => ?_, reread_iff h, fun ordinary => ?_⟩
  · obtain ⟨p, hp⟩ := reads_of_parse h he
    obtain ⟨head, tail, -, -, -, hkeys⟩ := hp.head
    obtain ⟨raw, q, hs⟩ := hkeys.spells hkv
    exact ⟨hs.colon_notMem, hs.last⟩
  · have legible : ∀ e ∈ es, e.Legible := by
      intro e he
      obtain ⟨p, hp⟩ := reads_of_parse h he
      exact hp.legible (ordinary e he)
    refine ⟨parse_text hne legible, fun path' hrespells => ?_⟩
    have hparse := parse_respelled hrespells hne legible
    refine ⟨hparse, fun schema members => ⟨?_, flatten_congr h hparse schema members⟩⟩
    unfold Schema.accepts
    rw [h, hparse]

namespace Small

/-- One predicate with everything around it that may be there, and one with nothing. -/
theorem respelled_alike :
    parse "/t:a[ p:k\t=\"v\"]/b" = .ok [⟨some "t", "a", [("k", "v")]⟩, ⟨none, "b", []⟩] ∧
    ∀ schema members,
      Leaves.flatten schema (.object members) "/t:a[k='v']/b"
        = Leaves.flatten schema (.object members) "/t:a[ p:k\t=\"v\"]/b" := by
  have h : parse "/t:a[ p:k\t=\"v\"]/b"
      = .ok [⟨some "t", "a", [("k", "v")]⟩, ⟨none, "b", []⟩] := by
    decide +kernel
  have ordinary : ∀ e ∈ [(⟨some "t", "a", [("k", "v")]⟩ : Elem), ⟨none, "b", []⟩],
      ∀ kv ∈ e.keys, Ordinary kv.1 := by
    decide +kernel
  have bare : Spelling.Fits ⟨[], none, [], '\''⟩ (("k", "v") : String × String).2.toList :=
    ⟨by simp, by simp, by simp, .inl rfl, by decide⟩
  have hrespells : Respells "/t:a[k='v']/b" [⟨some "t", "a", [("k", "v")]⟩, ⟨none, "b", []⟩] := by
    refine ⟨["t:a[k='v']".toList, "b".toList], by decide +kernel,
      .cons ⟨"[k='v']".toList, by decide +kernel, ?_⟩ (.cons ⟨[], by decide +kernel, .nil⟩ .nil)⟩
    exact .cons bare .nil
  refine ⟨h, fun schema members => ?_⟩
  exact (((normal_form h).2.2 ordinary).2 _ hrespells).2 schema members |>.2

/-- A list with one entry. -/
def schema : Schema :=
  ⟨[⟨"t", [⟨"a", .list, ["k"], [⟨"k", .leaf, [], []⟩]⟩]⟩]⟩

def tree : Json := .object [("a", .array [.object [("k", .string "v")]])]

/-- A blank between module name and key name stays in front of the key name. It is gone when the path
is written and read again, and the path does not select what it selects without the blank. Where a
key name has a quote in it, another key name may lose a module name with the quote that went with it,
and the path that is written then cannot be read at all. -/
theorem spelling_kept :
    parse "/t:a[p: k='v']" = .ok [⟨some "t", "a", [(" k", "v")]⟩] ∧
    parse (text [⟨some "t", "a", [(" k", "v")]⟩]) = .ok [⟨some "t", "a", [("k", "v")]⟩] ∧
    (Leaves.flatten schema tree "/t:a[p: k='v']").toOption.map (·.keys) = some [] ∧
    (Leaves.flatten schema tree "/t:a[p:k='v']").toOption.map (·.keys) = some ["/t:a[k='v']/k"] ∧
    parse "/t:a[x'y='v'][p'q:k='w']" = .ok [⟨some "t", "a", [("x'y", "v"), ("k", "w")]⟩] ∧
    parse (text [⟨some "t", "a", [("x'y", "v"), ("k", "w")]⟩])
      = .error (.openPredicate "/t:a[x'y='v'][k='w']") := by
  decide +kernel

end Small

end Telemetry.Path
