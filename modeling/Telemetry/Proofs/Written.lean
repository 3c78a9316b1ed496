import Telemetry.Proofs.Reading

/-!
# Written paths

A written path reads back as the elements it was written from, whatever stands in its predicate
values: slashes, brackets, colons, or one of the two kinds of quote.

Results:
* `Elem.parse?_chars`: a written element reads back;
* `Elem.Legible.reads`: the scan for separators crosses a written element;
* `parse_text`, `text_injective`: a written path reads back, so two paths are not written alike;
* `parse_joined`: so does one that is written element by element, with a slash before each;
* `plain_of_parse`: the module name of a path that was read could be written in front of any name.
-/
namespace Telemetry.Path

/-- A text that can stand in front of the predicates of an element. -/
def Plain (cs : List Char) : Prop := cs ≠ [] ∧ ∀ c ∈ cs, c ≠ '/' ∧ c ≠ '['

instance (cs : List Char) : Decidable (Plain cs) :=
  decidable_of_iff (cs ≠ [] ∧ cs.all fun c => c ≠ '/' ∧ c ≠ '[') (by simp [Plain])

/-- A key name that stands in a predicate as it is. -/
structure KeyName (key : String) : Prop where
  ne_nil : key.toList ≠ []
  trimmed : Text.trim key.toList = key.toList
  plain : ∀ c ∈ key.toList, c ∉ ['=', ':', '[', ']', '\'', '"']

instance (key : String) : Decidable (KeyName key) :=
  decidable_of_iff (key.toList ≠ [] ∧ Text.trim key.toList = key.toList ∧
      key.toList.all (· ∉ ['=', ':', '[', ']', '\'', '"']))
    ⟨fun ⟨hne, htrim, hplain⟩ => ⟨hne, htrim, by simpa using hplain⟩,
      fun h => ⟨h.ne_nil, h.trimmed, by simpa using h.plain⟩⟩

namespace Elem

/-- An element that its written form gives back. -/
structure Legible (e : Elem) : Prop where
  name : Plain e.name.toList
  moduleName : ∀ m, e.moduleName = some m → Plain m.toList ∧ ':' ∉ m.toList
  bare : e.moduleName = none → ':' ∉ e.name.toList
  keys : ∀ kv ∈ e.keys, KeyName kv.1 ∧ quote? kv.2.toList ≠ none

instance (e : Elem) : Decidable e.Legible :=
  decidable_of_iff (Plain e.name.toList ∧
      (∀ m ∈ e.moduleName, Plain m.toList ∧ ':' ∉ m.toList) ∧
      (e.moduleName = none → ':' ∉ e.name.toList) ∧
      ∀ kv ∈ e.keys, KeyName kv.1 ∧ quote? kv.2.toList ≠ none)
    ⟨fun ⟨name, moduleName, bare, keys⟩ => ⟨name, moduleName, bare, keys⟩,
      fun h => ⟨h.name, h.moduleName, h.bare, h.keys⟩⟩

/-- What an element is written as before its predicates. -/
def head (e : Elem) : List Char :=
  (match e.moduleName with
    | some m => m.toList ++ [':']
    | none => []) ++ e.name.toList

theorem chars_eq (e : Elem) : e.chars = e.head ++ e.keys.flatMap keyText := rfl

end Elem

/-! ## Heads -/

theorem Elem.Legible.head_plain {e : Elem} (he : e.Legible) : Plain e.head := by
  unfold Elem.head
  cases hm : e.moduleName with
  | none => exact he.name
  | some m =>
    obtain ⟨⟨-, hplain⟩, -⟩ := he.moduleName m hm
    refine ⟨by simp, fun c hc => ?_⟩
    rcases List.mem_append.1 hc with hc | hc
    · rcases List.mem_append.1 hc with hc | hc
      · exact hplain c hc
      · obtain rfl := List.mem_singleton.1 hc
        decide
    · exact he.name.2 c hc

theorem head?_head {e : Elem} (he : e.Legible) : head? e.head = some (e.moduleName, e.name) := by
  unfold Elem.head head?
  cases hm : e.moduleName with
  | none =>
    have hcut : cut? ':' e.name.toList = none := cut?_eq_none.2 (he.bare hm)
    simp [hcut, he.name.1]
  | some m =>
    obtain ⟨⟨hne, -⟩, hcolon⟩ := he.moduleName m hm
    have hcut : cut? ':' (m.toList ++ [':'] ++ e.name.toList) = some (m.toList, e.name.toList) :=
      cut?_eq_some.2 ⟨by simp, hcolon⟩
    simp only [hcut, hne, he.name.1, or_self, if_false, String.ofList_toList]

/-! ## Predicates -/

theorem quote?_eq_some {value : List Char} {q : Char} (h : quote? value = some q) :
    (q = '\'' ∨ q = '"') ∧ q ∉ value := by
  unfold quote? at h
  split at h
  · next hq =>
    obtain rfl := Option.some.inj h
    exact ⟨.inl rfl, hq⟩
  · split at h
    · next hq =>
      obtain rfl := Option.some.inj h
      exact ⟨.inr rfl, hq⟩
    · cases h

theorem KeyName.keyName_eq {key : String} (hk : KeyName key) : keyName key.toList = key.toList := by
  unfold keyName
  rw [hk.trimmed]
  apply afterColon_of_notMem
  intro hc
  exact absurd (by decide) (hk.plain ':' hc)

theorem keyText_eq {kv : String × String} {q : Char} (hq : quote? kv.2.toList = some q) :
    Elem.keyText kv = predicateText kv.1.toList q kv.2.toList := by
  simp [Elem.keyText, hq]

/-- A key name that stands as it is and the quote that is put around the value spell a predicate. -/
theorem KeyName.spells {kv : String × String} {q : Char} (hk : KeyName kv.1)
    (hq : quote? kv.2.toList = some q) : Spells kv.1.toList q kv := by
  obtain ⟨hquote, hfree⟩ := quote?_eq_some hq
  refine ⟨fun hc => ?_, hk.keyName_eq, hk.ne_nil, hquote, hfree⟩
  exact absurd (by decide) (hk.plain '=' hc)

theorem predicates_keyText {keys : List (String × String)}
    (h : ∀ kv ∈ keys, ∃ q, quote? kv.2.toList = some q ∧ Spells kv.1.toList q kv) :
    Predicates (keys.flatMap Elem.keyText) keys := by
  induction keys with
  | nil => exact .nil
  | cons kv keys ih =>
    obtain ⟨q, hq, hs⟩ := h kv List.mem_cons_self
    rw [List.flatMap_cons, keyText_eq hq]
    exact .cons hs (ih fun kv' hkv' => h kv' (List.mem_cons_of_mem _ hkv'))

theorem Elem.Legible.predicates {e : Elem} (he : e.Legible) :
    Predicates (e.keys.flatMap Elem.keyText) e.keys := by
  apply predicates_keyText
  intro kv hkv
  obtain ⟨hk, hv⟩ := he.keys kv hkv
  obtain ⟨q, hq⟩ := Option.ne_none_iff_exists'.1 hv
  exact ⟨q, hq, hk.spells hq⟩

/-! ## Elements -/

theorem Elem.parse?_chars {e : Elem} (he : e.Legible) : Elem.parse? e.chars = some e :=
  Elem.parse?_eq_some.2 ⟨e.head, _, e.chars_eq, fun hb => (he.head_plain.2 _ hb).2 rfl,
    head?_head he, he.predicates⟩

/-! ## Separators -/

theorem crosses_plain {cs : List Char} (h : Plain cs) : Scan.start.Crosses cs .start := by
  apply Scan.Crosses.stay
  intro c hc
  obtain ⟨hslash, hbracket⟩ := h.2 c hc
  exact ⟨fun hsep => hslash hsep.1, step_start hbracket⟩

/-- The scan enters a predicate at its bracket and is outside again after it, if the key name is
spelled without brackets and quotes. -/
theorem crosses_predicateText {raw value : List Char} {q : Char}
    (hraw : ∀ c ∈ raw, c ∉ ['[', ']', '\'', '"']) (hquote : q = '\'' ∨ q = '"')
    (hfree : q ∉ value) : Scan.start.Crosses (predicateText raw q value) .start := by
  have hkey : Scan.Crosses ⟨1, none⟩ raw ⟨1, none⟩ := by
    apply Scan.Crosses.stay
    intro c hc
    have := hraw c hc
    simp only [List.mem_cons, List.not_mem_nil, or_false, not_or] at this
    simp [Scan.step, Scan.outside, this]
  have hvalue : Scan.Crosses ⟨1, some q⟩ value ⟨1, some q⟩ := by
    apply Scan.Crosses.stay
    intro c hc
    have : c ≠ q := fun hcq => hfree (hcq ▸ hc)
    simp [Scan.step, Scan.outside, this]
  have hopen : Scan.start.Crosses ['['] ⟨1, none⟩ := .cons (by simp) .nil
  have hquoted : Scan.Crosses ⟨1, none⟩ ['=', q] ⟨1, some q⟩ := by
    have hstep : Scan.step ⟨1, none⟩ q = ⟨1, some q⟩ := by simp [Scan.step, hquote]
    refine .cons (by simp) (.cons (by simp [Scan.step, Scan.outside]) ?_)
    have heq : Scan.step ⟨1, none⟩ '=' = ⟨1, none⟩ := by decide
    rw [heq, hstep]
    exact .nil
  have hclose : Scan.Crosses ⟨1, some q⟩ [q, ']'] .start := by
    have hstep : Scan.step ⟨1, some q⟩ q = ⟨1, none⟩ := by simp [Scan.step]
    refine .cons (by simp [Scan.outside]) ?_
    rw [hstep]
    exact .cons (by simp) .nil
  exact (((hopen.append hkey).append hquoted).append hvalue).append hclose

theorem KeyName.crosses {key value : String} {q : Char} (hk : KeyName key)
    (hq : quote? value.toList = some q) :
    Scan.start.Crosses (predicateText key.toList q value.toList) .start := by
  obtain ⟨hquote, hfree⟩ := quote?_eq_some hq
  refine crosses_predicateText (fun c hc hm => hk.plain c hc ?_) hquote hfree
  exact List.mem_cons_of_mem _ (List.mem_cons_of_mem _ hm)

theorem crosses_chars {e : Elem} (he : e.Legible) : Scan.start.Crosses e.chars .start := by
  have hkeys (keys : List (String × String))
      (h : ∀ kv ∈ keys, KeyName kv.1 ∧ quote? kv.2.toList ≠ none) :
      Scan.start.Crosses (keys.flatMap Elem.keyText) .start := by
    induction keys with
    | nil => exact .nil
    | cons kv keys ih =>
      obtain ⟨hk, hv⟩ := h kv List.mem_cons_self
      obtain ⟨q, hq⟩ := Option.ne_none_iff_exists'.1 hv
      rw [List.flatMap_cons, keyText_eq hq]
      exact (hk.crosses hq).append
        (ih fun kv' hkv' => h kv' (List.mem_cons_of_mem _ hkv'))
  rw [Elem.chars_eq]
  exact (crosses_plain he.head_plain).append (hkeys e.keys he.keys)

/-! ## Paths -/

theorem Elem.Legible.reads {e : Elem} (he : e.Legible) : Reads e.chars e :=
  ⟨crosses_chars he, e.parse?_chars he⟩

theorem reads_chars {es : List Elem} (h : ∀ e ∈ es, e.Legible) :
    List.Forall₂ Reads (es.map Elem.chars) es :=
  List.forall₂_map_left_iff.2 (List.forall₂_same.2 fun e he => (h e he).reads)

theorem toList_text (es : List Elem) : (text es).toList = slashed (es.map Elem.chars) := by
  simp [text, chars, slashed, List.flatMap_map]

/-- Reading a written path gives the elements it was written from. -/
theorem parse_text {es : List Elem} (hne : es ≠ []) (h : ∀ e ∈ es, e.Legible) :
    parse (text es) = .ok es :=
  parse_eq_ok_iff.2 ⟨hne, _, toList_text es, reads_chars h⟩

theorem text_cons (e : Elem) (es : List Elem) : text (e :: es) = "/" ++ e.text ++ text es := by
  rw [← String.toList_inj]
  simp [text, chars, Elem.text]

/-- A written path is its elements joined by slashes, after a slash. -/
theorem text_eq_joined {es : List Elem} (hne : es ≠ []) :
    text es = "/" ++ "/".intercalate (es.map Elem.text) := by
  obtain ⟨e, es, rfl⟩ := List.exists_cons_of_ne_nil hne
  induction es generalizing e with
  | nil =>
    rw [text_cons]
    simp [text, chars]
  | cons d es ih =>
    have hjoin : "/".intercalate ((e :: d :: es).map Elem.text)
        = e.text ++ "/" ++ "/".intercalate ((d :: es).map Elem.text) :=
      String.intercalate_cons_cons
    rw [text_cons, ih d (by simp), hjoin]
    simp only [String.append_assoc]

/-- Reading undoes writing: elements joined by slashes are found again, whatever their predicate
values hold. -/
theorem parse_joined {es : List Elem} (hne : es ≠ []) (h : ∀ e ∈ es, e.Legible) :
    parse ("/" ++ "/".intercalate (es.map Elem.text)) = .ok es := by
  rw [← text_eq_joined hne]
  exact parse_text hne h

namespace Small

/-- Names, a key name and values with separators, brackets and quotes in them. -/
def thorny : List Elem :=
  [⟨some "m", "a:b]", []⟩,
    ⟨none, "it's", [("k / l", "x/y]=[\"z\":"), ("n", "'/[n="), ("n", "")]⟩,
    ⟨some " p", "=", []⟩]

theorem thorny_joined : (∀ e ∈ thorny, e.Legible) ∧
    parse ("/" ++ "/".intercalate (thorny.map Elem.text)) = .ok thorny ∧
    "/" ++ "/".intercalate (thorny.map Elem.text)
      = "/m:a:b]/it's[k / l='x/y]=[\"z\":'][n=\"'/[n=\"][n='']/ p:=" :=
  have legible : ∀ e ∈ thorny, e.Legible := by decide +kernel
  ⟨legible, parse_joined (by decide) legible, by decide +kernel⟩

end Small

theorem text_injective {es ds : List Elem} (hes : es ≠ []) (hds : ds ≠ [])
    (he : ∀ e ∈ es, e.Legible) (hd : ∀ d ∈ ds, d.Legible) (h : text es = text ds) : es = ds := by
  have hparse := parse_text hds hd
  rw [← h, parse_text hes he] at hparse
  exact Except.ok.inj hparse

/-! ## Module names that were read -/

theorem plain_of_head? {cs : List Char} {m name : String} (h : head? cs = some (some m, name))
    (hcs : ∀ c ∈ cs, c ≠ '/' ∧ c ≠ '[') : Plain m.toList ∧ ':' ∉ m.toList := by
  unfold head? at h
  split at h
  · next m' name' hcut =>
    obtain ⟨rfl, hcolon⟩ := cut?_eq_some.1 hcut
    split at h
    · cases h
    · next hne =>
      obtain rfl : String.ofList m' = m := by simp_all
      rw [String.toList_ofList]
      exact ⟨⟨fun hm => hne (.inl hm), fun c hc => hcs c (by simp [hc])⟩, hcolon⟩
  · split at h <;> simp at h

theorem plain_of_parse {path : String} {e : Elem} {es : List Elem} {m : String}
    (h : parse path = .ok (e :: es)) (hm : e.moduleName = some m) :
    Plain m.toList ∧ ':' ∉ m.toList := by
  obtain ⟨p, hp⟩ := reads_of_parse h List.mem_cons_self
  obtain ⟨head, -, -, hfree, hhead, -⟩ := hp.head
  exact plain_of_head? (hm ▸ hhead) hfree

end Telemetry.Path
