import Mathlib.Data.List.Forall2
import Telemetry.Proofs.Atomicity
import Telemetry.Proofs.Rejection
import Telemetry.Proofs.Written
import Telemetry.Timeline.Script

/-!
# The engine's own paths

An engine prints the paths of its requests and reads the paths of changes. What it prints leads
back to it: the path of a request is read as that request, whatever its id, and everything below it
as a part of that request, whatever its predicates hold. A path that starts anywhere else leads
nowhere.

Results:
* `Text.natural?_toDigits`: a printed id reads back;
* `Path.parse_text_append`: a path reads the same below any written path;
* `Target.ofPath_requestPath`, `Target.ofPath_nested`, `Target.ofPath_foreign`: what paths mean;
* `Script.Command.parse_delete`: the command line that deletes a request;
* `Engine.Reaches`, `Engine.reaches`: what a transaction on one request comes to;
* `Target.own_paths`: the statement.
-/
namespace Telemetry

/-! ## Ids -/

namespace Text

theorem digitsAfter_append (n : Nat) (cs ds : List Char) :
    digitsAfter n (cs ++ ds) = (digitsAfter n cs).bind fun m => digitsAfter m ds := by
  induction cs generalizing n with
  | nil => rfl
  | cons c cs ih =>
    rw [List.cons_append, digitsAfter, digitsAfter]
    split
    · exact ih _
    · rfl

theorem digitsAfter_digitChar (n : Nat) {d : Nat} (hd : d < 10) :
    digitsAfter n [d.digitChar] = some (n * 10 + d) := by
  have hvalue : d.digitChar.toNat - '0'.toNat = d := by
    rw [Nat.toNat_digitChar_of_lt_ten hd]
    exact Nat.add_sub_cancel_left 48 d
  simp only [digitsAfter, Nat.isDigit_digitChar, hd, decide_true, if_true, hvalue]

theorem digitsAfter_toDigits (n : Nat) : digitsAfter 0 (Nat.toDigits 10 n) = some n := by
  induction n using Nat.strongRecOn with
  | ind n ih =>
    by_cases hn : n < 10
    · rw [Nat.toDigits_of_lt_base hn, digitsAfter_digitChar 0 hn, Nat.zero_mul, Nat.zero_add]
    · have hlast : n % 10 < 10 := Nat.mod_lt n (by decide)
      rw [Nat.toDigits_of_base_le (by decide) (by omega), digitsAfter_append,
        ih (n / 10) (by omega), Option.bind_some, digitsAfter_digitChar _ hlast, Nat.div_add_mod']

/-- A printed number has no sign in front. -/
theorem natural?_toDigits {n : Nat} (h : n < Nat.pow 2 64) :
    natural? (Nat.toDigits 10 n) = some n := by
  have hdigits : ∀ c ∈ Nat.toDigits 10 n, c.isDigit = true := fun c hc =>
    Nat.isDigit_of_mem_toDigits (by decide) (by decide) hc
  have hread := digitsAfter_toDigits n
  unfold natural?
  split
  · next rest hsign =>
    rw [hsign] at hdigits
    exact absurd (hdigits '+' List.mem_cons_self) (by decide)
  · simp [hread, Nat.toDigits_ne_nil, h]

end Text

/-! ## Written paths -/

namespace Path

/-- A path can be put below any written path: it reads as it does on its own. -/
theorem parse_text_append {es ds : List Elem} {below : String} (hes : ∀ e ∈ es, e.Legible)
    (h : parse below = .ok ds) : parse (text es ++ below) = .ok (es ++ ds) := by
  obtain ⟨hne, ps, hbelow, hps⟩ := parse_eq_ok_iff.1 h
  refine parse_eq_ok_iff.2 ⟨by simp [hne], es.map Elem.chars ++ ps, ?_,
    List.rel_append (reads_chars hes) hps⟩
  rw [String.toList_append, toList_text, hbelow]
  simp [slashed]

end Path

namespace Target

/-- The container of all requests, as an element. -/
def containerElem (m : String) : Path.Elem := ⟨some m, containerName, []⟩

/-- The list entry of a request, as an element. -/
def entryElem (id : Nat) : Path.Elem := ⟨none, listName, [("id", toString id)]⟩

/-- A module name that can stand in front of a name in a path. -/
structure ModuleName (m : String) : Prop where
  ne_empty : m ≠ ""
  plain : ∀ c ∈ m.toList, c ≠ '/' ∧ c ≠ '[' ∧ c ≠ ':'

variable {m : String}

theorem legible_containerElem (hm : ModuleName m) : (containerElem m).Legible where
  name := show Path.Plain containerName.toList by decide
  moduleName _ h := by
    cases h
    refine ⟨⟨?_, fun c hc => ⟨(hm.plain c hc).1, (hm.plain c hc).2.1⟩⟩, fun hc => ?_⟩
    · simpa using hm.ne_empty
    · exact (hm.plain ':' hc).2.2 rfl
  bare h := by cases h
  keys _ hkv := by cases hkv

/-- Single quotes go around an id. -/
theorem quote?_toDigits (id : Nat) : Path.quote? (Nat.toDigits 10 id) = some '\'' := by
  have hquote : '\'' ∉ Nat.toDigits 10 id := by
    intro hc
    exact absurd (Nat.isDigit_of_mem_toDigits (by decide) (by decide) hc) (by decide)
  rw [Path.quote?, if_pos hquote]

theorem legible_entryElem (id : Nat) : (entryElem id).Legible where
  name := show Path.Plain listName.toList by decide
  moduleName _ h := by cases h
  bare _ := show ':' ∉ listName.toList by decide
  keys kv hkv := by
    obtain rfl := List.mem_singleton.1 hkv
    exact ⟨show Path.KeyName "id" by decide, by simp [quote?_toDigits]⟩

theorem requestsPath_eq (m : String) : requestsPath m = Path.text [containerElem m] := by
  have hprinted : requestsPath m = "/" ++ m ++ ":" ++ containerName := rfl
  rw [hprinted, ← String.toList_inj]
  simp [Path.text, Path.chars, Path.Elem.chars, containerElem]

theorem requestPath_eq (m : String) (id : Nat) :
    requestPath m id = Path.text [containerElem m, entryElem id] := by
  have hprinted : requestPath m id
      = requestsPath m ++ "/" ++ listName ++ "[id='" ++ toString id ++ "']" := rfl
  rw [hprinted, requestsPath_eq, ← String.toList_inj]
  simp [Path.text, Path.chars, Path.Elem.chars, Path.Elem.keyText, Path.predicateText,
    containerElem, entryElem, quote?_toDigits]

/-! ## What paths mean -/

theorem idOf?_entryElem {id : Nat} (h : id < Nat.pow 2 64) :
    idOf? (entryElem id).keys = some id := by
  simp [idOf?, entryElem, Text.natural?_toDigits h]

theorem ofElems_entry {id : Nat} (h : id < Nat.pow 2 64) (below : List Path.Elem) :
    ofElems m (containerElem m :: entryElem id :: below)
      = if below.isEmpty then request id else nested id := by
  have htop : ¬((containerElem m).moduleName ≠ some m ∨ (containerElem m).name ≠ containerName) := by
    simp [containerElem]
  have hname : (entryElem id).name = listName := rfl
  rw [ofElems, if_neg htop]
  simp [idOf?_entryElem h, hname]

theorem ofPath_of_parse {path : String} {es : List Path.Elem} (h : Path.parse path = .ok es) :
    ofPath m path = ofElems m es := by
  rw [ofPath, h]

theorem ofPath_requestsPath (hm : ModuleName m) : ofPath m (requestsPath m) = container := by
  have hparse : Path.parse (requestsPath m) = .ok [containerElem m] := by
    rw [requestsPath_eq]
    exact Path.parse_text (by simp) (by simpa using legible_containerElem hm)
  rw [ofPath_of_parse hparse]
  simp [ofElems, containerElem]

theorem legible_request (hm : ModuleName m) (id : Nat) :
    ∀ e ∈ [containerElem m, entryElem id], e.Legible := by
  simpa using ⟨legible_containerElem hm, legible_entryElem id⟩

/-- The engine reads the path of a request as that request. -/
theorem ofPath_requestPath (hm : ModuleName m) {id : Nat} (h : id < Nat.pow 2 64) :
    ofPath m (requestPath m id) = request id := by
  have hparse : Path.parse (requestPath m id) = .ok [containerElem m, entryElem id] := by
    rw [requestPath_eq]
    exact Path.parse_text (by simp) (legible_request hm id)
  rw [ofPath_of_parse hparse, ofElems_entry h]
  rfl

/-- Whatever can be read below it is a part of that request. -/
theorem ofPath_nested (hm : ModuleName m) {id : Nat} (h : id < Nat.pow 2 64) {below : String}
    {es : List Path.Elem} (hbelow : Path.parse ("/" ++ below) = .ok es) :
    ofPath m (requestPath m id ++ "/" ++ below) = nested id := by
  have hparse : Path.parse (requestPath m id ++ "/" ++ below)
      = .ok (containerElem m :: entryElem id :: es) := by
    rw [requestPath_eq, String.append_assoc]
    exact Path.parse_text_append (legible_request hm id) hbelow
  have hne : es ≠ [] := fun hnil => Path.parse_ne_nil (hnil ▸ hbelow)
  rw [ofPath_of_parse hparse, ofElems_entry h, if_neg (by simpa using hne)]

/-- A path that starts at another node is none of the engine's. -/
theorem ofPath_foreign {path : String} {e : Path.Elem} {es : List Path.Elem}
    (h : Path.parse path = .ok (e :: es))
    (hforeign : e.moduleName ≠ some m ∨ e.name ≠ containerName) : ofPath m path = other := by
  rw [ofPath_of_parse h]
  simp only [ofElems, if_pos hforeign]

end Target

/-! ## Command lines -/

namespace Text

theorem words_eq (c : Char) (cs : List Char) : words (c :: cs) =
    if isBlank c then words cs
    else
      match cs, words cs with
      | d :: _, w :: ws => if isBlank d then [c] :: w :: ws else (c :: w) :: ws
      | _, ws => [c] :: ws := rfl

theorem words_last {c : Char} {cs : List Char} (hc : isBlank c = false)
    (hcs : ∀ d ∈ cs.head?, isBlank d = true) : words (c :: cs) = [c] :: words cs := by
  rw [words_eq, hc, if_neg Bool.false_ne_true]
  split
  · next d ds w ws hw => rw [if_pos (hcs d rfl), hw]
  · rfl

theorem words_cons {c d : Char} {ds w : List Char} {ws : List (List Char)}
    (hc : isBlank c = false) (hd : isBlank d = false) (hw : words (d :: ds) = w :: ws) :
    words (c :: d :: ds) = (c :: w) :: ws := by
  rw [words_eq, hc, if_neg Bool.false_ne_true, hw]
  simp only [hd, Bool.false_eq_true, if_false]

/-- A word and, after a blank or at the end of the text, the other words. -/
theorem words_append {w rest : List Char} (hne : w ≠ []) (hw : ∀ c ∈ w, isBlank c = false)
    (hrest : ∀ d ∈ rest.head?, isBlank d = true) : words (w ++ rest) = w :: words rest := by
  induction w with
  | nil => exact absurd rfl hne
  | cons c w ih =>
    obtain ⟨hc, hw⟩ := List.forall_mem_cons.1 hw
    cases w with
    | nil => exact words_last hc hrest
    | cons d w => exact words_cons hc (hw d List.mem_cons_self) (ih (by simp) hw)

theorem isBlank_of_isDigit {c : Char} (h : c.isDigit = true) : isBlank c = false := by
  obtain ⟨hlow, hhigh⟩ : 48 ≤ c.toNat ∧ c.toNat ≤ 57 := by
    simpa [Char.isDigit, UInt32.le_iff_toNat_le] using h
  simp only [isBlank, Bool.or_eq_false_iff, Bool.and_eq_false_iff, decide_eq_false_iff_not,
    beq_eq_false_iff_ne]
  omega

end Text

namespace Script.Command

theorem words_line {word : String} (hne : word.toList ≠ [])
    (hword : ∀ c ∈ word.toList, Text.isBlank c = false) (id : Nat) :
    Text.words (s!"{word} {id}").toList = [word.toList, Nat.toDigits 10 id] := by
  have hline : (s!"{word} {id}").toList = word.toList ++ ' ' :: Nat.toDigits 10 id := by
    have hprinted : s!"{word} {id}" = word ++ " " ++ toString id := rfl
    rw [hprinted]
    simp
  have hid : Text.words (Nat.toDigits 10 id ++ []) = [Nat.toDigits 10 id] :=
    Text.words_append Nat.toDigits_ne_nil (fun c hc => Text.isBlank_of_isDigit
      (Nat.isDigit_of_mem_toDigits (by decide) (by decide) hc)) (by simp)
  rw [List.append_nil] at hid
  rw [hline, Text.words_append hne hword (by simp; decide), Text.words_eq, if_pos (by decide), hid]

variable {id : Nat}

theorem id_digits (h : id < Nat.pow 2 64) : Command.id [Nat.toDigits 10 id] = .ok id := by
  simp [Command.id, Text.natural?_toDigits h]

theorem parse_delete (h : id < Nat.pow 2 64) :
    Command.parse s!"delete {id}" = .ok (.delete id) := by
  have hwords : Text.words (s!"delete {id}").toList = ["delete".toList, Nat.toDigits 10 id] :=
    @words_line "delete" (by decide) (by simp; decide) id
  simp only [Command.parse, hwords, String.ofList_toList, id_digits h]
  rfl

/-- The command line that deletes a request sends one change, on the path of that request. -/
theorem sends_deletion (h : id < Nat.pow 2 64) (m : String) :
    ∃ next : Nat → Outcome → Script, Script.command m s!"delete {id}" = .number fun txn =>
      .ask (.phase m (.change txn [.deletion (requestPath m id)])) (next txn) := by
  unfold Script.command
  rw [parse_delete h]
  exact ⟨_, rfl⟩

end Script.Command

/-! ## Transactions on one request -/

namespace Engine

open Work (Meets)

variable {s : Setup} {e e' : Engine} {c : Change} {id txn : Nat} {ns : List Note}
  {r : Except Error Unit}

/-- What announcing a transaction that creates or deletes request `id` comes to. It is not accepted
without effect, and it has no effect on any other request. -/
structure Reaches (s : Setup) (id : Nat) (c : Change) (e : Engine) (ns : List Note)
    (r : Except Error Unit) (e' : Engine) : Prop where
  created : r = .ok () → c.kind = .created → e.registry.find? id = none ∧
    ∃ payload h, c.value = some payload ∧ e'.registry.find? id = some h ∧
      Request.parse id payload s.leastInterval = .ok h.request
  deleted : r = .ok () → c.kind = .deleted →
    (∃ h, e.registry.find? id = some h) ∧ e'.registry.find? id = none
  refused : r ≠ .ok () → e'.registry = e.registry
  others : ∀ id', id' ≠ id → e'.registry.find? id' = e.registry.find? id'
  untouched : ∀ h, e.Registered h → h.id ≠ id → Untouched h ns e e'

/-- The ids that one change creates and deletes. -/
theorem eq_of_target (ht : c.target s.moduleName = .request id) {id' : Nat}
    (h : id' ∈ Change.created s.moduleName [c] ∨ id' ∈ Change.deleted s.moduleName [c]) :
    id' = id := by
  have htarget : c.target s.moduleName = .request id' := by
    rcases h with h | h
    · obtain ⟨c', hc', hid⟩ := List.mem_filterMap.1 h
      obtain rfl := List.mem_singleton.1 hc'
      exact (Change.created?_eq_some.1 hid).1
    · obtain ⟨c', hc', hid⟩ := List.mem_filterMap.1 h
      obtain rfl := List.mem_singleton.1 hc'
      exact (Change.deleted?_eq_some.1 hid).1
  exact (Target.request.inj (ht.symm.trans htarget)).symm

/-- An accepted change of one request was planned for it, and what was planned was made. -/
theorem Accepted.reaches (ha : Accepted s txn [c] e ns e') (ht : c.target s.moduleName = .request id)
    {p : Planned} (hp : PlanOf s e c p)
    (huntouched : ∀ h, e.Registered h → h.id ≠ id → Untouched h ns e e') :
    Reaches s id c e ns (.ok ()) e' := by
  obtain ⟨hcreates, hdeletes⟩ := exists_planOf.1 ⟨p, hp⟩
  refine ⟨fun _ hk => ?_, fun _ hk => ?_, fun h => absurd rfl h, fun id' hne => ?_, huntouched⟩
  · obtain ⟨habsent, payload, req, hvalue, hparse, -⟩ := hcreates id ⟨ht, hk⟩
    have hreq : req ∈ Change.requests s [c] := by
      refine List.mem_filterMap.2 ⟨c, List.mem_cons_self, ?_⟩
      have hcreated : c.created? s.moduleName = some id := Change.created?_eq_some.2 ⟨ht, hk⟩
      simp [Change.request?, hcreated, hvalue, hparse, Except.toOption]
    obtain ⟨h, rfl, -, hreg, -⟩ := ha.created req hreq
    have hid : h.id = id := (Request.of_parse hparse).1
    exact ⟨habsent, payload, h, hvalue, hid ▸ hreg, hparse⟩
  · refine ⟨hdeletes id ⟨ht, hk⟩, ha.deleted id ?_⟩
    exact List.mem_filterMap.2 ⟨c, List.mem_cons_self, Change.deleted?_eq_some.2 ⟨ht, hk⟩⟩
  · exact ha.others id' (fun h => hne (eq_of_target ht (.inl h)))
      fun h => hne (eq_of_target ht (.inr h))

theorem reaches (hr : Rest s e) (ht : c.target s.moduleName = .request id)
    (hperf : Performs s (.phase (.change txn [c])) e ns r e') : Reaches s id c e ns r e' := by
  have huntouched (h : Handle) (hreg : e.Registered h) (hne : h.id ≠ id) : Untouched h ns e e' :=
    hperf.untouched hr hreg fun hn => hne (eq_of_target ht hn)
  have hunmoved (hno : r ≠ .ok ()) (hreg : e'.registry = e.registry) : Reaches s id c e ns r e' :=
    ⟨fun h => absurd h hno, fun h => absurd h hno, fun _ => hreg, fun _ _ => by rw [hreg],
      huntouched⟩
  cases hpending : e.pending with
  | some p =>
    obtain ⟨-, hrefused, hu, -⟩ :=
      Meets.course hperf (change_pending_unmoved (T := fun _ => True) hr hpending)
    exact hunmoved (by simp [hrefused]) hu.registry
  | none =>
    obtain ⟨-, hanswered, -⟩ := Meets.course hperf (change_meets hr hpending)
    cases r with
    | error err =>
      cases hanswered with
      | refused registry => exact hunmoved (by simp) registry
    | ok u =>
      have hall : Accepted s txn [c] e ns e' := hanswered.accepted_of_ok hr.sound
      cases hanswered with
      | accepted plan =>
        obtain ⟨p, -, hp, -, -⟩ := List.forall₂_cons_left_iff.1 (planChanges_eq_ok.1 plan).2
        exact hall.reaches ht hp huntouched

end Engine

/-- **The engine's own paths lead back to it.** In a module whose name can stand in a path, the path
of the container is read as the container, the path of a request as that request, and whatever can
be read below it as a part of that request; a path whose first element has another module or another
name is read as nothing of the engine's. So the command line that deletes a request announces a
change on its path, and a transaction on that path comes to an end and reaches that request and no
other. -/
theorem Target.own_paths {m : String} (hm : m ≠ "")
    (hplain : ∀ c ∈ m.toList, c ≠ '/' ∧ c ≠ '[' ∧ c ≠ ':') :
    Target.ofPath m (requestsPath m) = .container ∧
    (∀ id < Nat.pow 2 64,
      Target.ofPath m (requestPath m id) = .request id ∧
      (∀ below es, Path.parse ("/" ++ below) = .ok es →
        Target.ofPath m (requestPath m id ++ "/" ++ below) = .nested id) ∧
      (∃ next : Nat → Outcome → Script, Script.command m s!"delete {id}" = .number fun txn =>
        .ask (.phase m (.change txn [.deletion (requestPath m id)])) (next txn)) ∧
      ∀ (s : Setup) (e : Engine), s.moduleName = m → System.Reachable s ⟨e, none⟩ →
        ∀ txn c, c.path = requestPath m id → Engine.Returns s (.phase (.change txn [c])) e ∧
          ∀ ns r e', Engine.Performs s (.phase (.change txn [c])) e ns r e' →
            Engine.Reaches s id c e ns r e') ∧
    ∀ path e es, Path.parse path = .ok (e :: es) → e.moduleName ≠ some m ∨ e.name ≠ containerName →
      Target.ofPath m path = .other := by
  have hname : ModuleName m := ⟨hm, hplain⟩
  refine ⟨ofPath_requestsPath hname, fun id hid => ⟨ofPath_requestPath hname hid,
    fun below es h => ofPath_nested hname hid h, Script.Command.sends_deletion hid m, ?_⟩,
    fun path e es h hforeign => ofPath_foreign h hforeign⟩
  rintro s e rfl hx txn c hpath
  have hrest := hx.good.rest
  have htarget : c.target s.moduleName = .request id := by
    rw [Change.target, hpath]
    exact ofPath_requestPath hname hid
  exact ⟨hrest.returns _, fun ns r e' hperf => Engine.reaches hrest htarget hperf⟩

namespace Small

theorem own_paths_small : "t" ≠ "" ∧ (∀ c ∈ "t".toList, c ≠ '/' ∧ c ≠ '[' ∧ c ≠ ':') ∧
    Target.ofPath "t" "/t:subscribe-requests/subscribe-request[id='18446744073709551615']"
      = .request 18446744073709551615 ∧
    Target.ofPath "t" "/t:subscribe-requests/subscribe-request[id='0']/a[id='7'][k=\"]/'\"]/b"
      = .nested 0 ∧
    Target.ofPath "t" "/u:subscribe-requests/subscribe-request[id='1']" = .other ∧
    ∃ ns e', Engine.Performs setup (.phase (.change 8 [deletion])) established ns (.ok ()) e' ∧
      established.registry.find? 1 ≠ none ∧ e'.registry.find? 1 = none := by
  have hne : "t" ≠ "" := by decide
  have hplain : ∀ c ∈ "t".toList, c ≠ '/' ∧ c ≠ '[' ∧ c ≠ ':' := by simp
  obtain ⟨-, hown, hforeign⟩ := Target.own_paths hne hplain
  refine ⟨hne, hplain, (hown 18446744073709551615 (by decide)).1,
    (hown 0 (by decide)).2.1 "a[id='7'][k=\"]/'\"]/b" [⟨none, "a", [("id", "7"), ("k", "]/'")]⟩,
      ⟨none, "b", []⟩] (by decide +kernel),
    hforeign _ ⟨some "u", "subscribe-requests", []⟩ [⟨none, "subscribe-request", [("id", "1")]⟩]
      (by decide +kernel) (.inl (by decide)), ?_⟩
  obtain ⟨ns, hperf⟩ := reachable_established.good.rest.performs (.phase (.change 8 [deletion]))
  have hok : ((Engine.Call.phase (.change 8 [deletion])).work setup |>.run setup established).2
      = .ok () := by decide +kernel
  rw [hok] at hperf
  obtain ⟨-, hreaches⟩ :=
    (hown 1 (by decide)).2.2.2 setup established rfl reachable_established 8 deletion (by decide)
  obtain ⟨⟨h, hpresent⟩, hgone⟩ := (hreaches ns _ _ hperf).deleted rfl rfl
  exact ⟨ns, _, hperf, by simp [hpresent], hgone⟩

end Small

end Telemetry
