import Mathlib.Data.List.Nodup
import Mathlib.Data.List.TakeWhile
import Telemetry.Leaves
import Telemetry.Proofs.Written

/-!
# Flattening

A leaf of a data tree stands at a position: a member name or an item number for every step down
from the top. Its path spells the member names and the keys of the list entries passed, and nothing
of the item numbers. Flattening is exact on trees with ordinary names whose lists the schema
describes: every leaf position at or below the request has its entry, and every entry has its
position, one and no more.

Results:
* `collect_exact`: the walk over a value finds its leaf positions and no other paths;
* `LeafAt.pos_eq_iff`: two leaf positions are never spelled alike;
* `below_iff`, `within_text`: comparing a path read back with the request is comparing elements;
* `flatten_exact`: the leaves at or below a request, one for each position.
-/
namespace Telemetry.Leaves

open Telemetry.Path (Elem)

/-! ## Positions -/

/-- A step down a data tree. -/
inductive Hop where
  | member (name : String)
  | item (index : Nat)
  deriving DecidableEq, Repr

/-- The keys of a list entry, each with the text of its value. -/
structure Keyed (entry : Json) (keys : List String) (kvs : List (String × String)) : Prop where
  names : kvs.map (·.1) = keys
  texts : ∀ kv ∈ kvs, (entry.member? kv.1).map keyText = some kv.2

/-- `LeafAt node j pos kvs es v`: at `pos` in the value `j`, which `node` describes, stands the leaf
`v`. On the way there `j` itself adds the predicates `kvs` to the element that leads to it, and the
members below it add the elements `es`. -/
inductive LeafAt : Option SchemaNode → Json → List Hop → List (String × String) → List Elem → Json →
    Prop
  | value {node : Option SchemaNode} {j : Json} (object : j.isObject = false)
      (list : ∀ items, j = .array items → isList items = false) : LeafAt node j [] [] [] j
  | member {node : Option SchemaNode} {members : List (String × Json)} {name : String}
      {child : Json} {pos : List Hop} {kvs : List (String × String)} {es : List Elem} {v : Json}
      (mem : (name, child) ∈ members)
      (leaf : LeafAt (node.bind (·.child? name)) child pos kvs es v) :
      LeafAt node (.object members) (.member name :: pos) [] (⟨none, name, kvs⟩ :: es) v
  | item {node : SchemaNode} {items : List Json} {i : Nat} {entry : Json} {pos : List Hop}
      {kvs : List (String × String)} {es : List Elem} {v : Json} (get : items[i]? = some entry)
      (object : entry.isObject = true) (keyed : Keyed entry node.keys kvs)
      (leaf : LeafAt (some node) entry pos [] es v) :
      LeafAt (some node) (.array items) (.item i :: pos) kvs es v

/-- The leaf positions of a tree whose top-level nodes are sought under a module name, with the
elements of their paths. -/
inductive LeafOf (schema : Schema) (moduleName : Option String) (members : List (String × Json)) :
    List Hop → List Elem → Json → Prop
  | top {name : String} {child : Json} {pos : List Hop} {kvs : List (String × String)}
      {es : List Elem} {v : Json} (mem : (name, child) ∈ members)
      (leaf : LeafAt (schema.top? moduleName name) child pos kvs es v) :
      LeafOf schema moduleName members (.member name :: pos) (⟨moduleName, name, kvs⟩ :: es) v

/-- Whether elements begin with the names a request gives and agree on every key it gives. -/
structure Under (request es : List Elem) : Prop where
  length : request.length ≤ es.length
  names : ∀ (i : Nat) (want got : Elem), request[i]? = some want → es[i]? = some got →
    got.name = want.name
  keys : ∀ (i : Nat) (want got : Elem), request[i]? = some want → es[i]? = some got →
    ∀ kv ∈ want.keys, kv ∈ got.keys

/-! ## Trees in order -/

/-- An ordinary name. -/
structure Identifier (name : String) : Prop where
  ne_nil : name.toList ≠ []
  trimmed : Text.trim name.toList = name.toList
  plain : ∀ c ∈ name.toList, c ∉ ['/', '=', ':', '[', ']', '\'', '"']

/-- A value with ordinary names every list of which has a node. An entry of a list has all its keys,
each with a text that can be quoted, and no other entry has the same texts. -/
inductive Orderly : Option SchemaNode → Json → Prop
  | value {node : Option SchemaNode} {j : Json} (object : j.isObject = false)
      (list : ∀ items, j = .array items → isList items = false) : Orderly node j
  | object {node : Option SchemaNode} {members : List (String × Json)}
      (distinct : (members.map (·.1)).Nodup) (names : ∀ m ∈ members, Identifier m.1)
      (children : ∀ m ∈ members, Orderly (node.bind (·.child? m.1)) m.2) :
      Orderly node (.object members)
  | list {node : SchemaNode} {items : List Json} (list : isList items = true)
      (keyNames : ∀ key ∈ node.keys, Identifier key)
      (keyed : ∀ entry ∈ items, entry.isObject = true → ∀ key ∈ node.keys, ∃ value,
        entry.member? key = some value ∧
          ¬('\'' ∈ (keyText value).toList ∧ '"' ∈ (keyText value).toList))
      (distinct : ∀ (i j : Nat) (a b : Json) (kvs : List (String × String)),
        items[i]? = some a → items[j]? = some b → a.isObject = true → b.isObject = true →
        Keyed a node.keys kvs → Keyed b node.keys kvs → i = j)
      (entries : ∀ entry ∈ items, entry.isObject = true → Orderly (some node) entry) :
      Orderly (some node) (.array items)

/-- A tree in order, its top-level nodes being sought under a module name. -/
structure OrderlyTree (schema : Schema) (moduleName : Option String)
    (members : List (String × Json)) : Prop where
  distinct : (members.map (·.1)).Nodup
  names : ∀ m ∈ members, Identifier m.1
  children : ∀ m ∈ members, Orderly (schema.top? moduleName m.1) m.2

namespace Identifier

theorem not_mem {name : String} (h : Identifier name) {c : Char}
    (hc : c ∈ ['/', '=', ':', '[', ']', '\'', '"']) : c ∉ name.toList :=
  fun hn => h.plain c hn hc

theorem path_plain {name : String} (h : Identifier name) : Path.Plain name.toList := by
  refine ⟨h.ne_nil, fun c hc => ⟨?_, ?_⟩⟩
  · rintro rfl
    exact h.not_mem (by decide) hc
  · rintro rfl
    exact h.not_mem (by decide) hc

theorem keyName {name : String} (h : Identifier name) : Path.KeyName name :=
  ⟨h.ne_nil, h.trimmed, fun c hc hm => h.plain c hc (List.mem_cons_of_mem _ hm)⟩

end Identifier

namespace Keyed

variable {entry : Json} {keys : List String} {kvs kvs' : List (String × String)}

theorem exists_of_members (h : ∀ key ∈ keys, ∃ value, entry.member? key = some value) :
    ∃ kvs, Keyed entry keys kvs := by
  induction keys with
  | nil => exact ⟨[], rfl, by simp⟩
  | cons key keys ih =>
    obtain ⟨value, hvalue⟩ := h key List.mem_cons_self
    obtain ⟨kvs, hnames, htexts⟩ := ih fun k hk => h k (List.mem_cons_of_mem _ hk)
    refine ⟨(key, keyText value) :: kvs, by simp [hnames], fun kv hkv => ?_⟩
    rcases List.mem_cons.1 hkv with rfl | hkv
    · simp [hvalue]
    · exact htexts kv hkv

theorem eq_map (h : Keyed entry keys kvs) :
    kvs = keys.map fun key => (key, ((entry.member? key).map keyText).getD "") := by
  have hid : kvs.map (fun kv => (kv.1, ((entry.member? kv.1).map keyText).getD "")) = kvs := by
    conv => rhs; rw [← List.map_id kvs]
    apply List.map_congr_left
    intro kv hkv
    simp [h.texts kv hkv]
  rw [← h.names, List.map_map]
  exact hid.symm

theorem unique (h : Keyed entry keys kvs) (h' : Keyed entry keys kvs') : kvs = kvs' :=
  h.eq_map.trans h'.eq_map.symm

end Keyed

/-! ## Spelling -/

/-- A path with further predicates on its last element and further elements below. -/
def spell (path : String) (kvs : List (String × String)) (es : List Elem) : String :=
  path ++ String.ofList (kvs.flatMap Elem.keyText ++ Path.chars es)

theorem spell_nil (path : String) : spell path [] [] = path := by
  simp [spell, Path.chars]

theorem spell_member (path name : String) (kvs : List (String × String)) (es : List Elem) :
    spell (path ++ "/" ++ name) kvs es = spell path [] (⟨none, name, kvs⟩ :: es) := by
  apply String.toList_inj.1
  simp [spell, Path.chars, Elem.chars]

theorem spell_entry (path : String) (kvs : List (String × String)) (es : List Elem) :
    spell (path ++ String.ofList (kvs.flatMap Elem.keyText)) [] es = spell path kvs es := by
  apply String.toList_inj.1
  simp [spell]

theorem spell_top (moduleName : Option String) (name : String) (kvs : List (String × String))
    (es : List Elem) : spell (Path.ofTopLevel moduleName name) kvs es
      = Path.text (⟨moduleName, name, kvs⟩ :: es) := by
  apply String.toList_inj.1
  cases moduleName <;> simp [spell, Path.text, Path.chars, Elem.chars, Path.ofTopLevel]

/-! ## The walk -/

/-- What a walk that succeeds finds, given entry by entry. -/
def Finds (walk : Except Error (List (String × Json))) (P : String → Json → Prop) : Prop :=
  ∃ out, walk = .ok out ∧ ∀ q v, (q, v) ∈ out ↔ P q v

theorem Finds.both {a b : Except Error (List (String × Json))} {P Q : String → Json → Prop}
    (ha : Finds a P) (hb : Finds b Q) : Finds (both a b) fun q v => P q v ∨ Q q v := by
  obtain ⟨xs, rfl, hxs⟩ := ha
  obtain ⟨ys, rfl, hys⟩ := hb
  exact ⟨xs ++ ys, rfl, fun q v => by rw [List.mem_append, hxs, hys]⟩

theorem Finds.congr {a : Except Error (List (String × Json))} {P Q : String → Json → Prop}
    (ha : Finds a P) (h : ∀ q v, P q v ↔ Q q v) : Finds a Q := by
  obtain ⟨out, hout, hP⟩ := ha
  exact ⟨out, hout, fun q v => (hP q v).trans (h q v)⟩

/-- Walks over the elements of a list, one after the other. -/
def walkAll {α : Type} (walk : α → Except Error (List (String × Json))) (xs : List α) :
    Except Error (List (String × Json)) :=
  xs.foldr (fun x rest => both (walk x) rest) (.ok [])

theorem walkAll_cons {α : Type} (walk : α → Except Error (List (String × Json))) (x : α)
    (xs : List α) : walkAll walk (x :: xs) = both (walk x) (walkAll walk xs) := rfl

theorem Finds.walkAll {α : Type} {walk : α → Except Error (List (String × Json))} {xs : List α}
    {P : α → String → Json → Prop} (h : ∀ x ∈ xs, Finds (walk x) (P x)) :
    Finds (walkAll walk xs) fun q v => ∃ x ∈ xs, P x q v := by
  induction xs with
  | nil => exact ⟨[], rfl, by simp⟩
  | cons x xs ih =>
    have hx := h x List.mem_cons_self
    have hxs := ih fun y hy => h y (List.mem_cons_of_mem _ hy)
    exact (hx.both hxs).congr fun q v => by simp

theorem collectMembers_eq (node : Option SchemaNode) (path : String)
    (members : List (String × Json)) : collectMembers node path members
      = walkAll (fun m => collect (node.bind (·.child? m.1)) (path ++ "/" ++ m.1) m.2) members := by
  induction members with
  | nil => rw [collectMembers, walkAll, List.foldr_nil]
  | cons m members ih =>
    rw [collectMembers, ih]
    rfl

theorem collectTop_eq (schema : Schema) (moduleName : Option String)
    (members : List (String × Json)) : collectTop schema moduleName members
      = walkAll (fun m => collect (schema.findNode (Path.ofTopLevel moduleName m.1)).toOption
          (Path.ofTopLevel moduleName m.1) m.2) members := by
  induction members with
  | nil => rfl
  | cons m members ih =>
    rw [collectTop, ih]
    rfl

/-- The walk over one entry of a list. -/
def collectEntry (node : SchemaNode) (path : String) (entry : Json) :
    Except Error (List (String × Json)) :=
  match entryPredicates path entry node.keys with
  | .error e => .error e
  | .ok ps => collect (some node) (path ++ ps) entry

theorem collectEntries_eq (node : SchemaNode) (path : String) (items : List Json) :
    collectEntries node path items
      = walkAll (collectEntry node path) (items.filter (·.isObject)) := by
  induction items with
  | nil => rw [collectEntries, List.filter_nil, walkAll, List.foldr_nil]
  | cons item items ih =>
    cases item with
    | object members =>
      rw [collectEntries, ih, List.filter_cons_of_pos rfl, walkAll_cons, collectEntry]
      cases entryPredicates path (.object members) node.keys with
      | error e => rfl
      | ok ps => simp only [collect]
    | _ =>
      rw [collectEntries, ih]
      · rfl
      · simp

theorem keyPredicate_eq_ok {key : String} {value : Json}
    (h : ¬('\'' ∈ (keyText value).toList ∧ '"' ∈ (keyText value).toList)) :
    keyPredicate key value = .ok (String.ofList (Elem.keyText (key, keyText value))) := by
  obtain ⟨q, hq⟩ := Option.ne_none_iff_exists'.1 (mt Path.quote?_eq_none.1 h)
  have htext : Elem.keyText (key, keyText value)
      = Path.predicateText key.toList q (keyText value).toList := Path.keyText_eq hq
  simp [keyPredicate, hq, htext]

theorem entryPredicates_eq_ok {list : String} {entry : Json} {keys : List String}
    {kvs : List (String × String)} (keyed : Keyed entry keys kvs)
    (h : ∀ key ∈ keys, ∃ value, entry.member? key = some value ∧
      ¬('\'' ∈ (keyText value).toList ∧ '"' ∈ (keyText value).toList)) :
    entryPredicates list entry keys = .ok (String.ofList (kvs.flatMap Elem.keyText)) := by
  rw [keyed.eq_map]
  clear keyed
  induction keys with
  | nil => rfl
  | cons key keys ih =>
    obtain ⟨value, hvalue, hquote⟩ := h key List.mem_cons_self
    have hrest := ih fun k hk => h k (List.mem_cons_of_mem _ hk)
    simp only [entryPredicates, hvalue, keyPredicate_eq_ok hquote, hrest]
    simp [hvalue]

/-! ## What the walk finds -/

theorem isList_of_getElem? {items : List Json} {i : Nat} {entry : Json} (get : items[i]? = some entry)
    (object : entry.isObject = true) : isList items = true :=
  List.any_eq_true.2 ⟨entry, List.mem_of_getElem? get, object⟩

/-- An array with an entry is not a value. -/
theorem false_of_entry {items : List Json} {i : Nat} {entry : Json} (get : items[i]? = some entry)
    (object : entry.isObject = true)
    (list : ∀ items', Json.array items = .array items' → isList items' = false) : False := by
  have hlist := isList_of_getElem? get object
  rw [list items rfl] at hlist
  cases hlist

theorem LeafAt.keys_eq_nil {node : Option SchemaNode} {j : Json} {pos : List Hop}
    {kvs : List (String × String)} {es : List Elem} {v : Json} (h : LeafAt node j pos kvs es v)
    (object : j.isObject = true) : kvs = [] := by
  cases h with
  | value => rfl
  | member => rfl
  | item => cases object

theorem collect_value {node : Option SchemaNode} {j : Json} (object : j.isObject = false)
    (list : ∀ items, j = .array items → isList items = false) (path : String) :
    collect node path j = .ok [(path, j)] := by
  cases j with
  | object members => cases object
  | array items => simp [collect, list items rfl]
  | _ => simp [collect]

/-- The walk over a value in order finds its leaf positions, spelled out, and nothing else. -/
theorem collect_exact {node : Option SchemaNode} {j : Json} (h : Orderly node j) (path : String) :
    Finds (collect node path j) fun q v =>
      ∃ pos kvs es, LeafAt node j pos kvs es v ∧ q = spell path kvs es := by
  induction h generalizing path with
  | @value node j object list =>
    refine ⟨[(path, j)], collect_value object list path, fun q v => ?_⟩
    constructor
    · intro hmem
      obtain ⟨rfl, rfl⟩ : q = path ∧ v = j := by simpa using hmem
      exact ⟨[], [], [], .value object list, (spell_nil q).symm⟩
    · rintro ⟨pos, kvs, es, hleaf, rfl⟩
      cases hleaf with
      | value => simp [spell_nil]
      | member => cases object
      | item get hentry => exact (false_of_entry get hentry list).elim
  | @object node members distinct names children ih =>
    rw [collect, collectMembers_eq]
    refine (Finds.walkAll fun m hm => ih m hm _).congr fun q v => ?_
    constructor
    · rintro ⟨⟨name, child⟩, hm, pos, kvs, es, hleaf, rfl⟩
      exact ⟨_, _, _, .member hm hleaf, spell_member ..⟩
    · rintro ⟨pos, kvs, es, hleaf, rfl⟩
      cases hleaf with
      | value object => cases object
      | member hm hleaf => exact ⟨_, hm, _, _, _, hleaf, (spell_member ..).symm⟩
  | @list node items list keyNames keyed distinct entries ih =>
    have hentry : ∀ entry ∈ items.filter (·.isObject), Finds (collectEntry node path entry) fun q v =>
        ∃ kvs, Keyed entry node.keys kvs ∧
          ∃ pos es, LeafAt (some node) entry pos [] es v ∧ q = spell path kvs es := by
      intro entry hm
      obtain ⟨hmem, hobject⟩ := List.mem_filter.1 hm
      have hkeys := keyed entry hmem hobject
      obtain ⟨kvs, hkeyed⟩ := Keyed.exists_of_members fun key hkey =>
        (hkeys key hkey).imp fun _ hv => hv.1
      unfold collectEntry
      rw [entryPredicates_eq_ok hkeyed hkeys]
      refine (ih entry hmem hobject _).congr fun q v => ?_
      constructor
      · rintro ⟨pos, kvs', es, hleaf, rfl⟩
        obtain rfl := hleaf.keys_eq_nil hobject
        exact ⟨kvs, hkeyed, pos, es, hleaf, spell_entry ..⟩
      · rintro ⟨kvs', hkeyed', pos, es, hleaf, rfl⟩
        obtain rfl := hkeyed.unique hkeyed'
        exact ⟨pos, [], es, hleaf, (spell_entry ..).symm⟩
    rw [collect, if_pos list]
    change Finds (collectEntries node path items) _
    rw [collectEntries_eq]
    refine (Finds.walkAll hentry).congr fun q v => ?_
    constructor
    · rintro ⟨entry, hm, kvs, hkeyed, pos, es, hleaf, rfl⟩
      obtain ⟨hmem, hobject⟩ := List.mem_filter.1 hm
      obtain ⟨i, hi⟩ := List.mem_iff_getElem?.1 hmem
      exact ⟨_, _, _, .item hi hobject hkeyed hleaf, rfl⟩
    · rintro ⟨pos, kvs, es, hleaf, rfl⟩
      cases hleaf with
      | value _ hlist => simp [hlist _ rfl] at list
      | item hi hobject hkeyed hleaf =>
        exact ⟨_, List.mem_filter.2 ⟨List.mem_of_getElem? hi, hobject⟩, _, hkeyed, _, _, hleaf, rfl⟩

/-! ## Spelling tells positions apart -/

theorem value_of_nodup {members : List (String × Json)} (h : (members.map (·.1)).Nodup)
    {name : String} {a b : Json} (ha : (name, a) ∈ members) (hb : (name, b) ∈ members) : a = b := by
  have hab : (name, a) = (name, b) := List.inj_on_of_nodup_map h ha hb rfl
  exact (Prod.mk.inj hab).2

/-- Two leaf positions of a value in order are the same if and only if they add the same to a
path. -/
theorem LeafAt.pos_eq_iff {node : Option SchemaNode} {j : Json} {pos pos' : List Hop}
    {kvs kvs' : List (String × String)} {es es' : List Elem} {v v' : Json} (hj : Orderly node j)
    (h : LeafAt node j pos kvs es v) (h' : LeafAt node j pos' kvs' es' v') :
    (pos = pos' ↔ kvs = kvs' ∧ es = es') ∧ (pos = pos' → v = v') := by
  induction h generalizing pos' kvs' es' v' with
  | value object list =>
    cases h' with
    | value => simp
    | member => cases object
    | item get hentry => exact (false_of_entry get hentry list).elim
  | @member node members name child pos kvs es v hm hleaf ih =>
    cases h' with
    | value object => cases object
    | @member _ _ name' child' pos' kvs' es' v' hm' hleaf' =>
      cases hj with
      | value object => cases object
      | object distinct names children =>
        by_cases hname : name = name'
        · subst hname
          obtain rfl := value_of_nodup distinct hm hm'
          have hchild : Orderly (node.bind (·.child? name)) child := children (name, child) hm
          simpa using ih hchild hleaf'
        · simp [hname]
  | @item node items i entry pos kvs es v get hentry keyed hleaf ih =>
    cases h' with
    | value _ list => exact (false_of_entry get hentry list).elim
    | @item _ _ i' entry' pos' kvs' es' v' get' hentry' keyed' hleaf' =>
      cases hj with
      | value _ list => exact (false_of_entry get hentry list).elim
      | list _ _ _ distinct entries =>
        by_cases hi : i = i'
        · subst hi
          obtain rfl := Option.some.inj (get.symm.trans get')
          obtain rfl := keyed.unique keyed'
          have hchild := entries entry (List.mem_of_getElem? get) hentry
          simpa using ih hchild hleaf'
        · have hkvs : kvs ≠ kvs' := by
            rintro rfl
            exact hi (distinct _ _ _ _ _ get get' hentry hentry' keyed keyed')
          simp [hi, hkvs]

/-! ## Spelling is legible -/

theorem Keyed.legible {entry : Json} {keys : List String} {kvs : List (String × String)}
    (h : Keyed entry keys kvs) (keyNames : ∀ key ∈ keys, Path.KeyName key)
    (quotable : ∀ key ∈ keys, ∃ value, entry.member? key = some value ∧
      ¬('\'' ∈ (keyText value).toList ∧ '"' ∈ (keyText value).toList)) :
    ∀ kv ∈ kvs, Path.KeyName kv.1 ∧ Path.quote? kv.2.toList ≠ none := by
  intro kv hkv
  have hkey : kv.1 ∈ keys := h.names ▸ List.mem_map_of_mem hkv
  obtain ⟨value, hvalue, hquote⟩ := quotable kv.1 hkey
  have htext : keyText value = kv.2 := by simpa [hvalue] using h.texts kv hkv
  rw [htext] at hquote
  exact ⟨keyNames kv.1 hkey, mt Path.quote?_eq_none.1 hquote⟩

theorem LeafAt.legible {node : Option SchemaNode} {j : Json} {pos : List Hop}
    {kvs : List (String × String)} {es : List Elem} {v : Json} (hj : Orderly node j)
    (h : LeafAt node j pos kvs es v) :
    (∀ kv ∈ kvs, Path.KeyName kv.1 ∧ Path.quote? kv.2.toList ≠ none) ∧ ∀ e ∈ es, e.Legible := by
  induction h with
  | value => simp
  | @member node members name child pos kvs es v hm hleaf ih =>
    cases hj with
    | value object => cases object
    | object distinct names children =>
      have hname : Identifier name := names (name, child) hm
      obtain ⟨hkvs, hes⟩ := ih (children (name, child) hm)
      refine ⟨by simp, fun e he => ?_⟩
      rcases List.mem_cons.1 he with rfl | he
      · exact ⟨hname.path_plain, by simp, fun _ => hname.not_mem (by decide), hkvs⟩
      · exact hes e he
  | @item node items i entry pos kvs es v get hentry keyed hleaf ih =>
    cases hj with
    | value _ list => exact (false_of_entry get hentry list).elim
    | list _ keyNames hkeyed _ entries =>
      have hmem := List.mem_of_getElem? get
      exact ⟨keyed.legible (fun key hkey => (keyNames key hkey).keyName) (hkeyed entry hmem hentry),
        (ih (entries entry hmem hentry)).2⟩

/-! ## Trees -/

/-- A module name that a path can carry in front of its first element. -/
def Prefix (moduleName : Option String) : Prop :=
  ∀ m, moduleName = some m → Path.Plain m.toList ∧ ':' ∉ m.toList

theorem topLevel?_ofTopLevel {moduleName : Option String} {name : String}
    (hm : Prefix moduleName) (hn : Identifier name) :
    Path.topLevel? (Path.ofTopLevel moduleName name) = some (moduleName, name) := by
  have he : Elem.Legible ⟨moduleName, name, []⟩ :=
    ⟨hn.path_plain, hm, fun _ => hn.not_mem (by decide), by simp⟩
  have htext : (Path.ofTopLevel moduleName name).toList = '/' :: Elem.head ⟨moduleName, name, []⟩ := by
    cases moduleName <;> simp [Path.ofTopLevel, Elem.head]
  have hhead := Path.head?_head he
  obtain ⟨hne, hplain⟩ := he.head_plain
  generalize Elem.head ⟨moduleName, name, []⟩ = cs at htext hhead hne hplain
  have hdrop : ('/' :: cs).dropWhile (· = '/') = cs := by
    obtain ⟨c, cs, rfl⟩ := List.exists_cons_of_ne_nil hne
    simp [(hplain c List.mem_cons_self).1]
  have hslash : cs.takeWhile (· ≠ '/') = cs :=
    List.takeWhile_eq_self_iff.2 fun c hc => by simp [(hplain c hc).1]
  have hbracket : cs.takeWhile (· ≠ '[') = cs :=
    List.takeWhile_eq_self_iff.2 fun c hc => by simp [(hplain c hc).2]
  unfold Path.topLevel?
  rw [htext, hdrop, hslash, hbracket]
  unfold Path.head? at hhead
  split at hhead
  · next m n hcut =>
    split at hhead
    · cases hhead
    · simpa [hne, hcut] using hhead
  · next hcut => simpa [hne, hcut] using hhead

theorem findNode_ofTopLevel (schema : Schema) {moduleName : Option String} {name : String}
    (hm : Prefix moduleName) (hn : Identifier name) :
    (schema.findNode (Path.ofTopLevel moduleName name)).toOption = schema.top? moduleName name := by
  unfold Schema.findNode
  rw [topLevel?_ofTopLevel hm hn]
  cases hnode : schema.top? moduleName name <;> simp [hnode, Except.toOption]

section

variable {schema : Schema} {moduleName : Option String} {members : List (String × Json)}

theorem collectTop_exact (hm : Prefix moduleName) (tree : OrderlyTree schema moduleName members) :
    Finds (collectTop schema moduleName members) fun q v =>
      ∃ pos es, LeafOf schema moduleName members pos es v ∧ q = Path.text es := by
  have hmember : ∀ m ∈ members,
      Finds (collect (schema.findNode (Path.ofTopLevel moduleName m.1)).toOption
        (Path.ofTopLevel moduleName m.1) m.2) fun q v => ∃ pos kvs es,
          LeafAt (schema.top? moduleName m.1) m.2 pos kvs es v ∧
            q = spell (Path.ofTopLevel moduleName m.1) kvs es := by
    intro m hmem
    rw [findNode_ofTopLevel schema hm (tree.names m hmem)]
    exact collect_exact (tree.children m hmem) _
  rw [collectTop_eq]
  refine (Finds.walkAll hmember).congr fun q v => ?_
  constructor
  · rintro ⟨⟨name, child⟩, hmem, pos, kvs, es, hleaf, rfl⟩
    exact ⟨_, _, .top hmem hleaf, spell_top ..⟩
  · rintro ⟨pos, es, hleaf, rfl⟩
    cases hleaf with
    | top hmem hleaf => exact ⟨_, hmem, _, _, _, hleaf, (spell_top ..).symm⟩

namespace LeafOf

variable {pos pos' : List Hop} {es es' : List Elem} {v v' : Json}

theorem pos_eq_iff (tree : OrderlyTree schema moduleName members)
    (h : LeafOf schema moduleName members pos es v)
    (h' : LeafOf schema moduleName members pos' es' v') :
    (pos = pos' ↔ es = es') ∧ (pos = pos' → v = v') := by
  cases h with
  | @top name child pos kvs es v hmem hleaf =>
    cases h' with
    | @top name' child' pos' kvs' es' v' hmem' hleaf' =>
      by_cases hname : name = name'
      · subst hname
        obtain rfl := value_of_nodup tree.distinct hmem hmem'
        have hchild : Orderly (schema.top? moduleName name) child :=
          tree.children (name, child) hmem
        simpa using hleaf.pos_eq_iff hchild hleaf'
      · simp [hname]

theorem ne_nil (h : LeafOf schema moduleName members pos es v) : es ≠ [] := by
  cases h
  simp

theorem legible (hm : Prefix moduleName) (tree : OrderlyTree schema moduleName members)
    (h : LeafOf schema moduleName members pos es v) : ∀ e ∈ es, e.Legible := by
  cases h with
  | @top name child pos kvs es v hmem hleaf =>
    have hname : Identifier name := tree.names (name, child) hmem
    obtain ⟨hkvs, hes⟩ := hleaf.legible (tree.children (name, child) hmem)
    intro e he
    rcases List.mem_cons.1 he with rfl | he
    · exact ⟨hname.path_plain, hm, fun _ => hname.not_mem (by decide), hkvs⟩
    · exact hes e he

theorem pos_eq_iff_text (hm : Prefix moduleName) (tree : OrderlyTree schema moduleName members)
    (h : LeafOf schema moduleName members pos es v)
    (h' : LeafOf schema moduleName members pos' es' v') :
    pos = pos' ↔ Path.text es = Path.text es' := by
  rw [(h.pos_eq_iff tree h').1]
  refine ⟨fun hes => hes ▸ rfl, fun htext => ?_⟩
  exact Path.text_injective h.ne_nil h'.ne_nil (h.legible hm tree) (h'.legible hm tree) htext

end LeafOf

/-! ## Below a request -/

theorem matches?_iff {want got : Elem} :
    matches? want got = true ↔ got.name = want.name ∧ ∀ kv ∈ want.keys, kv ∈ got.keys := by
  unfold matches?
  rw [Bool.and_eq_true, List.all_eq_true, beq_iff_eq]
  exact and_congr eq_comm (by simp)

theorem under_cons {want got : Elem} {request es : List Elem} :
    Under (want :: request) (got :: es) ↔
      (got.name = want.name ∧ ∀ kv ∈ want.keys, kv ∈ got.keys) ∧ Under request es := by
  constructor
  · rintro ⟨hlength, hnames, hkeys⟩
    refine ⟨⟨hnames 0 want got rfl rfl, hkeys 0 want got rfl rfl⟩, ?_, ?_, ?_⟩
    · simpa using hlength
    · exact fun i w g hw hg => hnames (i + 1) w g hw hg
    · exact fun i w g hw hg => hkeys (i + 1) w g hw hg
  · rintro ⟨⟨hname, hkey⟩, hlength, hnames, hkeys⟩
    refine ⟨by simpa using hlength, fun i w g hw hg => ?_, fun i w g hw hg => ?_⟩
    · cases i with
      | zero =>
        obtain rfl : want = w := Option.some.inj hw
        obtain rfl : got = g := Option.some.inj hg
        exact hname
      | succ i => exact hnames i w g hw hg
    · cases i with
      | zero =>
        obtain rfl : want = w := Option.some.inj hw
        obtain rfl : got = g := Option.some.inj hg
        exact hkey
      | succ i => exact hkeys i w g hw hg

theorem below_iff {request es : List Elem} : below request es = true ↔ Under request es := by
  induction request generalizing es with
  | nil => simpa [below] using (⟨by simp, by simp, by simp⟩ : Under [] es)
  | cons want request ih =>
    cases es with
    | nil =>
      rw [below]
      exact ⟨fun h => absurd h Bool.false_ne_true, fun h => absurd h.length (by simp)⟩
    | cons got es => rw [below, Bool.and_eq_true, matches?_iff, ih, under_cons]

theorem within_text {request es : List Elem} (hne : es ≠ []) (h : ∀ e ∈ es, e.Legible) :
    within request (Path.text es) = true ↔ Under request es := by
  unfold within
  rw [Path.parse_text hne h]
  exact below_iff

theorem prefix_of_parse {path : String} {request : List Elem} (h : Path.parse path = .ok request) :
    Prefix (request.head?.bind (·.moduleName)) := by
  intro m hm
  cases request with
  | nil => cases hm
  | cons e es => exact Path.plain_of_parse h hm

/-- Flattening succeeds; the entries are the leaf positions at or below the request, spelled out,
and two leaf positions have one path only if they are one position. -/
theorem flatten_exact {path : String} {request : List Elem} (hpath : Path.parse path = .ok request)
    (hmodule : request.head?.bind (·.moduleName) = moduleName)
    (tree : OrderlyTree schema moduleName members) :
    ∃ leaves, flatten schema (.object members) path = .ok leaves ∧
      (∀ q v, leaves.find? q = some v ↔ ∃ pos es,
        LeafOf schema moduleName members pos es v ∧ Under request es ∧ q = Path.text es) ∧
      ∀ pos es v pos' es' v', LeafOf schema moduleName members pos es v →
        LeafOf schema moduleName members pos' es' v' →
          (pos = pos' ↔ Path.text es = Path.text es') := by
  subst hmodule
  have hm := prefix_of_parse hpath
  obtain ⟨out, hout, hmem⟩ := collectTop_exact hm tree
  have hone : ∀ q v v', (q, v) ∈ out → (q, v') ∈ out → v = v' := by
    intro q v v' hv hv'
    obtain ⟨pos, es, hleaf, rfl⟩ := (hmem q v).1 hv
    obtain ⟨pos', es', hleaf', htext⟩ := (hmem _ v').1 hv'
    have hpos := (hleaf.pos_eq_iff_text hm tree hleaf').2 htext
    exact (hleaf.pos_eq_iff tree hleaf').2 hpos
  have hflat : flatten schema (.object members) path
      = .ok ((SortedMap.ofList out).filter fun leaf _ => within request leaf) := by
    unfold flatten
    rw [hpath]
    dsimp only
    rw [hout]
  refine ⟨_, hflat, fun q v => ?_, fun pos es v pos' es' v' h h' => h.pos_eq_iff_text hm tree h'⟩
  rw [SortedMap.find?_filter, Option.filter_eq_some_iff, SortedMap.find?_ofList hone, hmem]
  constructor
  · rintro ⟨⟨pos, es, hleaf, rfl⟩, hwithin⟩
    exact ⟨pos, es, hleaf, (within_text hleaf.ne_nil (hleaf.legible hm tree)).1 hwithin, rfl⟩
  · rintro ⟨pos, es, hleaf, hunder, rfl⟩
    exact ⟨⟨pos, es, hleaf, rfl⟩, (within_text hleaf.ne_nil (hleaf.legible hm tree)).2 hunder⟩

end

/-! ## An example -/

namespace Small

/-- A container with a list of ports, told apart by their names. -/
def list : SchemaNode := ⟨"port", .list, ["name"], [⟨"name", .leaf, [], []⟩, ⟨"up", .leaf, [], []⟩]⟩

def schema : Schema := ⟨[⟨"m", [⟨"ports", .container, [], [list]⟩]⟩]⟩

def port (name : String) (up : Bool) : Json := .object [("name", .string name), ("up", .bool up)]

/-- Two ports, one with a slash in its name and one with a quote, and an item that is no entry. -/
def items : List Json := [port "0/1" true, .null, port "it's" false]

def members : List (String × Json) := [("ports", .object [("port", .array items)])]

theorem identifier {name : String} (h : name ∈ ["ports", "port", "name", "up"]) :
    Identifier name := by
  have hchecked : ∀ name ∈ ["ports", "port", "name", "up"], name.toList ≠ [] ∧
      Text.trim name.toList = name.toList ∧
      name.toList.all (· ∉ ['/', '=', ':', '[', ']', '\'', '"']) = true := by decide
  obtain ⟨hne, htrimmed, hplain⟩ := hchecked name h
  exact ⟨hne, htrimmed, fun c hc => of_decide_eq_true (List.all_eq_true.1 hplain c hc)⟩

theorem entry_of_get {i : Nat} {entry : Json} (get : items[i]? = some entry)
    (object : entry.isObject = true) :
    i = 0 ∧ entry = port "0/1" true ∨ i = 2 ∧ entry = port "it's" false := by
  match i, get with
  | 0, get => exact .inl ⟨rfl, (Option.some.inj get).symm⟩
  | 1, get =>
    obtain rfl : Json.null = entry := Option.some.inj get
    cases object
  | 2, get => exact .inr ⟨rfl, (Option.some.inj get).symm⟩
  | i + 3, get => cases get

theorem orderly_port (node : Option SchemaNode) (name : String) (up : Bool) :
    Orderly node (port name up) := by
  refine .object (by simp) (fun m hm => identifier ?_) fun m hm => ?_
  · rcases List.mem_pair.1 hm with rfl | rfl <;> simp
  · rcases List.mem_pair.1 hm with rfl | rfl
    · exact .value rfl (by simp)
    · exact .value rfl (by simp)

theorem orderly_items : Orderly (some list) (.array items) := by
  refine .list (by decide) (fun key hkey => identifier ?_) ?_ ?_ ?_
  · obtain rfl := List.mem_singleton.1 hkey
    decide
  · intro entry hmem hobject key hkey
    obtain rfl := List.mem_singleton.1 hkey
    obtain ⟨i, hi⟩ := List.mem_iff_getElem?.1 hmem
    rcases entry_of_get hi hobject with ⟨-, rfl⟩ | ⟨-, rfl⟩
    · exact ⟨_, rfl, by decide⟩
    · exact ⟨_, rfl, by decide⟩
  · intro i j a b kvs hi hj ha hb hka hkb
    have hsame := hka.eq_map.symm.trans hkb.eq_map
    rcases entry_of_get hi ha with ⟨rfl, rfl⟩ | ⟨rfl, rfl⟩ <;>
      rcases entry_of_get hj hb with ⟨rfl, rfl⟩ | ⟨rfl, rfl⟩
    · rfl
    · exact absurd hsame (by decide)
    · exact absurd hsame (by decide)
    · rfl
  · intro entry hmem hobject
    obtain ⟨i, hi⟩ := List.mem_iff_getElem?.1 hmem
    rcases entry_of_get hi hobject with ⟨-, rfl⟩ | ⟨-, rfl⟩
    · exact orderly_port ..
    · exact orderly_port ..

theorem orderlyTree : OrderlyTree schema (some "m") members := by
  refine ⟨by decide, fun m hm => identifier ?_, fun m hm => ?_⟩
  · obtain rfl := List.mem_singleton.1 hm
    decide
  · obtain rfl := List.mem_singleton.1 hm
    refine .object (by decide) (fun m hm => identifier ?_) fun m hm => ?_
    · obtain rfl := List.mem_singleton.1 hm
      decide
    · obtain rfl := List.mem_singleton.1 hm
      exact orderly_items

/-- The leaves of one port of two. -/
theorem port_flattened : ∃ leaves,
    flatten schema (.object members) "/m:ports/port[name='0/1']" = .ok leaves ∧
      (∀ q v, leaves.find? q = some v ↔ ∃ pos es, LeafOf schema (some "m") members pos es v ∧
        Under [⟨some "m", "ports", []⟩, ⟨none, "port", [("name", "0/1")]⟩] es ∧ q = Path.text es) ∧
      ∀ pos es v pos' es' v', LeafOf schema (some "m") members pos es v →
        LeafOf schema (some "m") members pos' es' v' →
          (pos = pos' ↔ Path.text es = Path.text es') :=
  flatten_exact (by decide +kernel) rfl orderlyTree

end Small

end Telemetry.Leaves
