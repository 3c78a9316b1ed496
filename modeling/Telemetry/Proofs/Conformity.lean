import Telemetry.Proofs.Walking

/-!
# What a leaf path names

Whether a value is a leaf is read off its shape, not off the schema: what is neither an object nor an
array with an object in it is one. On a tree that conforms to the schema the two agree but in one
point. A list without entries is an empty array, which no object tells from a value: it is reported
as if it were a leaf, under the path of the list and with no predicates on it.

Member names and key names are taken to be ones that a path can carry (`MemberName`, `Identifier`). A
path through any other would not lead back to where it came from, whatever stands there.

* `Conforms`: a value of the shape its node calls for, with such names;
* `Conforms.addresses`: what a walk over such a value finds, in terms of the schema;
* `leaf_or_empty_list`: every path reported names a leaf or a leaf-list, or a list without entries;
* `Small.empty_list_reported`: the latter does happen.
-/
namespace Telemetry.Leaves

open Telemetry.Path (Elem)

/-! ## Conforming trees -/

def Scalar (j : Json) : Prop := j.isObject = false ∧ ∀ items, j ≠ .array items

/-- A name that a path can carry, perhaps with a module name in front. -/
def MemberName (name : String) : Prop :=
  ∃ e : Elem, e.Legible ∧ e.keys = [] ∧ name = String.ofList e.head

/-- A value of the shape its node calls for: an object at a container, an array of objects with their
keys at a list, a scalar at a leaf, an array of scalars at a leaf-list. The schema knows every
member. Members have names that a path can carry, and the names of keys are ordinary. -/
inductive Conforms : SchemaNode → Json → Prop
  | leaf {n : SchemaNode} {j : Json} (kind : n.kind = .leaf) (scalar : Scalar j) : Conforms n j
  | leafList {n : SchemaNode} {items : List Json} (kind : n.kind = .leafList)
      (scalars : ∀ item ∈ items, Scalar item) : Conforms n (.array items)
  | container {n : SchemaNode} {members : List (String × Json)} (kind : n.kind = .container)
      (names : ∀ m ∈ members, MemberName m.1) (known : ∀ m ∈ members, (n.child? m.1).isSome)
      (children : ∀ m ∈ members, ∀ c, n.child? m.1 = some c → Conforms c m.2) :
      Conforms n (.object members)
  | list {n : SchemaNode} {items : List Json} (kind : n.kind = .list)
      (objects : ∀ entry ∈ items, entry.isObject = true)
      (keyNames : ∀ key ∈ n.keys, Identifier key)
      (keyed : ∀ entry ∈ items, ∀ key ∈ n.keys, (entry.member? key).isSome)
      (names : ∀ members, .object members ∈ items → ∀ m ∈ members, MemberName m.1)
      (known : ∀ members, .object members ∈ items → ∀ m ∈ members, (n.child? m.1).isSome)
      (children : ∀ members, .object members ∈ items → ∀ m ∈ members, ∀ c,
        n.child? m.1 = some c → Conforms c m.2) :
      Conforms n (.array items)

/-! ## Addresses -/

/-- `Addresses n kvs es v`: from an element that names `n` and carries the predicates `kvs`, the
elements `es` go on to a leaf or a leaf-list, or `v` is a list without entries. Whoever passes a list
gives its keys. -/
inductive Addresses : SchemaNode → List (String × String) → List Elem → Json → Prop
  | leaf {n : SchemaNode} {v : Json} (kind : n.kind = .leaf ∨ n.kind = .leafList) :
      Addresses n [] [] v
  | empty {n : SchemaNode} (kind : n.kind = .list) : Addresses n [] [] (.array [])
  | child {n c : SchemaNode} {kvs : List (String × String)} {e : Elem} {es : List Elem} {v : Json}
      (keyed : n.kind = .list → kvs.map (·.1) = n.keys) (node : n.child? e.name = some c)
      (below : Addresses c e.keys es v) : Addresses n kvs (e :: es) v

namespace Addresses

variable {n : SchemaNode} {kvs : List (String × String)} {es : List Elem} {v : Json}

/-- The node at the end of an address. -/
theorem descend (h : Addresses n kvs es v) : ∃ node, Schema.descend n es = some node ∧
    (node.kind = .leaf ∨ node.kind = .leafList ∨ node.kind = .list ∧ v = .array []) := by
  induction h with
  | leaf kind => exact ⟨_, rfl, kind.imp_right .inl⟩
  | empty kind => exact ⟨_, rfl, .inr (.inr ⟨kind, rfl⟩)⟩
  | child _ node _ ih =>
    obtain ⟨last, hlast, hkind⟩ := ih
    exact ⟨last, by simp [Schema.descend, node, hlast], hkind⟩

/-- The element an address starts from gives all keys if it names a list. -/
theorem keys_of_list (h : Addresses n kvs es v) (kind : n.kind = .list) :
    kvs.map (·.1) = n.keys ∨ es = [] ∧ v = .array [] := by
  cases h with
  | leaf hkind => simp [kind] at hkind
  | empty => exact .inr ⟨rfl, rfl⟩
  | child keyed => exact .inl (keyed kind)

/-- So does every further element that names a list. -/
theorem keys_below (h : Addresses n kvs es v) {front back : List Elem} {e : Elem} {c : SchemaNode}
    (hes : es = front ++ e :: back) (hc : Schema.descend n (front ++ [e]) = some c)
    (kind : c.kind = .list) : e.keys.map (·.1) = c.keys ∨ back = [] ∧ v = .array [] := by
  induction h generalizing front with
  | leaf | empty => simp at hes
  | @child n c' kvs e' es v keyed node below ih =>
    cases front with
    | nil =>
      obtain ⟨rfl, rfl⟩ := List.cons_eq_cons.1 hes
      obtain rfl : c' = c := by simpa [Schema.descend, node] using hc
      exact below.keys_of_list kind
    | cons f front =>
      obtain ⟨rfl, rfl⟩ := List.cons_eq_cons.1 hes
      exact ih rfl (by simpa [Schema.descend, node] using hc)

end Addresses

/-! ## The walk -/

theorem spell_head (path : String) (e : Elem) (kvs : List (String × String)) (es : List Elem) :
    spell (path ++ "/" ++ String.ofList e.head) kvs es
      = spell path [] ({ e with keys := kvs } :: es) := by
  apply String.toList_inj.1
  simp [spell, Path.chars, Elem.chars_eq, Elem.head]

/-- What was found below an object with known members: every one of them is a child, and the walk over
it found an address. -/
theorem addresses_of_members {n : SchemaNode} {node : Option SchemaNode}
    (hnode : ∀ m, node = some m → m = n) {members : List (String × Json)}
    (names : ∀ m ∈ members, MemberName m.1) (known : ∀ m ∈ members, (n.child? m.1).isSome)
    {kvs : List (String × String)} (keyed : n.kind = .list → kvs.map (·.1) = n.keys)
    (ih : ∀ m ∈ members, ∀ c, n.child? m.1 = some c → ∀ {node : Option SchemaNode},
      (∀ m, node = some m → m = c) → ∀ {path : String} {out : List (String × Json)},
        collect node path m.2 = .ok out → ∀ {q : String} {v : Json}, (q, v) ∈ out →
          ∃ kvs es, Addresses c kvs es v ∧
            (∀ kv ∈ kvs, Path.KeyName kv.1 ∧ Path.quote? kv.2.toList ≠ none) ∧
            (∀ e ∈ es, e.Legible) ∧ q = spell path kvs es)
    {path : String} {out : List (String × Json)}
    (walked : collect node path (.object members) = .ok out) {q : String} {v : Json}
    (hmem : (q, v) ∈ out) :
    ∃ es, Addresses n kvs es v ∧ (∀ e ∈ es, e.Legible) ∧ q = spell path [] es := by
  obtain ⟨m, hm, found, hfound, hq⟩ := mem_of_collect_object walked hmem
  obtain ⟨c, hc⟩ := Option.isSome_iff_exists.1 (known m hm)
  have hchild : ∀ c', node.bind (·.child? m.1) = some c' → c' = c := by
    intro c' hc'
    obtain ⟨n', hn', hsame⟩ := Option.bind_eq_some_iff.1 hc'
    rw [hnode n' hn', hc] at hsame
    exact (Option.some.inj hsame).symm
  obtain ⟨kvs', es, haddr, hkeys, hes, rfl⟩ := ih m hm c hc hchild hfound hq
  obtain ⟨e, he, -, hname⟩ := names m hm
  refine ⟨{ e with keys := kvs' } :: es, .child keyed ?_ haddr, fun d hd => ?_, ?_⟩
  · rw [hname, SchemaNode.child?_head] at hc
    exact hc
  · rcases List.mem_cons.1 hd with rfl | hd
    · exact ⟨he.name, he.moduleName, he.bare, hkeys⟩
    · exact hes d hd
  · rw [hname, spell_head]

/-- What a walk over a conforming value finds has an address from its node, whether the walk had that
node or none. -/
theorem Conforms.addresses {n : SchemaNode} {j : Json} (h : Conforms n j) {node : Option SchemaNode}
    (hnode : ∀ m, node = some m → m = n) {path : String} {out : List (String × Json)}
    (walked : collect node path j = .ok out) {q : String} {v : Json} (hmem : (q, v) ∈ out) :
    ∃ kvs es, Addresses n kvs es v ∧
      (∀ kv ∈ kvs, Path.KeyName kv.1 ∧ Path.quote? kv.2.toList ≠ none) ∧
      (∀ e ∈ es, e.Legible) ∧ q = spell path kvs es := by
  induction h generalizing node path out q v with
  | leaf kind scalar =>
    rw [collect_value scalar.1 fun items hj => absurd hj (scalar.2 items)] at walked
    cases walked
    obtain ⟨rfl, rfl⟩ : q = path ∧ v = _ := by simpa using hmem
    exact ⟨[], [], .leaf (.inl kind), by simp, by simp, (spell_nil q).symm⟩
  | @leafList n items kind scalars =>
    have hvalue : isList items = false := by
      rw [← Bool.not_eq_true, isList_iff]
      rintro ⟨item, hitem, hobject⟩
      rw [(scalars item hitem).1] at hobject
      cases hobject
    rw [collect_value rfl fun items' hj => by cases hj; exact hvalue] at walked
    cases walked
    obtain ⟨rfl, rfl⟩ : q = path ∧ v = _ := by simpa using hmem
    exact ⟨[], [], .leaf (.inr kind), by simp, by simp, (spell_nil q).symm⟩
  | @container n members kind names known children ih =>
    have keyed : n.kind = .list → ([] : List (String × String)).map (·.1) = n.keys := by simp [kind]
    obtain ⟨es, haddr, hes, hq⟩ := addresses_of_members hnode names known keyed
      (fun m hm c hc => ih m hm c hc) walked hmem
    exact ⟨[], es, haddr, by simp, hes, hq⟩
  | @list n items kind objects keyNames keyed names known children ih =>
    by_cases hlist : isList items = true
    · obtain ⟨n', rfl, hwalk⟩ := collect_list hlist walked
      obtain rfl := hnode n' rfl
      obtain ⟨entry, hentry, found, hfound, hq⟩ := mem_of_walkAll hwalk hmem
      have hitem : entry ∈ items := (List.mem_filter.1 hentry).1
      obtain ⟨kvs, hkvs, hquotable, hcollect⟩ := collectEntry_eq_ok hfound
      cases entry with
      | object members =>
        obtain ⟨es, haddr, hes, rfl⟩ := addresses_of_members hnode (names _ hitem) (known _ hitem)
          (fun _ => hkvs.names) (fun m hm c hc => ih _ hitem m hm c hc) hcollect hq
        have hlegible := hkvs.legible (fun key hkey => (keyNames key hkey).keyName) hquotable
        exact ⟨kvs, es, haddr, hlegible, hes, spell_entry ..⟩
      | _ => cases objects _ hitem
    · -- all items are objects, so there are none
      have hnil : items = [] := List.eq_nil_iff_forall_not_mem.2 fun entry hentry =>
        hlist (isList_iff.2 ⟨entry, hentry, objects entry hentry⟩)
      subst hnil
      rw [collect_value rfl fun items' hj => by cases hj; rfl] at walked
      cases walked
      obtain ⟨rfl, rfl⟩ : q = path ∧ v = _ := by simpa using hmem
      exact ⟨[], [], .empty kind, by simp, by simp, (spell_nil q).symm⟩

/-! ## Trees -/

/-- A path reported for a conforming tree is an address below one of its members. -/
theorem SchemaTree.addresses {schema : Schema} {members : List (String × Json)} {path q : String}
    {leaves : Leaves} {v : Json} {request : List Elem} (tree : SchemaTree Conforms schema members)
    (hpath : Path.parse path = .ok request)
    (flattened : flatten schema (.object members) path = .ok leaves)
    (found : leaves.find? q = some v) {moduleName : Option String}
    (hmodule : request.head?.bind (·.moduleName) = moduleName) :
    ∃ name n kvs es, Addresses n kvs es v ∧ Path.parse q = .ok (⟨moduleName, name, kvs⟩ :: es) ∧
      Under request (⟨moduleName, name, kvs⟩ :: es) ∧
      ∀ n', schema.findNode (Path.ofTopLevel moduleName name) = .ok n' → n' = n := by
  subst hmodule
  have hm := prefix_of_parse hpath
  obtain ⟨hwithin, members', out, hdata, hwalk, hmem⟩ := mem_of_flatten hpath flattened found
  cases hdata
  rw [collectTop_eq] at hwalk
  obtain ⟨m, hmember, out, hout, hq⟩ := mem_of_walkAll hwalk hmem
  have hname := tree.names m hmember
  have hfind := findNode_ofTopLevel schema hm hname
  rw [hfind] at hout
  obtain ⟨n, hconforms, hn⟩ := tree.exists_fits _ hmember
  obtain ⟨kvs, es, haddr, hkeys, hes, rfl⟩ := hconforms.addresses hn hout hq
  rw [spell_top] at hwithin ⊢
  generalize request.head?.bind (·.moduleName) = moduleName at *
  have hlegible : ∀ e ∈ ⟨moduleName, m.1, kvs⟩ :: es, e.Legible := by
    intro e he
    rcases List.mem_cons.1 he with rfl | he
    · exact ⟨hname.path_plain, hm, fun _ => hname.not_mem (by decide), hkeys⟩
    · exact hes e he
  refine ⟨m.1, n, kvs, es, haddr, Path.parse_text (by simp) hlegible,
    (within_text (by simp) hlegible).1 hwithin, fun n' hnode => hn n' ?_⟩
  rw [← hfind, hnode]
  rfl

/-- A path reported for a conforming tree, one with names that a path can carry, names a leaf or a
leaf-list and gives the keys of every list on its way; or it names a list without entries, which alone
it gives no keys. -/
theorem leaf_or_empty_list {schema : Schema} {members : List (String × Json)} {path q : String}
    {leaves : Leaves} {v : Json} (tree : SchemaTree Conforms schema members)
    (valid : schema.accepts path = true)
    (flattened : flatten schema (.object members) path = .ok leaves)
    (found : leaves.find? q = some v) :
    ∃ es node, Path.parse q = .ok es ∧ schema.resolve? es = some node ∧
      (node.kind = .leaf ∨ node.kind = .leafList ∨ node.kind = .list ∧ v = .array []) ∧
      ∀ front e back n, es = front ++ e :: back → schema.resolve? (front ++ [e]) = some n →
        n.kind = .list → e.keys.map (·.1) = n.keys ∨ back = [] ∧ v = .array [] := by
  unfold Schema.accepts at valid
  split at valid
  · cases valid
  · next request hpath =>
    generalize hmodule : request.head?.bind (·.moduleName) = moduleName
    obtain ⟨name, n, kvs, es, haddr, hparse, hunder, hn⟩ :=
      tree.addresses hpath flattened found hmodule
    obtain ⟨n', hnode⟩ := findNode_of_under valid hmodule hunder
    obtain rfl := hn n' hnode
    have hresolve (ds : List Elem) (kvs : List (String × String)) :
        schema.resolve? (⟨moduleName, name, kvs⟩ :: ds) = Schema.descend n' ds := by
      simp [Schema.resolve?, hnode]
    obtain ⟨last, hlast, hkind⟩ := haddr.descend
    refine ⟨_, last, hparse, by rw [hresolve, hlast], hkind, ?_⟩
    intro front e back c hes hc hlist
    cases front with
    | nil =>
      obtain ⟨rfl, rfl⟩ := List.cons_eq_cons.1 hes
      rw [List.nil_append, hresolve] at hc
      obtain rfl : n' = c := Option.some.inj hc
      exact haddr.keys_of_list hlist
    | cons f front =>
      obtain ⟨rfl, rfl⟩ := List.cons_eq_cons.1 hes
      rw [List.cons_append, hresolve] at hc
      exact haddr.keys_below rfl hc hlist

/-! ## An example -/

namespace Small

theorem memberName {name : String} (h : name ∈ ["ports", "port", "name", "up"]) : MemberName name := by
  have hname := identifier h
  refine ⟨⟨none, name, []⟩, ⟨hname.path_plain, by simp, fun _ => hname.not_mem (by decide), by simp⟩,
    rfl, by simp [Elem.head]⟩

/-- The tree of a device with these ports. -/
def device (items : List Json) : List (String × Json) := [("ports", .object [("port", .array items)])]

theorem conforming_device {items : List Json}
    (h : ∀ entry ∈ items, ∃ name up, entry = port name up) :
    SchemaTree Conforms schema (device items) := by
  have hmembers : ∀ members, .object members ∈ items →
      ∃ name up, members = [("name", .string name), ("up", .bool up)] := by
    intro members hentry
    obtain ⟨name, up, hport⟩ := h _ hentry
    exact ⟨name, up, Json.object.inj hport⟩
  have known : ∀ name ∈ ["name", "up"], ∃ c, list.child? name = some c ∧ c.kind = .leaf := by
    intro name hname
    rcases List.mem_pair.1 hname with rfl | rfl <;> exact ⟨_, rfl, rfl⟩
  have hlist : Conforms list (.array items) := by
    refine .list rfl ?_ ?_ ?_ ?_ ?_ ?_
    · intro entry hentry
      obtain ⟨name, up, rfl⟩ := h entry hentry
      rfl
    · exact fun key hkey => identifier (by simp [List.mem_singleton.1 hkey])
    · intro entry hentry key hkey
      obtain ⟨name, up, rfl⟩ := h entry hentry
      obtain rfl := List.mem_singleton.1 hkey
      rfl
    · intro members hentry m hm
      obtain ⟨name, up, rfl⟩ := hmembers members hentry
      exact memberName (by rcases List.mem_pair.1 hm with rfl | rfl <;> simp)
    · intro members hentry m hm
      obtain ⟨name, up, rfl⟩ := hmembers members hentry
      obtain ⟨c, hc, -⟩ := known m.1 (by rcases List.mem_pair.1 hm with rfl | rfl <;> simp)
      exact Option.isSome_iff_exists.2 ⟨c, hc⟩
    · intro members hentry m hm c hc
      obtain ⟨name, up, rfl⟩ := hmembers members hentry
      obtain ⟨c', hc', hleaf⟩ := known m.1 (by rcases List.mem_pair.1 hm with rfl | rfl <;> simp)
      obtain rfl : c' = c := Option.some.inj (hc'.symm.trans hc)
      exact .leaf hleaf (by rcases List.mem_pair.1 hm with rfl | rfl <;> exact ⟨rfl, by simp⟩)
  refine ⟨by simp [device], fun m hm => ?_, fun m hm => ?_, fun m hm moduleName n hn => ?_⟩
  · exact identifier (by simp [List.mem_singleton.1 hm])
  · obtain rfl := List.mem_singleton.1 hm
    rfl
  · obtain rfl := List.mem_singleton.1 hm
    obtain rfl := eq_of_top? hn
    refine .container rfl (fun m hm => ?_) (fun m hm => ?_) fun m hm c hc => ?_
    · exact memberName (by simp [List.mem_singleton.1 hm])
    · obtain rfl := List.mem_singleton.1 hm
      exact Option.isSome_of_eq_some child?_port
    · obtain rfl := List.mem_singleton.1 hm
      obtain rfl : list = c := Option.some.inj (child?_port.symm.trans hc)
      exact hlist

theorem flatten_device (items : List Json) (out : List (String × Json))
    (walked : collectTop schema (some "m") (device items) = .ok out) :
    flatten schema (.object (device items)) "/m:ports"
      = .ok ((SortedMap.ofList out).filter fun leaf _ => within [⟨some "m", "ports", []⟩] leaf) := by
  have hpath : Path.parse "/m:ports" = .ok [⟨some "m", "ports", []⟩] := by decide +kernel
  exact flatten_eq_ok.2 ⟨_, _, out, hpath, rfl, walked, rfl⟩

theorem find?_within (out : List (String × Json)) {q : String} {v : Json}
    (found : (SortedMap.ofList out).find? q = some v)
    (h : within [⟨some "m", "ports", []⟩] q = true) :
    ((SortedMap.ofList out).filter fun leaf _ =>
      within [⟨some "m", "ports", []⟩] leaf).find? q = some v := by
  rw [SortedMap.find?_filter, Option.filter_eq_some_iff]
  exact ⟨found, h⟩

/-- A device without ports: its list is reported as if it were a leaf. -/
theorem empty_list_reported : SchemaTree Conforms schema (device []) ∧
    schema.accepts "/m:ports" = true ∧ ∃ leaves es node,
      flatten schema (.object (device [])) "/m:ports" = .ok leaves ∧
        leaves.find? "/m:ports/port" = some (.array []) ∧ Path.parse "/m:ports/port" = .ok es ∧
        schema.resolve? es = some node ∧ node.kind = .list ∧ node.keys = ["name"] ∧
        es.getLast? = some ⟨none, "port", []⟩ := by
  refine ⟨conforming_device (by simp), by decide +kernel, _,
    [⟨some "m", "ports", []⟩, ⟨none, "port", []⟩], list,
    flatten_device [] [("/m:ports/port", .array [])] ?_, find?_within _ ?_ ?_, ?_, ?_, rfl, rfl, rfl⟩
  · rfl
  · rfl
  · decide +kernel
  · decide +kernel
  · rfl

/-- A device with one port. -/
theorem port_leaf_named : SchemaTree Conforms schema (device [port "0/1" true]) ∧
    schema.accepts "/m:ports" = true ∧ ∃ leaves,
    flatten schema (.object (device [port "0/1" true])) "/m:ports" = .ok leaves ∧
      leaves.find? "/m:ports/port[name='0/1']/up" = some (.bool true) ∧
      ∃ es node, Path.parse "/m:ports/port[name='0/1']/up" = .ok es ∧
        schema.resolve? es = some node ∧
        (node.kind = .leaf ∨ node.kind = .leafList ∨ node.kind = .list ∧ Json.bool true = .array []) ∧
        ∀ front e back n, es = front ++ e :: back → schema.resolve? (front ++ [e]) = some n →
          n.kind = .list → e.keys.map (·.1) = n.keys ∨ back = [] ∧ Json.bool true = .array [] := by
  have tree : SchemaTree Conforms schema (device [port "0/1" true]) :=
    conforming_device fun entry hentry => ⟨_, _, List.mem_singleton.1 hentry⟩
  have valid : schema.accepts "/m:ports" = true := by decide +kernel
  have flattened := flatten_device [port "0/1" true] [
    ("/m:ports/port[name='0/1']/name", .string "0/1"), ("/m:ports/port[name='0/1']/up", .bool true)] rfl
  have hfind : (SortedMap.ofList [("/m:ports/port[name='0/1']/name", Json.string "0/1"),
      ("/m:ports/port[name='0/1']/up", .bool true)]).find? "/m:ports/port[name='0/1']/up"
        = some (.bool true) := rfl
  have found := find?_within _ hfind (by decide +kernel)
  exact ⟨tree, valid, _, flattened, found, leaf_or_empty_list tree valid flattened found⟩

end Small

end Telemetry.Leaves
