import Telemetry.Proofs.Walking

/-!
# A leaf path selects its leaf

The path of a leaf is a path of its own right: the schema accepts it, and to flatten the same tree
under it gives that leaf and nothing else. The tree has to be one that the schema models. Which
characters stand in the keys of its list entries plays no part.

* `Modelled.orderly`: a modelled value that was walked is in order, whatever node the walk took;
* `LeafAt.eq_of_under`: no other leaf lies at or below the path of a leaf;
* `LeafAt.descend_isSome`: the schema has a node for every element of the path;
* `leaf_selects_itself`: the result.
-/
namespace Telemetry.Leaves

open Telemetry.Path (Elem)

/-! ## Modelled trees -/

/-- A value that a node models: it has a child for every member, the names are ordinary, and no two
entries of a list have the same keys. -/
inductive Modelled : SchemaNode → Json → Prop
  | value {n : SchemaNode} {j : Json} (object : j.isObject = false)
      (list : ∀ items, j = .array items → isList items = false) : Modelled n j
  | object {n : SchemaNode} {members : List (String × Json)}
      (distinct : (members.map (·.1)).Nodup) (names : ∀ m ∈ members, Identifier m.1)
      (known : ∀ m ∈ members, (n.child? m.1).isSome)
      (children : ∀ m ∈ members, ∀ c, n.child? m.1 = some c → Modelled c m.2) :
      Modelled n (.object members)
  | list {n : SchemaNode} {items : List Json} (list : isList items = true)
      (distinct : ∀ (i j : Nat) (a b : Json) (kvs : List (String × String)),
        items[i]? = some a → items[j]? = some b → a.isObject = true → b.isObject = true →
        Keyed a n.keys kvs → Keyed b n.keys kvs → i = j)
      (entries : ∀ entry ∈ items, entry.isObject = true → Modelled n entry) :
      Modelled n (.array items)

theorem Modelled.names {n : SchemaNode} {members : List (String × Json)}
    (h : Modelled n (.object members)) : ∀ m ∈ members, Identifier m.1 := by
  cases h with
  | value object => cases object
  | object _ names => exact names

theorem mem_of_member? {members : List (String × Json)} {name : String} {value : Json}
    (h : (Json.object members).member? name = some value) : (name, value) ∈ members := by
  change Json.lookup name members = some value at h
  induction members with
  | nil => cases h
  | cons m members ih =>
    obtain ⟨k, v⟩ := m
    rw [Json.lookup] at h
    split at h
    · next hk =>
      cases h
      exact hk ▸ List.mem_cons_self
    · exact List.mem_cons_of_mem _ (ih h)

/-- A modelled value is in order once a walk over it has succeeded, whether that walk had its node or
none: the walk saw to the keys of the entries, and met no list if it had no node. -/
theorem Modelled.orderly {n : SchemaNode} {j : Json} (h : Modelled n j) {node : Option SchemaNode}
    (hnode : ∀ m, node = some m → m = n) {path : String} {out : List (String × Json)}
    (walked : collect node path j = .ok out) : Orderly node j := by
  induction h generalizing node path out with
  | value object list => exact .value object list
  | @object n members distinct names known children ih =>
    refine .object distinct names fun m hm => ?_
    obtain ⟨c, hc⟩ := Option.isSome_iff_exists.1 (known m hm)
    obtain ⟨found, hfound⟩ := collect_member walked hm
    refine ih m hm c hc (fun d hd => ?_) hfound
    obtain ⟨n', hn', hchild⟩ := Option.bind_eq_some_iff.1 hd
    rw [hnode n' hn', hc] at hchild
    exact (Option.some.inj hchild).symm
  | @list n items list distinct entries ih =>
    obtain ⟨n', rfl, hwalk⟩ := collect_list list walked
    obtain rfl := hnode n' rfl
    -- what the walk knows of one entry
    have passed : ∀ entry ∈ items, entry.isObject = true →
        (∀ key ∈ n'.keys, ∃ value, entry.member? key = some value ∧ Quotable value) ∧
          ∃ q found, collect (some n') q entry = .ok found := by
      intro entry hmem hobject
      obtain ⟨found, hfound⟩ := walkAll_eq_ok hwalk (List.mem_filter.2 ⟨hmem, hobject⟩)
      obtain ⟨kvs, -, hkeys, hcollect⟩ := collectEntry_eq_ok hfound
      exact ⟨hkeys, _, _, hcollect⟩
    refine .list list (fun key hkey => ?_) (fun entry hmem hobject => (passed entry hmem hobject).1)
      distinct fun entry hmem hobject => ?_
    · -- a key is the name of a member of some entry
      obtain ⟨entry, hmem, hobject⟩ := isList_iff.1 list
      obtain ⟨value, hvalue, -⟩ := (passed entry hmem hobject).1 key hkey
      cases entry with
      | object members => exact (entries _ hmem hobject).names _ (mem_of_member? hvalue)
      | _ => cases hobject
    · obtain ⟨-, q, found, hfound⟩ := passed entry hmem hobject
      exact ih entry hmem hobject (fun m hm => (Option.some.inj hm).symm) hfound

/-! ## No other leaf at or below -/

theorem Under.refl (es : List Elem) : Under es es where
  length := le_rfl
  names i want got hwant hgot := by rw [Option.some.inj (hwant.symm.trans hgot)]
  keys i want got hwant hgot := by simp [Option.some.inj (hwant.symm.trans hgot)]

theorem Keyed.eq_of_subset {a b : Json} {keys : List String} {kvs kvs' : List (String × String)}
    (ha : Keyed a keys kvs) (hb : Keyed b keys kvs') (h : ∀ kv ∈ kvs, kv ∈ kvs') : kvs = kvs' := by
  have htext : ∀ kv ∈ kvs, (b.member? kv.1).map keyText = some kv.2 := fun kv hkv =>
    hb.texts kv (h kv hkv)
  exact Keyed.unique ⟨ha.names, htext⟩ hb

/-- Of two leaves of a value in order, one lies at or below the path of the other only if they are
the same. -/
theorem LeafAt.eq_of_under {node : Option SchemaNode} {j : Json} {pos pos' : List Hop}
    {kvs kvs' : List (String × String)} {es es' : List Elem} {v v' : Json} (hj : Orderly node j)
    (h : LeafAt node j pos kvs es v) (h' : LeafAt node j pos' kvs' es' v')
    (hkeys : ∀ kv ∈ kvs, kv ∈ kvs') (hunder : Under es es') : pos = pos' := by
  induction h generalizing pos' kvs' es' v' with
  | value object list =>
    cases h' with
    | value => rfl
    | member => cases object
    | item get hentry => exact (false_of_entry get hentry list).elim
  | @member node members name child pos kvs es v hm hleaf ih =>
    cases h' with
    | value object => cases object
    | @member _ _ name' child' pos' kvs' es' v' hm' hleaf' =>
      cases hj with
      | value object => cases object
      | object distinct names children =>
        obtain ⟨⟨rfl, hkvs⟩, hes⟩ := under_cons.1 hunder
        obtain rfl := value_of_nodup distinct hm hm'
        have hchild := children _ hm
        rw [ih hchild hleaf' hkvs hes]
  | @item node items i entry pos kvs es v get hentry keyed hleaf ih =>
    cases h' with
    | value _ list => exact (false_of_entry get hentry list).elim
    | @item _ _ i' entry' pos' kvs' es' v' get' hentry' keyed' hleaf' =>
      cases hj with
      | value _ list => exact (false_of_entry get hentry list).elim
      | list _ _ _ distinct entries =>
        obtain rfl := keyed.eq_of_subset keyed' hkeys
        obtain rfl := distinct _ _ _ _ _ get get' hentry hentry' keyed keyed'
        obtain rfl := Option.some.inj (get.symm.trans get')
        have hchild := entries entry (List.mem_of_getElem? get) hentry
        rw [ih hchild hleaf' (by simp) hunder]

/-! ## The schema knows the path -/

/-- The schema has a node for every element on the way to a leaf. -/
theorem LeafAt.descend_isSome {n : SchemaNode} {j : Json} (hj : Modelled n j) {pos : List Hop}
    {kvs : List (String × String)} {es : List Elem} {v : Json} (h : LeafAt (some n) j pos kvs es v) :
    (Schema.descend n es).isSome := by
  generalize hnode : some n = node at h
  induction h generalizing n with
  | value => rfl
  | @member node members name child pos kvs es v hm hleaf ih =>
    subst hnode
    cases hj with
    | value object => cases object
    | object distinct names known children =>
      obtain ⟨c, hc⟩ := Option.isSome_iff_exists.1 (known _ hm)
      have hbind : (some n).bind (·.child? name) = some c := hc
      rw [Schema.descend, show n.child? name = some c from hc, Option.bind_some]
      exact ih (children _ hm c hc) hbind.symm
  | @item node items i entry pos kvs es v get hentry keyed hleaf ih =>
    cases hnode
    cases hj with
    | value _ list => exact (false_of_entry get hentry list).elim
    | list _ _ entries => exact ih (entries entry (List.mem_of_getElem? get) hentry) rfl

/-! ## Trees -/

section

variable {schema : Schema} {members : List (String × Json)} {moduleName : Option String}

theorem SchemaTree.orderlyTree (tree : SchemaTree Modelled schema members) (hm : Prefix moduleName)
    {out : List (String × Json)} (walked : collectTop schema moduleName members = .ok out) :
    OrderlyTree schema moduleName members := by
  refine ⟨tree.distinct, tree.names, fun m hmem => ?_⟩
  rw [collectTop_eq] at walked
  obtain ⟨found, hfound⟩ := walkAll_eq_ok walked hmem
  rw [findNode_ofTopLevel schema hm (tree.names m hmem)] at hfound
  obtain ⟨n, hn, htop⟩ := tree.exists_fits moduleName hmem
  exact hn.orderly htop hfound

theorem LeafOf.eq_of_under (tree : OrderlyTree schema moduleName members) {pos pos' : List Hop}
    {es es' : List Elem} {v v' : Json} (h : LeafOf schema moduleName members pos es v)
    (h' : LeafOf schema moduleName members pos' es' v') (hunder : Under es es') : pos = pos' := by
  cases h with
  | @top name child pos kvs es v hmem hleaf =>
    cases h' with
    | @top name' child' pos' kvs' es' v' hmem' hleaf' =>
      obtain ⟨⟨rfl, hkvs⟩, hes⟩ := under_cons.1 hunder
      obtain rfl := value_of_nodup tree.distinct hmem hmem'
      rw [hleaf.eq_of_under (tree.children _ hmem) hleaf' hkvs hes]

theorem LeafOf.head {pos : List Hop} {es : List Elem} {v : Json}
    (h : LeafOf schema moduleName members pos es v) : es.head?.bind (·.moduleName) = moduleName := by
  cases h
  rfl

/-- The top-level node of a leaf below a valid request is known, and so is everything further down. -/
theorem LeafOf.resolve?_isSome (tree : SchemaTree Modelled schema members) (hm : Prefix moduleName)
    {request : List Elem} (hmodule : request.head?.bind (·.moduleName) = moduleName)
    (valid : (schema.resolve? request).isSome) {pos : List Hop} {es : List Elem} {v : Json}
    (h : LeafOf schema moduleName members pos es v) (hunder : Under request es) :
    (schema.resolve? es).isSome := by
  cases h with
  | @top name child pos kvs es v hmem hleaf =>
    obtain ⟨n, hnode⟩ := findNode_of_under valid hmodule hunder
    have hfind := findNode_ofTopLevel schema hm (tree.names _ hmem)
    dsimp only at hfind
    rw [hnode] at hfind
    rw [← hfind] at hleaf
    simp only [Schema.resolve?, hnode]
    exact hleaf.descend_isSome (tree.fits _ hmem _ n hfind.symm)

/-- Whatever is reported as a leaf under a valid path can be asked for by its own path: the schema
accepts it, and the same tree flattened under it gives that leaf alone. -/
theorem leaf_selects_itself {path q : String} {leaves : Leaves} {v : Json}
    (tree : SchemaTree Modelled schema members) (valid : schema.accepts path = true)
    (flattened : flatten schema (.object members) path = .ok leaves)
    (found : leaves.find? q = some v) :
    schema.accepts q = true ∧ flatten schema (.object members) q = .ok (.ofList [(q, v)]) := by
  unfold Schema.accepts at valid
  split at valid
  · cases valid
  · next request hpath =>
    have hm := prefix_of_parse hpath
    have hordered : OrderlyTree schema (request.head?.bind (·.moduleName)) members := by
      unfold flatten at flattened
      rw [hpath] at flattened
      dsimp only at flattened
      split at flattened
      · cases flattened
      · next out hout => exact tree.orderlyTree hm hout
    obtain ⟨leaves', hleaves', hfind, -⟩ := flatten_exact hpath rfl hordered
    rw [flattened] at hleaves'
    cases hleaves'
    obtain ⟨pos, es, hleaf, hunder, rfl⟩ := (hfind q v).1 found
    have hparse := Path.parse_text hleaf.ne_nil (hleaf.legible hm hordered)
    constructor
    · unfold Schema.accepts
      rw [hparse]
      exact hleaf.resolve?_isSome tree hm rfl valid hunder
    · obtain ⟨only, honly, hfind', -⟩ := flatten_exact hparse hleaf.head hordered
      rw [honly]
      congr 1
      refine SortedMap.ext_find? fun q' => Option.ext fun v' => ?_
      have hone : ∀ k w w', (k, w) ∈ [(Path.text es, v)] → (k, w') ∈ [(Path.text es, v)] → w = w' := by
        simp +contextual
      rw [hfind', SortedMap.find?_ofList hone, List.mem_singleton, Prod.mk.injEq]
      constructor
      · rintro ⟨pos', es', hleaf', hunder', rfl⟩
        obtain rfl := hleaf.eq_of_under hordered hleaf' hunder'
        obtain ⟨hsame, hvalue⟩ := hleaf.pos_eq_iff hordered hleaf'
        exact ⟨congrArg Path.text (hsame.1 rfl).symm, (hvalue rfl).symm⟩
      · rintro ⟨rfl, rfl⟩
        exact ⟨pos, es, hleaf, .refl es, rfl⟩

end

/-! ## An example -/

namespace Small

theorem modelled_port (name : String) (up : Bool) : Modelled list (port name up) := by
  refine .object (by simp) (fun m hm => identifier ?_) (fun m hm => ?_) fun m hm c _ => ?_
  · rcases List.mem_pair.1 hm with rfl | rfl <;> simp
  · have known : ∀ name ∈ ["name", "up"], (list.child? name).isSome = true := by decide
    rcases List.mem_pair.1 hm with rfl | rfl <;> exact known _ (by simp)
  · rcases List.mem_pair.1 hm with rfl | rfl <;> exact .value rfl (by simp)

theorem modelled_items : Modelled list (.array items) := by
  refine .list (by decide) ?_ fun entry hmem hobject => ?_
  · cases orderly_items with
    | value _ list => exact absurd (list items rfl) (by decide)
    | list _ _ _ distinct => exact distinct
  · obtain ⟨i, hi⟩ := List.mem_iff_getElem?.1 hmem
    rcases entry_of_get hi hobject with ⟨-, rfl⟩ | ⟨-, rfl⟩ <;> exact modelled_port ..

theorem modelledTree : SchemaTree Modelled schema members := by
  refine ⟨orderlyTree.distinct, orderlyTree.names, fun m hm => ?_, fun m hm moduleName n hn => ?_⟩
  · obtain rfl := List.mem_singleton.1 hm
    decide
  · obtain rfl := List.mem_singleton.1 hm
    obtain rfl := eq_of_top? hn
    refine .object (by decide) (fun m hm => identifier ?_) (fun m hm => ?_) fun m hm c hc => ?_
    · obtain rfl := List.mem_singleton.1 hm
      decide
    · obtain rfl := List.mem_singleton.1 hm
      decide
    · obtain rfl := List.mem_singleton.1 hm
      obtain rfl : list = c := Option.some.inj hc
      exact modelled_items

/-- Of the leaves of two ports, the path of one selects that one. -/
theorem up_selects_itself : SchemaTree Modelled schema members ∧ schema.accepts "/m:ports" = true ∧
    ∃ leaves, flatten schema (.object members) "/m:ports" = .ok leaves ∧
      leaves.find? "/m:ports/port[name='0/1']/up" = some (.bool true) ∧
      schema.accepts "/m:ports/port[name='0/1']/up" = true ∧
      flatten schema (.object members) "/m:ports/port[name='0/1']/up"
        = .ok (.ofList [("/m:ports/port[name='0/1']/up", .bool true)]) := by
  have valid : schema.accepts "/m:ports" = true := by decide +kernel
  obtain ⟨leaves, hflat, hfind, -⟩ :=
    flatten_exact (by decide +kernel : Path.parse "/m:ports" = .ok [⟨some "m", "ports", []⟩]) rfl
      orderlyTree
  have hleaf : LeafOf schema (some "m") members
      [.member "ports", .member "port", .item 0, .member "up"]
      [⟨some "m", "ports", []⟩, ⟨none, "port", [("name", "0/1")]⟩, ⟨none, "up", []⟩] (.bool true) :=
    .top List.mem_cons_self <| .member List.mem_cons_self <|
      .item rfl rfl ⟨rfl, by simp [port, Json.member?, Json.lookup, keyText]⟩ <|
        .member (by simp) (.value rfl (by simp))
  have found : leaves.find? "/m:ports/port[name='0/1']/up" = some (.bool true) :=
    (hfind _ _).2 ⟨_, _, hleaf, below_iff.1 (by decide), by decide +kernel⟩
  exact ⟨modelledTree, valid, leaves, hflat, found,
    leaf_selects_itself modelledTree valid hflat found⟩

end Small

end Telemetry.Leaves
