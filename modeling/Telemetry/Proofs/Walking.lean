import Telemetry.Proofs.Flattening

/-!
# Walks that succeed

A walk over a data tree that succeeds has succeeded everywhere: for every member, for every entry of
a list and for the keys of every entry. What it found it found in one of these places.

* `walkAll_eq_ok`, `mem_of_walkAll`: the parts of a walk;
* `collectEntry_eq_ok`, `keys_of_entryPredicates`: what is known of a list entry that was passed;
* `collect_member`, `mem_of_collect_object`, `collect_list`: the walk over an object and over a list;
* `flatten_eq_ok`, `mem_of_flatten`: what flattening gives was walked and lies within the request;
* `SchemaTree`: a tree whose top-level members the schema knows;
* `findNode_of_under`: the schema knows them under the module name of a path it accepts.
-/
namespace Telemetry

namespace SortedMap

variable {κ ν : Type} [Ord κ] [Std.TransOrd κ] [Std.LawfulEqOrd κ]

theorem mem_of_find?_foldl_insert {l : List (κ × ν)} {m : SortedMap κ ν} {k : κ} {v : ν}
    (h : (l.foldl (fun m e => m.insert e.1 e.2) m).find? k = some v) :
    (k, v) ∈ l ∨ m.find? k = some v := by
  induction l generalizing m with
  | nil => exact .inr h
  | cons e l ih =>
    rcases ih h with hl | hm
    · exact .inl (List.mem_cons_of_mem _ hl)
    · by_cases hk : k = e.1
      · subst hk
        obtain rfl : e.2 = v := by simpa using hm
        exact .inl List.mem_cons_self
      · exact .inr (by rwa [find?_insert_of_ne _ hk] at hm)

theorem mem_of_find?_ofList {l : List (κ × ν)} {k : κ} {v : ν} (h : (ofList l).find? k = some v) :
    (k, v) ∈ l :=
  (mem_of_find?_foldl_insert h).resolve_right (by simp)

theorem filter_insert (p : κ → Bool) (m : SortedMap κ ν) (k : κ) (v : ν) :
    (m.insert k v).filter (fun k _ => p k)
      = if p k then (m.filter fun k _ => p k).insert k v else m.filter fun k _ => p k := by
  refine ext_find? fun k' => ?_
  rw [find?_filter]
  by_cases hk : k' = k
  · subst hk
    cases hp : p k' <;> simp [find?_filter, hp]
  · cases hp : p k <;> simp [find?_filter, find?_insert_of_ne _ hk]

/-- Entries of a map chosen by their keys can be chosen before the map is made. -/
theorem filter_ofList (p : κ → Bool) (l : List (κ × ν)) :
    (ofList l).filter (fun k _ => p k) = ofList (l.filter fun e => p e.1) := by
  have hfold (m : SortedMap κ ν) :
      (l.foldl (fun m e => m.insert e.1 e.2) m).filter (fun k _ => p k)
        = (l.filter fun e => p e.1).foldl (fun m e => m.insert e.1 e.2)
            (m.filter fun k _ => p k) := by
    induction l generalizing m with
    | nil => rfl
    | cons e l ih =>
      rw [List.foldl_cons, ih, filter_insert]
      cases hp : p e.1 <;> simp [hp]
  exact hfold empty

end SortedMap

/-- Induction over values by their parts. -/
@[elab_as_elim]
theorem Json.parts_induction {P : Json → Prop}
    (value : ∀ j, j.isObject = false → (∀ items, j ≠ .array items) → P j)
    (array : ∀ items, (∀ item ∈ items, P item) → P (.array items))
    (object : ∀ members, (∀ m ∈ members, P m.2) → P (.object members)) : ∀ j, P j
  | .array items => array items fun item _ => parts_induction value array object item
  | .object members => object members fun m _ => parts_induction value array object m.2
  | .null => value _ rfl (by simp)
  | .bool _ => value _ rfl (by simp)
  | .number _ => value _ rfl (by simp)
  | .string _ => value _ rfl (by simp)
termination_by j => sizeOf j
decreasing_by
  · have := List.sizeOf_lt_of_mem ‹_›
    simp only [Json.array.sizeOf_spec]
    omega
  · have := List.sizeOf_lt_of_mem ‹_›
    obtain ⟨name, j⟩ := m
    simp only [Json.object.sizeOf_spec, Prod.mk.sizeOf_spec] at *
    omega

/-- A module name in front of a name plays no part in the look-up of a child. -/
theorem SchemaNode.child?_head (n : SchemaNode) (e : Path.Elem) :
    n.child? (String.ofList e.head) = n.child? e.name := by
  have h : Path.afterColon e.head = Path.afterColon e.name.toList := by
    unfold Path.Elem.head
    cases e.moduleName with
    | none => rfl
    | some m => simp [Path.afterColon_append]
  simp [SchemaNode.child?, h]

namespace Leaves

open Telemetry.Path (Elem)

/-! ## Parts -/

theorem both_eq_ok {a b : Except Error (List (String × Json))} {out : List (String × Json)} :
    both a b = .ok out ↔ ∃ xs ys, a = .ok xs ∧ b = .ok ys ∧ out = xs ++ ys := by
  cases a with
  | error e => simp [both]
  | ok xs =>
    cases b with
    | error e => simp [both]
    | ok ys => simp [both, eq_comm]

section

variable {α : Type} {walk : α → Except Error (List (String × Json))} {xs : List α}
  {out : List (String × Json)}

/-- Every part of a walk that succeeds succeeds. -/
theorem walkAll_eq_ok (h : walkAll walk xs = .ok out) {x : α} (hx : x ∈ xs) :
    ∃ found, walk x = .ok found := by
  induction xs generalizing out with
  | nil => cases hx
  | cons y xs ih =>
    rw [walkAll_cons, both_eq_ok] at h
    obtain ⟨found, rest, hy, hrest, -⟩ := h
    rcases List.mem_cons.1 hx with rfl | hx
    · exact ⟨found, hy⟩
    · exact ih hrest hx

/-- What a walk finds is found in one of its parts. -/
theorem mem_of_walkAll (h : walkAll walk xs = .ok out) {e : String × Json} (he : e ∈ out) :
    ∃ x ∈ xs, ∃ found, walk x = .ok found ∧ e ∈ found := by
  induction xs generalizing out with
  | nil =>
    cases h
    cases he
  | cons y xs ih =>
    rw [walkAll_cons, both_eq_ok] at h
    obtain ⟨found, rest, hy, hrest, rfl⟩ := h
    rcases List.mem_append.1 he with he | he
    · exact ⟨y, List.mem_cons_self, found, hy, he⟩
    · obtain ⟨x, hx, hfound⟩ := ih hrest he
      exact ⟨x, List.mem_cons_of_mem _ hx, hfound⟩

end

/-! ## Entries of lists -/

/-- A key value that can be put between quotes. -/
def Quotable (value : Json) : Prop :=
  ¬('\'' ∈ (keyText value).toList ∧ '"' ∈ (keyText value).toList)

theorem quotable_of_keyPredicate {key : String} {value : Json} {p : String}
    (h : keyPredicate key value = .ok p) : Quotable value := by
  intro hboth
  simp [keyPredicate, Path.quote?_eq_none.2 hboth] at h

/-- An entry whose predicates were written has all its keys, and each of them can be quoted. -/
theorem keys_of_entryPredicates {list : String} {entry : Json} {keys : List String} {ps : String}
    (h : entryPredicates list entry keys = .ok ps) :
    ∀ key ∈ keys, ∃ value, entry.member? key = some value ∧ Quotable value := by
  induction keys generalizing ps with
  | nil => simp
  | cons key keys ih =>
    rw [entryPredicates] at h
    split at h
    · cases h
    · next value hvalue =>
      split at h
      · cases h
      · next p hp =>
        split at h
        · cases h
        · next ps' hps =>
          intro key' hkey
          rcases List.mem_cons.1 hkey with rfl | hkey
          · exact ⟨value, hvalue, quotable_of_keyPredicate hp⟩
          · exact ih hps key' hkey

/-- An entry that was passed: its keys could be written, and the walk went on behind them. -/
theorem collectEntry_eq_ok {node : SchemaNode} {path : String} {entry : Json}
    {out : List (String × Json)} (h : collectEntry node path entry = .ok out) :
    ∃ kvs, Keyed entry node.keys kvs ∧
      (∀ key ∈ node.keys, ∃ value, entry.member? key = some value ∧ Quotable value) ∧
      collect (some node) (path ++ String.ofList (kvs.flatMap Elem.keyText)) entry = .ok out := by
  unfold collectEntry at h
  split at h
  · cases h
  · next ps hps =>
    have hkeys := keys_of_entryPredicates hps
    obtain ⟨kvs, keyed⟩ := Keyed.exists_of_members fun key hkey => (hkeys key hkey).imp fun _ hv => hv.1
    have hwritten : entryPredicates path entry node.keys = _ := entryPredicates_eq_ok keyed hkeys
    rw [hps] at hwritten
    cases hwritten
    exact ⟨kvs, keyed, hkeys, h⟩

/-! ## Objects and lists -/

section

variable {node : Option SchemaNode} {path : String} {members : List (String × Json)}
  {items : List Json} {out : List (String × Json)}

theorem collect_member (h : collect node path (.object members) = .ok out) {m : String × Json}
    (hm : m ∈ members) :
    ∃ found, collect (node.bind (·.child? m.1)) (path ++ "/" ++ m.1) m.2 = .ok found := by
  rw [collect, collectMembers_eq] at h
  exact walkAll_eq_ok h hm

theorem mem_of_collect_object (h : collect node path (.object members) = .ok out)
    {e : String × Json} (he : e ∈ out) :
    ∃ m ∈ members, ∃ found,
      collect (node.bind (·.child? m.1)) (path ++ "/" ++ m.1) m.2 = .ok found ∧ e ∈ found := by
  rw [collect, collectMembers_eq] at h
  exact mem_of_walkAll h he

/-- A list that was passed has a node, and each of its entries was passed. -/
theorem collect_list (list : isList items = true) (h : collect node path (.array items) = .ok out) :
    ∃ n, node = some n ∧ walkAll (collectEntry n path) (items.filter (·.isObject)) = .ok out := by
  cases node with
  | none =>
    rw [collect, if_pos list] at h
    cases h
  | some n =>
    rw [collect, if_pos list] at h
    exact ⟨n, rfl, by rwa [← collectEntries_eq]⟩

theorem isList_iff : isList items = true ↔ ∃ entry ∈ items, entry.isObject = true := by
  rw [isList, List.any_eq_true]

end

/-! ## Flattening -/

theorem flatten_eq_ok {schema : Schema} {data : Json} {path : String} {leaves : Leaves} :
    flatten schema data path = .ok leaves ↔ ∃ request members out, Path.parse path = .ok request ∧
      data = .object members ∧
      collectTop schema (request.head?.bind (·.moduleName)) members = .ok out ∧
      leaves = (SortedMap.ofList out).filter fun leaf _ => within request leaf := by
  unfold flatten
  cases hpath : Path.parse path with
  | error e => simp
  | ok request =>
    cases data with
    | object members =>
      cases hwalk : collectTop schema (request.head?.bind (·.moduleName)) members with
      | error e => simp [hwalk]
      | ok out => simp [hwalk, eq_comm]
    | _ => simp

theorem mem_of_flatten {schema : Schema} {data : Json} {path : String} {leaves : Leaves}
    {request : List Elem} (hpath : Path.parse path = .ok request)
    (h : flatten schema data path = .ok leaves) {q : String} {v : Json}
    (found : leaves.find? q = some v) :
    within request q = true ∧ ∃ members out, data = .object members ∧
      collectTop schema (request.head?.bind (·.moduleName)) members = .ok out ∧ (q, v) ∈ out := by
  obtain ⟨request', members, out, hpath', hdata, hwalk, rfl⟩ := flatten_eq_ok.1 h
  obtain rfl : request' = request := Except.ok.inj (hpath'.symm.trans hpath)
  rw [SortedMap.find?_filter, Option.filter_eq_some_iff] at found
  exact ⟨found.2, members, out, hdata, hwalk, SortedMap.mem_of_find?_ofList found.1⟩

/-- A tree of which every top-level member is known to the schema, and fits the node that the schema
has for it under any module name. -/
structure SchemaTree (fits : SchemaNode → Json → Prop) (schema : Schema)
    (members : List (String × Json)) : Prop where
  distinct : (members.map (·.1)).Nodup
  names : ∀ m ∈ members, Identifier m.1
  known : ∀ m ∈ members, (schema.top? none m.1).isSome
  fits : ∀ m ∈ members, ∀ moduleName n, schema.top? moduleName m.1 = some n → fits n m.2

/-- A top-level member fits some node of the schema, and the one sought for it if there is one. -/
theorem SchemaTree.exists_fits {fits : SchemaNode → Json → Prop} {schema : Schema}
    {members : List (String × Json)} (tree : SchemaTree fits schema members)
    (moduleName : Option String) {m : String × Json} (hm : m ∈ members) :
    ∃ n, fits n m.2 ∧ ∀ n', schema.top? moduleName m.1 = some n' → n' = n := by
  cases htop : schema.top? moduleName m.1 with
  | some n => exact ⟨n, tree.fits m hm _ n htop, fun n' h => (Option.some.inj h).symm⟩
  | none =>
    obtain ⟨n, hn⟩ := Option.isSome_iff_exists.1 (tree.known m hm)
    exact ⟨n, tree.fits m hm _ n hn, fun n' h => by cases h⟩

/-- Below a path that the schema accepts the member at the top has a node. -/
theorem findNode_of_under {schema : Schema} {request es : List Path.Elem}
    {moduleName : Option String} {name : String} {kvs : List (String × String)}
    (valid : (schema.resolve? request).isSome)
    (hmodule : request.head?.bind (·.moduleName) = moduleName)
    (hunder : Under request (⟨moduleName, name, kvs⟩ :: es)) :
    ∃ n, schema.findNode (Path.ofTopLevel moduleName name) = .ok n := by
  cases request with
  | nil => cases valid
  | cons want request =>
    obtain ⟨⟨hname, -⟩, -⟩ := under_cons.1 hunder
    obtain rfl : want.moduleName = moduleName := hmodule
    obtain rfl : name = want.name := hname
    unfold Schema.resolve? at valid
    dsimp only at valid
    cases hnode : schema.findNode (Path.ofTopLevel want.moduleName want.name) with
    | error e => simp [hnode] at valid
    | ok n => exact ⟨n, rfl⟩

/-! ## The nodes of the example -/

namespace Small

theorem eq_of_top? {moduleName : Option String} {n : SchemaNode}
    (h : schema.top? moduleName "ports" = some n) : n = ⟨"ports", .container, [], [list]⟩ := by
  obtain ⟨m, hm, hn⟩ := List.mem_flatMap.1 (List.mem_of_find?_eq_some h)
  obtain rfl := List.mem_singleton.1 (List.mem_filter.1 hm).1
  exact List.mem_singleton.1 hn

theorem child?_port :
    (⟨"ports", .container, [], [list]⟩ : SchemaNode).child? "port" = some list := rfl

end Small

end Leaves

end Telemetry
