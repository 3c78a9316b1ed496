import Telemetry.Proofs.Fronts
import Telemetry.Proofs.Walking

/-!
# Data outside a request

Flattening walks the whole tree and drops afterwards what does not lie at or below the request. So
data elsewhere can make it fail; a member whose name is no name, with a slash in it, can pass for data
inside; and so can an entry of a list whose key has a name that a predicate does not give back.
Nothing else is seen of it: as long as what stands outside can be walked, the names on the way are
names, and the key names of the lists on the way are ones that a predicate carries (`Path.KeyName`),
the result depends on what stands at or below the request alone.

* `select`, `selectTree`: what stands at or below a request;
* `Clear`, `ClearTree`: what stands outside can be walked, and what stands on the way has names, of
  members and of keys;
* `sieve_collect`: a walk with everything outside dropped is a walk over the selected values;
* `outside_unseen`: trees of which the request selects the same are flattened alike;
* `Small.outside_felt`: none of the three conditions can be left out.
-/
namespace Telemetry.Leaves

open Telemetry.Path (Elem)

/-! ## What a request selects -/

/-- Whether a text stands for a node of the name that an element gives. -/
def named (want : Elem) (text : List Char) : Bool :=
  match Path.head? text with
  | some (_, name) => name == want.name
  | none => false

/-- Whether a list entry has the keys a request gives. -/
def selects (want : List (String × String)) (keys : List String) (entry : Json) : Bool :=
  want.all fun kv => keys.contains kv.1 && (entry.member? kv.1).map keyText == some kv.2

/-- Where an element leads from the value under its name: to the value itself, or to the entries of a
list that have its keys. The last element of a request leads to a list as a whole, unless it has
keys. -/
def reach (node : Option SchemaNode) (want : Elem) (last : Bool) (path : String) (j : Json) :
    List (String × Json) :=
  if want.keys = [] ∧ last then [(path, j)]
  else
    match j with
    | .array items =>
      if isList items then
        match node with
        | none => []
        | some n =>
          (items.filter (·.isObject)).flatMap fun entry =>
            if selects want.keys n.keys entry then
              match entryPredicates path entry n.keys with
              | .error _ => []
              | .ok ps => [(path ++ ps, entry)]
            else []
      else if want.keys = [] then [(path, j)] else []
    | j => if want.keys = [] then [(path, j)] else []

/-- The values at a request, with their paths. -/
def select (node : Option SchemaNode) : List Elem → String → Json → List (String × Json)
  | [], path, j => [(path, j)]
  | want :: wants, path, .object members =>
    members.flatMap fun m =>
      if named want m.1.toList then
        let child := node.bind (·.child? m.1)
        (reach child want wants.isEmpty (path ++ "/" ++ m.1) m.2).flatMap fun p =>
          select child wants p.1 p.2
      else []
  | _ :: _, _, _ => []

/-- The values of a tree at a request. -/
def selectTree (schema : Schema) (members : List (String × Json)) :
    List Elem → List (String × Json)
  | [] => []
  | want :: wants =>
    let path := Path.ofTopLevel want.moduleName want.name
    let node := (schema.findNode path).toOption
    members.flatMap fun m =>
      if m.1 = want.name then
        (reach node want wants.isEmpty path m.2).flatMap fun p => select node wants p.1 p.2
      else []

/-! ## Trees clear outside a request -/

/-- A walk over the value does not fail. -/
def Walkable (node : Option SchemaNode) (j : Json) : Prop :=
  ∀ path, ∃ out, collect node path j = .ok out

/-- The value under the name of an element of a request: nothing but what the element leads to can
make a walk fail, and that has a property. A list has a node, its key names are ones that a predicate
carries, and its entries have their keys. -/
inductive Passable (node : Option SchemaNode) (want : List (String × String)) (P : Json → Prop) :
    Json → Prop
  | through {j : Json} (list : ∀ items, j = .array items → isList items = false) (bare : want = [])
      (inside : P j) : Passable node want P j
  | apart {j : Json} (list : ∀ items, j = .array items → isList items = false) (keys : want ≠ [])
      (walkable : Walkable node j) : Passable node want P j
  | list {n : SchemaNode} {items : List Json} (known : node = some n) (list : isList items = true)
      (keyNames : ∀ key ∈ n.keys, Path.KeyName key)
      (keyed : ∀ entry ∈ items, entry.isObject = true → ∀ key ∈ n.keys, ∃ value,
        entry.member? key = some value ∧ Quotable value)
      (aside : ∀ entry ∈ items, entry.isObject = true → selects want n.keys entry = false →
        Walkable node entry)
      (inside : ∀ entry ∈ items, entry.isObject = true → selects want n.keys entry = true →
        P entry) : Passable node want P (.array items)

/-- The value under the name of an element, the last of the request or not. -/
def Onward (node : Option SchemaNode) (want : Elem) (last : Bool) (P : Json → Prop) (j : Json) :
    Prop :=
  want.keys = [] ∧ last = true ∨ Passable node want.keys P j

/-- Nothing outside the request can make a walk fail, and the members on the way have names, as have
the keys of the lists on the way. -/
def Clear (node : Option SchemaNode) : List Elem → Json → Prop
  | want :: wants, .object members =>
    ∀ m ∈ members, Path.Free m.1.toList ∧
      let child := node.bind (·.child? m.1)
      if named want m.1.toList then Onward child want wants.isEmpty (Clear child wants) m.2
      else Walkable child m.2
  | _, _ => True

/-- The same for a tree. The names at the top are without module names. -/
def ClearTree (schema : Schema) (members : List (String × Json)) : List Elem → Prop
  | [] => True
  | want :: wants =>
    ∀ m ∈ members, Path.Free m.1.toList ∧ ':' ∉ m.1.toList ∧
      let node := (schema.findNode (Path.ofTopLevel want.moduleName m.1)).toOption
      if m.1 = want.name then Onward node want wants.isEmpty (Clear node wants) m.2
      else Walkable node m.2

/-! ## Where a walk finds leaves -/

/-- What a walk finds lies at its path or behind it: after a separator, or after a predicate if the
walk was over a list. -/
theorem collect_extends {j : Json} {node : Option SchemaNode} {path : String}
    {out : List (String × Json)} (h : collect node path j = .ok out) {q : String} {v : Json}
    (hq : (q, v) ∈ out) :
    ∃ tail, q.toList = path.toList ++ tail ∧
      (Path.Ends tail ∨ (∃ items, j = .array items ∧ isList items = true) ∧
        ∃ rest, tail = '[' :: rest) := by
  induction j using Json.parts_induction generalizing node path out with
  | value j object array =>
    rw [collect_value object fun items hj => absurd hj (array items)] at h
    cases h
    obtain ⟨rfl, -⟩ : q = path ∧ v = j := by simpa using hq
    exact ⟨[], by simp, .inl (.inl rfl)⟩
  | object members ih =>
    obtain ⟨m, hm, found, hfound, hq⟩ := mem_of_collect_object h hq
    obtain ⟨tail, htail, -⟩ := ih m hm hfound hq
    exact ⟨'/' :: (m.1.toList ++ tail), by simp [htail], .inl (.inr ⟨_, rfl⟩)⟩
  | array items ih =>
    by_cases list : isList items = true
    · obtain ⟨n, rfl, hwalk⟩ := collect_list list h
      obtain ⟨entry, hentry, found, hfound, hq⟩ := mem_of_walkAll hwalk hq
      obtain ⟨hitem, hobject⟩ := List.mem_filter.1 hentry
      obtain ⟨kvs, -, -, hcollect⟩ := collectEntry_eq_ok hfound
      obtain ⟨tail, htail, hends⟩ := ih entry hitem hcollect hq
      refine ⟨kvs.flatMap Elem.keyText ++ tail, by simp [htail], ?_⟩
      cases kvs with
      | nil =>
        refine .inl (hends.resolve_right ?_)
        rintro ⟨⟨items', rfl, -⟩, -⟩
        cases hobject
      | cons kv kvs => exact .inr ⟨⟨items, rfl, list⟩, by simp [Elem.keyText, Path.predicateText]⟩
    · rw [collect_value rfl fun items' hj => by cases hj; simpa using list] at h
      cases h
      obtain ⟨rfl, -⟩ : q = path ∧ v = _ := by simpa using hq
      exact ⟨[], by simp, .inl (.inl rfl)⟩

/-! ## What lies within a request -/

section

variable {request done wants front : List Elem} {want : Elem}

theorem matches_of_below {d : Elem} {ds : List Elem} (hlength : done.length = front.length)
    (h : below (done ++ want :: wants) (front ++ d :: ds) = true) : matches? want d = true := by
  have hunder := below_iff.1 h
  refine matches?_iff.2 ⟨hunder.names done.length want d ?_ ?_, hunder.keys done.length want d ?_ ?_⟩ <;>
    simp [hlength]

/-- Only what stands under the name that the next element of a request gives lies within it. -/
theorem named_of_within (hrequest : request = done ++ want :: wants)
    (hfront : ∀ e ∈ front, e.Legible) (hlength : done.length = front.length) {q : String}
    {text tail : List Char} (hfree : Path.Free text)
    (hq : q.toList = Path.chars front ++ '/' :: (text ++ tail))
    (hends : Path.Ends tail ∨ ∃ rest, tail = '[' :: rest) (h : within request q = true) :
    named want text = true := by
  unfold within at h
  split at h
  · cases h
  · next ds hparse =>
    obtain ⟨d, ds', rfl, hd⟩ := Path.parse_front hfront hq hparse
    unfold Path.Elem.parse? at hd
    rw [Path.first_name hfree hends] at hd
    rw [hrequest] at h
    have hname := (matches?_iff.1 (matches_of_below hlength h)).1
    simp only [Option.bind_eq_bind, Option.bind_eq_some_iff, Prod.exists, Option.pure_def,
      Option.some.injEq] at hd
    obtain ⟨m, name, hhead, keys, -, rfl⟩ := hd
    simp [named, hhead, ← hname]

/-- Only what stands behind an element that satisfies the next one of a request lies within it. -/
theorem matches_of_within (hrequest : request = done ++ want :: wants) {e : Elem}
    (hfront : ∀ d ∈ front, d.Legible) (hlength : done.length = front.length) (he : e.Legible)
    {q : String} {tail : List Char} (hq : q.toList = Path.chars front ++ '/' :: (e.chars ++ tail))
    (hends : Path.Ends tail) (h : within request q = true) : matches? want e = true := by
  unfold within at h
  split at h
  · cases h
  · next ds hparse =>
    obtain ⟨d, ds', rfl, hd⟩ := Path.parse_front hfront hq hparse
    rw [Path.first_piece (Path.crosses_chars he) hends, Path.Elem.parse?_chars he] at hd
    obtain rfl := Option.some.inj hd
    rw [hrequest] at h
    exact matches_of_below hlength h

/-- A path shorter than a request does not lie within it. -/
theorem not_within_of_short (hrequest : request = done ++ want :: wants) (hne : front ≠ [])
    (hfront : ∀ e ∈ front, e.Legible) (hlength : done.length = front.length) {q : String}
    (hq : q.toList = Path.chars front) : within request q = false := by
  obtain rfl : q = Path.text front := String.toList_inj.1 (by simp [hq, Path.text])
  rw [← Bool.not_eq_true, within_text hne hfront]
  intro hunder
  have := hunder.length
  simp only [hrequest, List.length_append, List.length_cons] at this
  omega

end

/-! ## Walks with everything outside dropped -/

/-- What of a walk lies within a request. -/
def sieve (request : List Elem) (walk : Except Error (List (String × Json))) :
    Except Error (List (String × Json)) :=
  walk.map (List.filter fun e => within request e.1)

theorem sieve_both (request : List Elem) (a b : Except Error (List (String × Json))) :
    sieve request (both a b) = both (sieve request a) (sieve request b) := by
  cases a with
  | error e => rfl
  | ok xs =>
    cases b with
    | error e => rfl
    | ok ys => simp [sieve, both, Except.map]

theorem sieve_walkAll {α : Type} (request : List Elem)
    (walk : α → Except Error (List (String × Json))) (xs : List α) :
    sieve request (walkAll walk xs) = walkAll (fun x => sieve request (walk x)) xs := by
  induction xs with
  | nil => rfl
  | cons x xs ih => rw [walkAll_cons, walkAll_cons, sieve_both, ih]

theorem sieve_eq_nil {request : List Elem} {walk : Except Error (List (String × Json))}
    {out : List (String × Json)} (h : walk = .ok out)
    (outside : ∀ q v, (q, v) ∈ out → within request q = false) : sieve request walk = .ok [] := by
  subst h
  have hnil : out.filter (fun e => within request e.1) = [] :=
    List.filter_eq_nil_iff.2 fun e he => by simp [outside e.1 e.2 he]
  simp [sieve, Except.map, hnil]

theorem both_nil_left (a : Except Error (List (String × Json))) : both (.ok []) a = a := by
  cases a <;> rfl

theorem both_nil_right (a : Except Error (List (String × Json))) : both a (.ok []) = a := by
  cases a <;> simp [both]

theorem both_assoc (a b c : Except Error (List (String × Json))) :
    both (both a b) c = both a (both b c) := by
  cases a <;> cases b <;> cases c <;> simp [both]

section

variable {α β : Type} {walk walk' : α → Except Error (List (String × Json))}

theorem walkAll_append (xs ys : List α) :
    walkAll walk (xs ++ ys) = both (walkAll walk xs) (walkAll walk ys) := by
  induction xs with
  | nil => exact (both_nil_left _).symm
  | cons x xs ih => rw [List.cons_append, walkAll_cons, walkAll_cons, ih, both_assoc]

theorem walkAll_flatMap (f : β → List α) (xs : List β) :
    walkAll walk (xs.flatMap f) = walkAll (fun x => walkAll walk (f x)) xs := by
  induction xs with
  | nil => rfl
  | cons x xs ih => rw [List.flatMap_cons, walkAll_append, walkAll_cons, ih]

theorem walkAll_congr {xs : List α} (h : ∀ x ∈ xs, walk x = walk' x) :
    walkAll walk xs = walkAll walk' xs := by
  induction xs with
  | nil => rfl
  | cons x xs ih =>
    rw [walkAll_cons, walkAll_cons, h x List.mem_cons_self,
      ih fun y hy => h y (List.mem_cons_of_mem _ hy)]

theorem walkAll_singleton (x : α) : walkAll walk [x] = walk x := both_nil_right _

end

/-! ## The walk towards a request -/

theorem selects_iff {want : List (String × String)} {keys : List String} {entry : Json}
    {kvs : List (String × String)} (keyed : Keyed entry keys kvs) :
    selects want keys entry = true ↔ ∀ kv ∈ want, kv ∈ kvs := by
  unfold selects
  rw [List.all_eq_true]
  refine forall₂_congr fun kv _ => ?_
  rw [Bool.and_eq_true, List.contains_iff_mem, beq_iff_eq]
  constructor
  · rintro ⟨hkey, htext⟩
    rw [keyed.eq_map, List.mem_map]
    exact ⟨kv.1, hkey, by rw [htext]; rfl⟩
  · exact fun hkv => ⟨keyed.names ▸ List.mem_map_of_mem hkv, keyed.texts kv hkv⟩

section

variable {node : Option SchemaNode} {want : Elem} {last : Bool} {path : String} {j : Json}

theorem reach_value (list : ∀ items, j = .array items → isList items = false)
    (bare : want.keys = []) : reach node want last path j = [(path, j)] := by
  cases j with
  | array items => simp [reach, bare, list items rfl]
  | _ => simp [reach, bare]

theorem reach_apart (list : ∀ items, j = .array items → isList items = false)
    (keys : want.keys ≠ []) : reach node want last path j = [] := by
  cases j with
  | array items => simp [reach, keys, list items rfl]
  | _ => simp [reach, keys]

theorem reach_list {n : SchemaNode} {items : List Json}
    (whole : ¬(want.keys = [] ∧ last = true)) (list : isList items = true) :
    reach (some n) want last path (.array items)
      = (items.filter (·.isObject)).flatMap fun entry =>
          if selects want.keys n.keys entry then
            match entryPredicates path entry n.keys with
            | .error _ => []
            | .ok ps => [(path ++ ps, entry)]
          else [] := by
  rw [reach, if_neg whole]
  exact if_pos list

end

/-- The node that the elements of a request lead to. -/
def follow (node : Option SchemaNode) : List Elem → Option SchemaNode
  | [] => node
  | want :: wants => follow (node.bind (·.child? want.name)) wants

section

variable {request done wants front : List Elem} {want : Elem}

/-- What stands behind an element that does not satisfy the next one of the request is dropped. -/
theorem sieve_behind (hrequest : request = done ++ want :: wants) {e : Elem}
    (hfront : ∀ d ∈ front, d.Legible) (hlength : done.length = front.length) (he : e.Legible)
    (hother : ¬matches? want e = true) {node : Option SchemaNode} {path : String} {j : Json}
    (hpath : path.toList = Path.chars (front ++ [e]))
    (list : ∀ items, j = .array items → isList items = false) (walkable : Walkable node j) :
    sieve request (collect node path j) = .ok [] := by
  obtain ⟨out, hout⟩ := walkable path
  refine sieve_eq_nil hout fun q v hq => ?_
  obtain ⟨tail, htail, hends⟩ := collect_extends hout hq
  have hends : Path.Ends tail := by
    refine hends.resolve_right ?_
    rintro ⟨⟨items, hj, hlist⟩, -⟩
    rw [list items hj] at hlist
    cases hlist
  rw [← Bool.not_eq_true]
  intro hwithin
  have hq : q.toList = Path.chars front ++ '/' :: (e.chars ++ tail) := by
    rw [htail, hpath]
    simp [Path.chars]
  exact hother (matches_of_within hrequest hfront hlength he hq hends hwithin)

/-- Under its own name with any predicates, an element has the path it is spelled with. -/
theorem chars_onward {text : List Char} {moduleName : Option String}
    (hhead : Path.head? text = some (moduleName, want.name)) {path : String}
    (hpath : path.toList = Path.chars front ++ '/' :: text) (kvs : List (String × String)) :
    Path.chars (front ++ [⟨moduleName, want.name, kvs⟩])
      = path.toList ++ kvs.flatMap Elem.keyText := by
  rw [hpath]
  simp [Path.chars, Elem.chars_eq, Path.head_of_head? hhead]

section

variable {text : List Char} {moduleName : Option String} {node : Option SchemaNode} {path : String}
  {j : Json}

/-- The walk over a list entry under a name that the request gives. -/
theorem sieve_entry (hrequest : request = done ++ want :: wants) (hfront : ∀ e ∈ front, e.Legible)
    (hlength : done.length = front.length) (hfree : Path.Free text)
    (hhead : Path.head? text = some (moduleName, want.name))
    (hpath : path.toList = Path.chars front ++ '/' :: text) {n : SchemaNode} {entry : Json}
    (hobject : entry.isObject = true) (keyNames : ∀ key ∈ n.keys, Path.KeyName key)
    (keyed : ∀ key ∈ n.keys, ∃ value, entry.member? key = some value ∧ Quotable value)
    (aside : selects want.keys n.keys entry = false → Walkable (some n) entry)
    (inside : selects want.keys n.keys entry = true → Clear (some n) wants entry)
    (ih : ∀ e : Elem, e.Legible → ∀ (path : String) (j : Json), Clear (some n) wants j →
      (∀ items, j = .array items → isList items = false) → path.toList = Path.chars (front ++ [e]) →
        sieve request (collect (some n) path j)
          = walkAll (fun p => sieve request (collect (follow (some n) wants) p.1 p.2))
              (select (some n) wants path j)) :
    sieve request (collectEntry n path entry)
      = walkAll (fun p => sieve request (collect (follow (some n) wants) p.1 p.2))
          ((if selects want.keys n.keys entry then
              match entryPredicates path entry n.keys with
              | .error _ => []
              | .ok ps => [(path ++ ps, entry)]
            else []).flatMap fun p => select (some n) wants p.1 p.2) := by
  obtain ⟨kvs, hkvs⟩ := Keyed.exists_of_members fun key hkey =>
    (keyed key hkey).imp fun _ hv => hv.1
  have hps : entryPredicates path entry n.keys = _ := entryPredicates_eq_ok hkvs keyed
  have hlegible : Elem.Legible ⟨moduleName, want.name, kvs⟩ :=
    Path.legible_of_head? hhead hfree (hkvs.legible keyNames keyed)
  have notArray : ∀ items, entry = .array items → isList items = false := by
    rintro items rfl
    cases hobject
  have hpath' : (path ++ String.ofList (kvs.flatMap Elem.keyText)).toList
      = Path.chars (front ++ [⟨moduleName, want.name, kvs⟩]) := by
    simp [chars_onward hhead hpath]
  rw [collectEntry, hps]
  cases hselects : selects want.keys n.keys entry with
  | true =>
    simp only [if_true, List.flatMap_singleton]
    exact ih _ hlegible _ entry (inside hselects) notArray hpath'
  | false =>
    simp only [Bool.false_eq_true, if_false, List.flatMap_nil]
    refine sieve_behind hrequest hfront hlength hlegible ?_ hpath' notArray (aside hselects)
    rw [matches?_iff]
    intro h
    rw [(selects_iff hkvs).2 h.2] at hselects
    cases hselects

/-- The walk over the value under a name that the request gives. -/
theorem sieve_onward (hrequest : request = done ++ want :: wants) (hfront : ∀ e ∈ front, e.Legible)
    (hlength : done.length = front.length) (hfree : Path.Free text)
    (hhead : Path.head? text = some (moduleName, want.name))
    (hpath : path.toList = Path.chars front ++ '/' :: text)
    (clear : Onward node want wants.isEmpty (Clear node wants) j)
    (ih : ∀ e : Elem, e.Legible → ∀ (path : String) (j : Json), Clear node wants j →
      (∀ items, j = .array items → isList items = false) → path.toList = Path.chars (front ++ [e]) →
        sieve request (collect node path j)
          = walkAll (fun p => sieve request (collect (follow node wants) p.1 p.2))
              (select node wants path j)) :
    sieve request (collect node path j)
      = walkAll (fun p => sieve request (collect (follow node wants) p.1 p.2))
          ((reach node want wants.isEmpty path j).flatMap fun p => select node wants p.1 p.2) := by
  have bareLegible : Elem.Legible ⟨moduleName, want.name, []⟩ :=
    Path.legible_of_head? hhead hfree (by simp)
  have barePath : path.toList = Path.chars (front ++ [⟨moduleName, want.name, []⟩]) := by
    simp [chars_onward hhead hpath]
  -- a list that the request ends with is taken as a whole
  by_cases whole : want.keys = [] ∧ wants.isEmpty = true
  · obtain rfl := List.isEmpty_iff.1 whole.2
    simp only [reach, whole.1, List.isEmpty_nil, and_self, if_true, List.flatMap_singleton, select,
      walkAll_singleton, follow]
  cases clear.resolve_left whole with
  | through list bare inside =>
    rw [reach_value list bare, List.flatMap_singleton]
    exact ih _ bareLegible path j inside list barePath
  | apart list keys walkable =>
    rw [reach_apart list keys, List.flatMap_nil]
    refine sieve_behind hrequest hfront hlength bareLegible ?_ barePath list walkable
    rw [matches?_iff]
    exact fun h => keys (List.eq_nil_iff_forall_not_mem.2 fun kv hkv => by simpa using h.2 kv hkv)
  | @list n items known list keyNames keyed aside inside =>
    subst known
    rw [collect, if_pos list, collectEntries_eq, sieve_walkAll, reach_list whole list,
      List.flatMap_assoc, walkAll_flatMap]
    refine walkAll_congr fun entry hentry => ?_
    obtain ⟨hitem, hobject⟩ := List.mem_filter.1 hentry
    exact sieve_entry hrequest hfront hlength hfree hhead hpath hobject keyNames
      (keyed entry hitem hobject) (aside entry hitem hobject) (inside entry hitem hobject) ih

end

theorem named_iff {text : List Char} :
    named want text = true ↔ ∃ moduleName, Path.head? text = some (moduleName, want.name) := by
  unfold named
  split
  · next m name hhead => simp [hhead]
  · next hhead => simp [hhead]

/-- A module name in front of the name of a member plays no part in the look-up of a child. -/
theorem child?_of_head? {name : String} {moduleName : Option String}
    (h : Path.head? name.toList = some (moduleName, want.name)) (n : SchemaNode) :
    n.child? name = n.child? want.name := by
  have hhead : Elem.head ⟨moduleName, want.name, []⟩ = name.toList := Path.head_of_head? h
  rw [← SchemaNode.child?_head n ⟨moduleName, want.name, []⟩, hhead, String.ofList_toList]

/-- What lies under another name than the request gives is dropped. -/
theorem sieve_aside (hrequest : request = done ++ want :: wants) (hfront : ∀ e ∈ front, e.Legible)
    (hlength : done.length = front.length) {text : List Char} (hfree : Path.Free text)
    (hnamed : named want text = false) {node : Option SchemaNode} {path : String} {j : Json}
    (hpath : path.toList = Path.chars front ++ '/' :: text) (walkable : Walkable node j) :
    sieve request (collect node path j) = .ok [] := by
  obtain ⟨out, hout⟩ := walkable path
  refine sieve_eq_nil hout fun q v hq => ?_
  obtain ⟨tail, htail, hends⟩ := collect_extends hout hq
  rw [← Bool.not_eq_true]
  intro hwithin
  have hq : q.toList = Path.chars front ++ '/' :: (text ++ tail) := by simp [htail, hpath]
  rw [named_of_within hrequest hfront hlength hfree hq (hends.imp_right And.right) hwithin] at hnamed
  cases hnamed

/-- A walk with everything outside the request dropped is a walk over what the request selects. -/
theorem sieve_collect (hrequest : request = done ++ wants) (hne : front ≠ [])
    (hfront : ∀ e ∈ front, e.Legible) (hlength : done.length = front.length)
    {node : Option SchemaNode} {path : String} {j : Json} (hpath : path.toList = Path.chars front)
    (clear : Clear node wants j) (list : ∀ items, j = .array items → isList items = false) :
    sieve request (collect node path j)
      = walkAll (fun p => sieve request (collect (follow node wants) p.1 p.2))
          (select node wants path j) := by
  induction wants generalizing done front node path j with
  | nil => rw [select, walkAll_singleton, follow]
  | cons want wants ih =>
    cases j with
    | object members =>
      rw [collect, collectMembers_eq, sieve_walkAll, select, walkAll_flatMap]
      refine walkAll_congr fun m hm => ?_
      obtain ⟨hfree, hclear⟩ := clear m hm
      have hpath' : (path ++ "/" ++ m.1).toList = Path.chars front ++ '/' :: m.1.toList := by
        simp [hpath]
      cases hnamed : named want m.1.toList with
      | false =>
        rw [hnamed] at hclear
        exact sieve_aside hrequest hfront hlength hfree hnamed hpath' hclear
      | true =>
        obtain ⟨moduleName, hhead⟩ := named_iff.1 hnamed
        have hfollow : follow node (want :: wants) = follow (node.bind (·.child? m.1)) wants := by
          rw [follow]
          simp only [child?_of_head? hhead]
        rw [hnamed] at hclear
        rw [if_pos rfl, hfollow]
        refine sieve_onward hrequest hfront hlength hfree hhead hpath' hclear ?_
        intro e he path' j' hclear' list' hpath''
        have hrequest' : request = (done ++ [want]) ++ wants := by simp [hrequest]
        have hfront' : ∀ d ∈ front ++ [e], d.Legible := fun d hd =>
          (List.mem_append.1 hd).elim (hfront d) fun hd => List.mem_singleton.1 hd ▸ he
        exact ih hrequest' (by simp) hfront' (by simp [hlength]) hpath'' hclear' list'
    | _ =>
      rw [collect_value rfl list]
      exact sieve_eq_nil rfl fun q v hq => by
        obtain ⟨rfl, -⟩ : q = path ∧ v = _ := by simpa using hq
        exact not_within_of_short hrequest hne hfront hlength hpath

/-! ## Trees -/

theorem head?_top {moduleName : Option String} {name : String} (hm : Prefix moduleName)
    (hname : ':' ∉ name.toList) : Path.head? (Elem.head ⟨moduleName, name, []⟩)
      = if name.toList = [] then none else some (moduleName, name) := by
  unfold Path.head? Elem.head
  cases moduleName with
  | none => simp [Path.cut?_eq_none.2 hname]
  | some m =>
    obtain ⟨⟨hne, -⟩, hcolon⟩ := hm m rfl
    have hcut : Path.cut? ':' (m.toList ++ [':'] ++ name.toList) = some (m.toList, name.toList) :=
      Path.cut?_eq_some.2 ⟨by simp, hcolon⟩
    simp only [hcut, hne, false_or, String.ofList_toList]

theorem name_ne_nil_of_parse {path : String} (h : Path.parse path = .ok (want :: wants)) :
    want.name.toList ≠ [] := by
  obtain ⟨p, hp⟩ := Path.reads_of_parse h List.mem_cons_self
  obtain ⟨head, -, -, hfree, hhead, -⟩ := hp.head
  have hlegible : Elem.Legible ⟨want.moduleName, want.name, []⟩ :=
    Path.legible_of_head? hhead hfree (by simp)
  exact hlegible.name.1

theorem sieve_collectTop {schema : Schema} {members : List (String × Json)} {path : String}
    (hpath : Path.parse path = .ok (want :: wants))
    (clear : ClearTree schema members (want :: wants)) :
    sieve (want :: wants) (collectTop schema want.moduleName members)
      = walkAll (fun p => sieve (want :: wants) (collect (follow
          (schema.findNode (Path.ofTopLevel want.moduleName want.name)).toOption wants) p.1 p.2))
          (selectTree schema members (want :: wants)) := by
  have hm : Prefix want.moduleName := prefix_of_parse hpath
  have hrequest : want :: wants = [] ++ want :: wants := rfl
  rw [collectTop_eq, sieve_walkAll, selectTree, walkAll_flatMap]
  refine walkAll_congr fun ⟨name, j⟩ hmem => ?_
  obtain ⟨hname, hcolon, hclear⟩ := clear _ hmem
  dsimp only at hname hcolon hclear ⊢
  have hhead := head?_top hm hcolon
  have hfree : Path.Free (Elem.head ⟨want.moduleName, name, []⟩) := by
    intro c hc
    cases hmodule : want.moduleName with
    | none => exact hname c (by simpa [Elem.head, hmodule] using hc)
    | some m =>
      rcases (by simpa [Elem.head, hmodule] using hc : c ∈ m.toList ∨ c = ':' ∨ c ∈ name.toList)
        with hc | rfl | hc
      · exact (hm m hmodule).1.2 c hc
      · decide
      · exact hname c hc
  have htext : (Path.ofTopLevel want.moduleName name).toList
      = Path.chars [] ++ '/' :: Elem.head ⟨want.moduleName, name, []⟩ := by
    cases hmodule : want.moduleName <;> simp [Path.ofTopLevel, Elem.head, Path.chars]
  by_cases hsame : name = want.name
  · subst hsame
    rw [if_neg (name_ne_nil_of_parse hpath)] at hhead
    rw [if_pos rfl] at hclear ⊢
    refine sieve_onward hrequest (by simp) rfl hfree hhead htext hclear ?_
    intro e he path' j' hclear' list' hpath'
    exact sieve_collect (List.append_cons [] want wants) (by simp) (by simpa using he) (by simp)
      hpath' hclear' list'
  · rw [if_neg hsame] at hclear ⊢
    refine sieve_aside hrequest (by simp) rfl hfree ?_ htext hclear
    rw [← Bool.not_eq_true, named_iff, hhead]
    rintro ⟨moduleName, h⟩
    split at h
    · cases h
    · exact hsame (Prod.mk.inj (Option.some.inj h)).2

end

/-! ## Trees in order -/

theorem Orderly.walkable {node : Option SchemaNode} {j : Json} (h : Orderly node j) :
    Walkable node j := fun path =>
  let ⟨out, hout, _⟩ := collect_exact h path
  ⟨out, hout⟩

theorem Identifier.free {name : String} (h : Identifier name) : Path.Free name.toList :=
  h.path_plain.2

theorem Orderly.passable {node : Option SchemaNode} {j : Json} (h : Orderly node j)
    (want : List (String × String)) {P : Json → Prop} (hP : ∀ j, Orderly node j → P j) :
    Passable node want P j := by
  have away (list : ∀ items, j = .array items → isList items = false) : Passable node want P j := by
    by_cases bare : want = []
    · exact .through list bare (hP j h)
    · exact .apart list bare h.walkable
  cases h with
  | value object list => exact away list
  | object => exact away (by simp)
  | list list keyNames keyed distinct entries =>
    exact .list rfl list (fun key hkey => (keyNames key hkey).keyName) keyed
      (fun entry hmem hobject _ => (entries entry hmem hobject).walkable)
      fun entry hmem hobject _ => hP entry (entries entry hmem hobject)

/-- A value in order is clear of every request. -/
theorem Orderly.clear {node : Option SchemaNode} {j : Json} (h : Orderly node j)
    (wants : List Elem) : Clear node wants j := by
  induction wants generalizing node j with
  | nil => cases j <;> trivial
  | cons want wants ih =>
    cases h with
    | object distinct names children =>
      intro m hm
      refine ⟨(names m hm).free, ?_⟩
      dsimp only
      split
      · exact .inr ((children m hm).passable _ fun j hj => ih hj)
      · exact (children m hm).walkable
    | @value _ j object =>
      cases j with
      | object => cases object
      | _ => trivial
    | list => trivial

theorem OrderlyTree.clear {schema : Schema} {members : List (String × Json)} {request : List Elem}
    (hm : Prefix (request.head?.bind (·.moduleName)))
    (tree : OrderlyTree schema (request.head?.bind (·.moduleName)) members) :
    ClearTree schema members request := by
  cases request with
  | nil => trivial
  | cons want wants =>
    intro m hmem
    have hname := tree.names m hmem
    have hchild := tree.children m hmem
    rw [← findNode_ofTopLevel schema hm hname] at hchild
    refine ⟨hname.free, hname.not_mem (by decide), ?_⟩
    dsimp only
    split
    · exact .inr (hchild.passable _ fun j hj => hj.clear wants)
    · exact hchild.walkable

/-! ## The result -/

theorem flatten_eq_sieve {schema : Schema} {members : List (String × Json)} {path : String}
    {request : List Elem} (hpath : Path.parse path = .ok request) :
    flatten schema (.object members) path
      = (sieve request (collectTop schema (request.head?.bind (·.moduleName)) members)).map
          SortedMap.ofList := by
  unfold flatten
  rw [hpath]
  dsimp only
  cases collectTop schema (request.head?.bind (·.moduleName)) members with
  | error e => rfl
  | ok out => simp [sieve, Except.map, SortedMap.filter_ofList]

/-- Trees of which a request selects the same are flattened alike, to the same leaves or to the same
failure, as long as what stands outside the request can be walked, and members and keys on the way
have names that a path carries. -/
theorem outside_unseen {schema : Schema} {members members' : List (String × Json)} {path : String}
    (clear : ∀ request, Path.parse path = .ok request →
      ClearTree schema members request ∧ ClearTree schema members' request)
    (agree : ∀ request, Path.parse path = .ok request →
      selectTree schema members request = selectTree schema members' request) :
    flatten schema (.object members) path = flatten schema (.object members') path := by
  cases hpath : Path.parse path with
  | error e => simp [flatten, hpath]
  | ok request =>
    rw [flatten_eq_sieve hpath, flatten_eq_sieve hpath]
    obtain ⟨hclear, hclear'⟩ := clear request hpath
    cases request with
    | nil => exact absurd hpath Path.parse_ne_nil
    | cons want wants =>
      change (sieve _ (collectTop schema want.moduleName members)).map _
        = (sieve _ (collectTop schema want.moduleName members')).map _
      rw [sieve_collectTop hpath hclear, sieve_collectTop hpath hclear', agree _ hpath]

/-! ## An example -/

namespace Small

theorem parse_ports : Path.parse "/m:ports" = .ok [⟨some "m", "ports", []⟩] := by decide +kernel

/-- A tree with an empty container, and whatever stands beside it. -/
def beside (more : List (String × Json)) : List (String × Json) := ("ports", .object []) :: more

/-- A list the key of which has a blank in front of its name. -/
def blankSchema : Schema :=
  ⟨[⟨"m", [⟨"l", .list, [" k"], [⟨" k", .leaf, [], []⟩, ⟨"x", .leaf, [], []⟩]⟩]⟩]⟩

def blankTree (n : Nat) : List (String × Json) :=
  [("l", .array [.object [(" k", .string "v"), ("x", .nat n)]])]

theorem parse_blank : Path.parse "/m:l[k='v']" = .ok [⟨some "m", "l", [("k", "v")]⟩] := by
  decide +kernel

/-- A request that gives the name without the blank selects nothing of the list, and yet is told of
what its entry has. -/
theorem blank_felt (n : Nat) :
    selectTree blankSchema (blankTree n) [⟨some "m", "l", [("k", "v")]⟩] = [] ∧
      ∃ leaves, flatten blankSchema (.object (blankTree n)) "/m:l[k='v']" = .ok leaves ∧
        leaves.find? "/m:l[ k='v']/x" = some (.nat n) := by
  have hwithin : within [⟨some "m", "l", [("k", "v")]⟩] "/m:l[ k='v']/x" = true := by decide +kernel
  have hfind : (SortedMap.ofList [("/m:l[ k='v']/ k", .string "v"),
      ("/m:l[ k='v']/x", Json.nat n)]).find? "/m:l[ k='v']/x" = some (.nat n) :=
    SortedMap.find?_insert_self ..
  refine ⟨rfl, _, flatten_eq_ok.2 ⟨_, _, [("/m:l[ k='v']/ k", .string "v"),
    ("/m:l[ k='v']/x", .nat n)], parse_blank, rfl, rfl, rfl⟩, ?_⟩
  rw [SortedMap.find?_filter, Option.filter_eq_some_iff]
  exact ⟨hfind, hwithin⟩

/-- A request for the container selects the same whatever stands beside it. But beside a list that the
schema does not know nothing is told of the container, and a value whose name has a slash in it is
told of as if it stood inside. So is an entry of a list whose key has a blank in front of its name. -/
theorem outside_felt : Path.parse "/m:ports" = .ok [⟨some "m", "ports", []⟩] ∧
    (∀ more ∈ [[], [("spare", .array [.object []])], [("ports/port", Json.null)]],
      selectTree schema (beside more) [⟨some "m", "ports", []⟩] = [("/m:ports", .object [])]) ∧
    flatten schema (.object (beside [])) "/m:ports" = .ok .empty ∧
    flatten schema (.object (beside [("spare", .array [.object []])])) "/m:ports"
      = .error (.listWithoutSchema "/m:spare") ∧
    (∃ leaves, flatten schema (.object (beside [("ports/port", .null)])) "/m:ports" = .ok leaves ∧
      leaves.find? "/m:ports/port" = some .null) ∧
    Path.parse "/m:l[k='v']" = .ok [⟨some "m", "l", [("k", "v")]⟩] ∧
    ∀ n, selectTree blankSchema (blankTree n) [⟨some "m", "l", [("k", "v")]⟩] = [] ∧
      ∃ leaves, flatten blankSchema (.object (blankTree n)) "/m:l[k='v']" = .ok leaves ∧
        leaves.find? "/m:l[ k='v']/x" = some (.nat n) := by
  refine ⟨parse_ports, ?_, ?_, ?_, ⟨_, flatten_eq_ok.2 ⟨_, _, [("/m:ports/port", .null)],
    parse_ports, rfl, rfl, rfl⟩, ?_⟩, parse_blank, blank_felt⟩
  · intro more hmore
    simp only [List.mem_cons, List.not_mem_nil, or_false] at hmore
    rcases hmore with rfl | rfl | rfl <;> rfl
  · exact flatten_eq_ok.2 ⟨_, _, [], parse_ports, rfl, rfl, rfl⟩
  · rw [flatten_eq_sieve parse_ports]
    rfl
  · have hwithin : within [⟨some "m", "ports", []⟩] "/m:ports/port" = true := by decide +kernel
    rw [SortedMap.find?_filter, Option.filter_eq_some_iff]
    exact ⟨rfl, hwithin⟩

theorem orderlyTree_spare : OrderlyTree schema (some "m") (members ++ [("spare", .null)]) := by
  have hplain : "spare".toList.all (· ∉ ['/', '=', ':', '[', ']', '\'', '"']) = true := by decide
  have hspare : Identifier "spare" := ⟨by decide, by decide, fun c hc =>
    of_decide_eq_true (List.all_eq_true.1 hplain c hc)⟩
  refine ⟨by decide, fun m hm => ?_, fun m hm => ?_⟩
  · rcases List.mem_append.1 hm with hm | hm
    · exact orderlyTree.names m hm
    · exact List.mem_singleton.1 hm ▸ hspare
  · rcases List.mem_append.1 hm with hm | hm
    · exact orderlyTree.children m hm
    · exact List.mem_singleton.1 hm ▸ .value rfl (by simp)

/-- What the schema does not know is not seen, as long as it can be walked. -/
theorem spare_unseen : (∀ request, Path.parse "/m:ports" = .ok request →
      ClearTree schema members request ∧
        ClearTree schema (members ++ [("spare", .null)]) request) ∧
    (∀ request, Path.parse "/m:ports" = .ok request →
      selectTree schema members request = selectTree schema (members ++ [("spare", .null)]) request) ∧
    flatten schema (.object members) "/m:ports"
      = flatten schema (.object (members ++ [("spare", .null)])) "/m:ports" := by
  have clear : ∀ request, Path.parse "/m:ports" = .ok request →
      ClearTree schema members request ∧
        ClearTree schema (members ++ [("spare", .null)]) request := by
    intro request hrequest
    obtain rfl := Except.ok.inj (parse_ports.symm.trans hrequest)
    exact ⟨OrderlyTree.clear (prefix_of_parse parse_ports) orderlyTree,
      OrderlyTree.clear (prefix_of_parse parse_ports) orderlyTree_spare⟩
  have agree : ∀ request, Path.parse "/m:ports" = .ok request →
      selectTree schema members request
        = selectTree schema (members ++ [("spare", .null)]) request := by
    intro request hrequest
    obtain rfl := Except.ok.inj (parse_ports.symm.trans hrequest)
    rfl
  exact ⟨clear, agree, outside_unseen clear agree⟩

end Small

end Telemetry.Leaves
