import Telemetry.Datastore.Basic
import Telemetry.Proofs.Fronts
import Telemetry.Schema.Basic

/-!
# Two readers of paths

A path is read in full when a subscription is checked and when leaves are named. Schema and
datastore read it by a shortcut: they drop the slashes in front, cut at the next slash and then at
the first bracket, and look no further. The shortcut knows nothing of quotes and nesting, but on a
path that can be read in full it comes to the module and the name of the first element.

Results:
* `topLevel?_of_head`: the shortcut finds a head whatever follows it;
* `topLevel?_of_parse`, `topLevel?_ofTopLevel_of_parse`: it agrees with the full reader on a path and
  on the path of its top-level node;
* `readers_agree`: so schema and datastore look where the path points, and the data set along one
  path are read along another exactly if their first elements have the same name.
-/
namespace Telemetry.Path

/-! ## The shortcut -/

/-- Nothing more, or what ends the head of an element. -/
def EndsHead (tail : List Char) : Prop := Ends tail ∨ ∃ rest, tail = '[' :: rest

/-- Predicates and the elements after them end a head. -/
theorem Predicates.endsHead {tail rest : List Char} {kvs : List (String × String)}
    (h : Predicates tail kvs) (hrest : Ends rest) : EndsHead (tail ++ rest) := by
  cases h with
  | nil => exact .inl hrest
  | cons => exact .inr ⟨_, by rw [predicateText]; rfl⟩

/-- At the end of a head one of the two cuts is made, whichever it is. -/
theorem EndsHead.cut {tail : List Char} (h : EndsHead tail) :
    (tail.takeWhile (· ≠ '/')).takeWhile (· ≠ '[') = [] := by
  rcases h with (rfl | ⟨rest, rfl⟩) | ⟨rest, rfl⟩ <;> simp

theorem topLevel?_of_head {path : String} {head tail : List Char} {m : Option String}
    {name : String} (hpath : path.toList = '/' :: (head ++ tail)) (hfree : Free head)
    (hends : EndsHead tail) (hhead : head? head = some (m, name)) :
    topLevel? path = some (m, name) := by
  have hne : head ≠ [] := by
    rintro rfl
    simp [head?, cut?] at hhead
  have hslashes : ('/' :: (head ++ tail)).dropWhile (· = '/') = head ++ tail := by
    obtain ⟨c, head, rfl⟩ := List.exists_cons_of_ne_nil hne
    simp [(hfree c List.mem_cons_self).1]
  have hcut : ((head ++ tail).takeWhile (· ≠ '/')).takeWhile (· ≠ '[') = head := by
    have hslash : ∀ c ∈ head, decide (c ≠ '/') = true := fun c hc => decide_eq_true (hfree c hc).1
    have hbracket : ∀ c ∈ head, decide (c ≠ '[') = true := fun c hc => decide_eq_true (hfree c hc).2
    rw [List.takeWhile_append_of_pos hslash, List.takeWhile_append_of_pos hbracket, hends.cut,
      List.append_nil]
  unfold topLevel?
  rw [hpath, hslashes, hcut]
  -- the names are told apart in the same way from here on
  unfold head? at hhead
  split at hhead
  · next hcolon =>
    split at hhead
    · cases hhead
    · simpa [hne, hcolon] using hhead
  · next hcolon => simpa [hne, hcolon] using hhead

section Parsed

variable {path : String} {e : Elem} {es : List Elem}

/-- The text of a path that was read: its head ends where the shortcut ends. -/
theorem exists_head (h : parse path = .ok (e :: es)) : ∃ head tail,
    path.toList = '/' :: (head ++ tail) ∧ Free head ∧ EndsHead tail ∧
      head? head = some (e.moduleName, e.name) := by
  obtain ⟨-, ps, hpath, hps⟩ := parse_eq_ok_iff.1 h
  obtain ⟨p, ps, first, -, rfl⟩ := List.forall₂_cons_right_iff.1 hps
  obtain ⟨head, tail, rfl, hfree, hhead, hkeys⟩ := first.head
  have hrest : Ends (slashed ps) := by
    cases ps with
    | nil => exact .inl rfl
    | cons q ps => exact .inr ⟨q ++ slashed ps, by simp [slashed]⟩
  exact ⟨head, tail ++ slashed ps, by simpa [slashed] using hpath, hfree, hkeys.endsHead hrest,
    hhead⟩

theorem topLevel?_of_parse (h : parse path = .ok (e :: es)) :
    topLevel? path = some (e.moduleName, e.name) := by
  obtain ⟨head, tail, hpath, hfree, hends, hhead⟩ := exists_head h
  exact topLevel?_of_head hpath hfree hends hhead

/-- The top-level node is named by the head alone. -/
theorem topLevel?_ofTopLevel_of_parse (h : parse path = .ok (e :: es)) :
    topLevel? (ofTopLevel e.moduleName e.name) = some (e.moduleName, e.name) := by
  obtain ⟨head, -, -, hfree, -, hhead⟩ := exists_head h
  have htext : (ofTopLevel e.moduleName e.name).toList = '/' :: (head ++ []) := by
    have hprinted : Elem.head ⟨e.moduleName, e.name, []⟩ = head := head_of_head? hhead
    rw [← hprinted, List.append_nil]
    cases e.moduleName <;> simp [ofTopLevel, Elem.head]
  exact topLevel?_of_head htext hfree (.inl (.inl rfl)) hhead

end Parsed

end Telemetry.Path

namespace Telemetry

open Telemetry.Path (Elem)

/-! ## Where schema and datastore look -/

/-- The schema finds the top-level node that the parsed path names, under the text as under the path
that is rebuilt from its first element, and goes on from there. -/
structure Schema.Selects (s : Schema) (path : String) (e : Elem) (es : List Elem) : Prop where
  node : (s.findNode path).toOption = s.top? e.moduleName e.name
  rebuilt : (s.findNode (Path.ofTopLevel e.moduleName e.name)).toOption
    = s.top? e.moduleName e.name
  accepts : s.accepts path = ((s.top? e.moduleName e.name).bind fun n => descend n es).isSome

theorem Schema.findNode_of_topLevel? {path name : String} {m : Option String}
    (h : Path.topLevel? path = some (m, name)) (s : Schema) :
    (s.findNode path).toOption = s.top? m name := by
  unfold findNode
  rw [h]
  cases hnode : s.top? m name <;> simp [hnode, Except.toOption]

theorem Schema.selects {path : String} {e : Elem} {es : List Elem}
    (h : Path.parse path = .ok (e :: es)) (s : Schema) : s.Selects path e es := by
  have hrebuilt := findNode_of_topLevel? (Path.topLevel?_ofTopLevel_of_parse h) s
  refine ⟨findNode_of_topLevel? (Path.topLevel?_of_parse h) s, hrebuilt, ?_⟩
  rw [accepts, h, ← hrebuilt]
  simp only [resolve?]
  cases s.findNode (Path.ofTopLevel e.moduleName e.name) <;> rfl

/-- The datastore works on the tree under that name. -/
structure Datastore.Selects {ε : Type} (d : Datastore ε) (path name : String) : Prop where
  set : ∀ tree, d.setTree path tree = { d with trees := d.trees.insert name tree }
  remove : d.removeTree path = { d with trees := d.trees.erase name }
  tree : d.failReads = false →
    d.tree? path = .ok ((d.trees.find? name).map fun tree => .object [(name, tree)])

theorem Datastore.selects {path : String} {e : Elem} {es : List Elem}
    (h : Path.parse path = .ok (e :: es)) {ε : Type} (d : Datastore ε) : d.Selects path e.name where
  set tree := by rw [setTree, Path.topLevel?_of_parse h]
  remove := by rw [removeTree, Path.topLevel?_of_parse h]
  tree hreads := by rw [tree?, hreads, if_neg Bool.false_ne_true, Path.topLevel?_of_parse h]

namespace Path

/-- **The two readers agree.** On a path that can be read in full the shortcut comes to the module
and the name of its first element, whatever its predicates hold, and to the same on the path of that
element alone. So a schema finds the node that the path names, a datastore sets, removes and reads
the tree under that name, and what is set or removed along one path shows along every other path
whose first element has the same name, and along no other. -/
theorem readers_agree {path : String} {e : Elem} {es : List Elem}
    (h : parse path = .ok (e :: es)) :
    topLevel? path = some (e.moduleName, e.name) ∧
    topLevel? (ofTopLevel e.moduleName e.name) = some (e.moduleName, e.name) ∧
    (∀ s : Schema, s.Selects path e es) ∧
    ∀ (ε : Type) (d : Datastore ε), d.Selects path e.name ∧
      ∀ path' e' es', parse path' = .ok (e' :: es') → d.failReads = false →
        (∀ tree, (d.setTree path tree).tree? path'
          = if e'.name = e.name then .ok (some (.object [(e.name, tree)])) else d.tree? path') ∧
        (d.removeTree path).tree? path'
          = if e'.name = e.name then .ok none else d.tree? path' := by
  refine ⟨topLevel?_of_parse h, topLevel?_ofTopLevel_of_parse h, Schema.selects h, ?_⟩
  intro ε d
  have hd := d.selects h
  refine ⟨hd, fun path' e' es' h' hreads => ⟨fun tree => ?_, ?_⟩⟩
  · have hset : (d.setTree path tree).failReads = false := by rw [hd.set, hreads]
    rw [((d.setTree path tree).selects h').tree hset, hd.set, (d.selects h').tree hreads]
    split
    · next hname => simp [hname]
    · next hname => rw [SortedMap.find?_insert_of_ne _ hname]
  · have hremove : (d.removeTree path).failReads = false := by rw [hd.remove, hreads]
    rw [((d.removeTree path).selects h').tree hremove, hd.remove, (d.selects h').tree hreads]
    split
    · next hname => simp [hname]
    · next hname => rw [SortedMap.find?_erase_of_ne hname]

namespace Small

/-- A colon, a bracket and a quote in a name, a slash, a bracket and a quote in a predicate. -/
def knotty : String := "/m:a:b]'[k=\"/'[\"][n='']/x:y"

/-- The path of a node of the same name in another module. -/
def namesake : String := "/w:a:b]'/z"

theorem knotty_agree :
    parse knotty = .ok [⟨some "m", "a:b]'", [("k", "/'["), ("n", "")]⟩, ⟨some "x", "y", []⟩] ∧
    topLevel? knotty = some (some "m", "a:b]'") ∧ topLevel? "/m:a:b]'" = some (some "m", "a:b]'") ∧
    ((Datastore.empty (ε := Unit)).setTree knotty .null).tree? namesake
      = .ok (some (.object [("a:b]'", .null)])) ∧
    ((Datastore.empty (ε := Unit)).setTree knotty .null).tree? "/m:a" = .ok none := by
  have hknotty : parse knotty
      = .ok [⟨some "m", "a:b]'", [("k", "/'["), ("n", "")]⟩, ⟨some "x", "y", []⟩] := by
    decide +kernel
  have hnamesake : parse namesake = .ok [⟨some "w", "a:b]'", []⟩, ⟨none, "z", []⟩] := by
    decide +kernel
  have hother : parse "/m:a" = .ok [⟨some "m", "a", []⟩] := by decide +kernel
  obtain ⟨hpath, htop, -, hdata⟩ := readers_agree hknotty
  refine ⟨hknotty, hpath, htop, ?_, ?_⟩
  · exact ((hdata Unit .empty).2 _ _ _ hnamesake rfl).1 .null
  · exact ((hdata Unit .empty).2 _ _ _ hother rfl).1 .null

end Small

end Path

end Telemetry
