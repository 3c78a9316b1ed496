import Telemetry.Path.Basic
import Telemetry.Error
import Telemetry.Text.Blank

/-!
# Reading paths

A first scan cuts the text at the slashes outside predicates; the pieces are then read one by one.
Of several faults the first in the text is reported, a predicate left open counting as the last.
Key names lose the blanks around them and a module name in front.
-/
namespace Telemetry.Path

/-- The text before the first `c` and the text after it. -/
def cut? (c : Char) : List Char → Option (List Char × List Char)
  | [] => none
  | d :: ds => if d = c then some ([], ds) else (cut? c ds).map fun (a, b) => (d :: a, b)

theorem cut?_eq_some {c : Char} {cs a b : List Char} :
    cut? c cs = some (a, b) ↔ cs = a ++ c :: b ∧ c ∉ a := by
  induction cs generalizing a with
  | nil => simp [cut?]
  | cons d ds ih =>
    rw [cut?]
    split
    · next h =>
      subst h
      cases a <;> simp +contextual [eq_comm]
    · next h =>
      cases a with
      | nil => simp [h]
      | cons a₀ a => simp [ih, Prod.ext_iff]; grind

theorem length_of_cut? {c : Char} {cs a b : List Char} (h : cut? c cs = some (a, b)) :
    b.length < cs.length := by
  rw [(cut?_eq_some.1 h).1]
  simp only [List.length_append, List.length_cons]
  omega

/-- What follows the last colon, or all of it. -/
def afterColon : List Char → List Char
  | [] => []
  | c :: cs => if ':' ∈ cs then afterColon cs else if c = ':' then cs else c :: cs

/-! ## Elements -/

/-- The bare key name of a predicate. -/
def keyName (cs : List Char) : List Char := afterColon (Text.trim cs)

/-- A predicate at the head of the text, and what follows it. -/
def predicate? (cs : List Char) : Option ((String × String) × List Char) := do
  let '[' :: body := cs | none
  let (key, after) ← cut? '=' body
  let quote :: after := after | none
  if quote = '\'' ∨ quote = '"' then
    let (value, after) ← cut? quote after
    let ']' :: rest := after | none
    if keyName key = [] then none
    else return ((String.ofList (keyName key), String.ofList value), rest)
  else none

theorem length_of_predicate? {cs rest : List Char} {kv : String × String}
    (h : predicate? cs = some (kv, rest)) : rest.length < cs.length := by
  unfold predicate? at h
  split at h
  · simp only [Option.bind_eq_bind, Option.bind_eq_some_iff, Prod.exists] at h
    obtain ⟨key, after, h₁, h⟩ := h
    have l₁ := length_of_cut? h₁
    split at h
    · split at h
      · simp only [Option.bind_eq_some_iff, Prod.exists] at h
        obtain ⟨value, after', h₂, h⟩ := h
        have l₂ := length_of_cut? h₂
        split at h
        · split at h
          · simp at h
          · simp only [Option.pure_def, Option.some.injEq, Prod.mk.injEq] at h
            simp only [List.length_cons, ← h.2] at l₁ l₂ ⊢
            omega
        · simp at h
      · simp at h
    · simp at h
  · simp at h

/-- All of the text as predicates. -/
def predicates? (cs : List Char) : Option (List (String × String)) :=
  if cs = [] then some []
  else
    match _h : predicate? cs with
    | none => none
    | some (kv, rest) => (predicates? rest).map (kv :: ·)
termination_by cs.length
decreasing_by exact length_of_predicate? _h

/-- The head of an element, before its predicates: a name, perhaps after a module name. -/
def head? (cs : List Char) : Option (Option String × String) :=
  match cut? ':' cs with
  | some (m, name) =>
    if m = [] ∨ name = [] then none else some (some (String.ofList m), String.ofList name)
  | none => if cs = [] then none else some (none, String.ofList cs)

/-- An element: a head, and predicates from the first bracket on. -/
def Elem.parse? (cs : List Char) : Option Elem := do
  let (moduleName, name) ← head? (cs.takeWhile (· ≠ '['))
  let keys ← predicates? (cs.dropWhile (· ≠ '['))
  return ⟨moduleName, name, keys⟩

def Elem.parse (cs : List Char) : Except Error Elem :=
  match Elem.parse? cs with
  | some e => .ok e
  | none => .error (.malformedElement (String.ofList cs))

/-! ## Separators -/

/-- How many brackets are open, and the quote the scan is inside of. -/
structure Scan where
  depth : Nat
  quote : Option Char
  deriving DecidableEq, Repr

namespace Scan

def start : Scan := ⟨0, none⟩

/-- Outside every bracket and quote, where a slash separates elements. -/
def outside (s : Scan) : Bool := s.depth == 0 && s.quote.isNone

/-- A quote opens inside brackets only and closes at its like; brackets count outside quotes. -/
def step (s : Scan) (c : Char) : Scan :=
  match s.quote with
  | some q => if c = q then { s with quote := none } else s
  | none =>
    if (c = '\'' ∨ c = '"') ∧ 0 < s.depth then { s with quote := some c }
    else if c = '[' then { s with depth := s.depth + 1 }
    else if c = ']' then { s with depth := s.depth - 1 }
    else s

end Scan

/-- The text cut at its separators: the first piece, the pieces after it, and how the scan ends. -/
def pieces (s : Scan) : List Char → List Char × List (List Char) × Scan
  | [] => ([], [], s)
  | c :: cs =>
    if c = '/' ∧ s.outside then
      let (p, ps, last) := pieces s cs
      ([], p :: ps, last)
    else
      let (p, ps, last) := pieces (s.step c) cs
      (c :: p, ps, last)

/-- The elements of an absolute path. -/
def parse (path : String) : Except Error (List Elem) :=
  match path.toList with
  | '/' :: body =>
    let (p, ps, last) := pieces .start body
    if last.outside then (p :: ps).mapM Elem.parse
    else
      match ((p :: ps).dropLast).mapM Elem.parse with
      | .error e => .error e
      | .ok _ => .error (.openPredicate path)
  | _ => .error (.relativePath path)

/-! ## Top-level nodes -/

/-- Module and name of the top-level node of a path, read off its first element alone: the text
between the leading slashes and the next slash or bracket. -/
def topLevel? (path : String) : Option (Option String × String) :=
  let first := ((path.toList.dropWhile (· = '/')).takeWhile (· ≠ '/')).takeWhile (· ≠ '[')
  if first = [] then none
  else
    match cut? ':' first with
    | some (m, name) => some (some (String.ofList m), String.ofList name)
    | none => some (none, String.ofList first)

/-- The path of a top-level node. -/
def ofTopLevel (moduleName : Option String) (name : String) : String :=
  match moduleName with
  | some m => "/" ++ m ++ ":" ++ name
  | none => "/" ++ name

end Telemetry.Path
