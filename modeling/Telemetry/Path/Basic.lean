/-!
# Paths

A path names a node of the data tree, element by element from the top. An element is a node name,
perhaps with the module it belongs to, and predicates that pick list entries by their keys.

A predicate value stands between single quotes unless it holds one, then between double quotes. A
value with both kinds of quote has no written form.
-/
namespace Telemetry.Path

/-- One element of a path; the predicates are in the order written. -/
structure Elem where
  moduleName : Option String
  name : String
  keys : List (String × String)
  deriving DecidableEq, Repr

/-- The quote to put around a predicate value. -/
def quote? (value : List Char) : Option Char :=
  if '\'' ∉ value then some '\''
  else if '"' ∉ value then some '"'
  else none

/-- A predicate in the given quotes. -/
def predicateText (key : List Char) (quote : Char) (value : List Char) : List Char :=
  ['['] ++ key ++ ['=', quote] ++ value ++ [quote, ']']

def Elem.keyText (kv : String × String) : List Char :=
  predicateText kv.1.toList ((quote? kv.2.toList).getD '\'') kv.2.toList

/-- The written form of an element. -/
def Elem.chars (e : Elem) : List Char :=
  (match e.moduleName with
    | some m => m.toList ++ [':']
    | none => []) ++ e.name.toList ++ e.keys.flatMap keyText

def Elem.text (e : Elem) : String := String.ofList e.chars

/-- The written form of a path: every element after a slash. -/
def chars (es : List Elem) : List Char := es.flatMap fun e => '/' :: e.chars

def text (es : List Elem) : String := String.ofList (chars es)

theorem quote?_eq_none {value : List Char} : quote? value = none ↔ '\'' ∈ value ∧ '"' ∈ value := by
  simp only [quote?]
  split
  · simp_all
  · split <;> simp_all

end Telemetry.Path
