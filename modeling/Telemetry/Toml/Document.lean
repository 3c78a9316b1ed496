import Telemetry.Toml.Scalar

/-!
# TOML documents

A document is a table built line by line. Headers and dotted keys may reach into a table that is
there already, but no key is given twice, and a table is opened by one header at most. How a table
came about decides what may still be added to it.
-/
namespace Telemetry.Toml

inductive Value where
  | string (s : String)
  | integer (n : Int)
  | boolean (b : Bool)
  | float
  | moment
  | array (items : List Value)
  | table (entries : List (String × Value))
  deriving Repr

/-- How a table of a document came about. -/
inductive Origin where
  /-- Opened by a header of its own. -/
  | header
  /-- On the way to a table opened by a header. -/
  | implied
  /-- On the way to a value under a dotted key. -/
  | dotted
  deriving DecidableEq, Repr

/-- What stands under a key while the document is being read. -/
inductive Item where
  | value (v : Value)
  | table (origin : Origin) (entries : List (String × Item))
  /-- Tables opened one by one under the same header, the newest first. -/
  | tables (rows : List (List (String × Item)))

abbrev Entries := List (String × Item)

/-- Changes what stands under a key, which may be nothing so far. -/
def alter (k : String) (f : Option Item → Option Item) : Entries → Option Entries
  | [] => (f none).map fun i => [(k, i)]
  | (k', i) :: rest =>
    if k' = k then (f (some i)).map fun i => (k, i) :: rest
    else (alter k f rest).map ((k', i) :: ·)

/-- Changes the table that a path leads to from a table, making tables where there are none. A
dotted key does not reach into tables that have a header. -/
def inTable (viaDots : Bool) (f : Origin → Entries → Option Entries) :
    List String → Origin → Entries → Option Entries
  | [], origin, es => f origin es
  | k :: ks, _, es =>
    let fresh := if viaDots then Origin.dotted else .implied
    alter k (fun
      | none => (inTable viaDots f ks fresh []).map (.table fresh)
      | some (.value _) => none
      | some (.tables []) => none
      | some (.tables (row :: rows)) =>
        (inTable viaDots f ks .header row).map fun row => .tables (row :: rows)
      | some (.table origin es) =>
        if viaDots ∧ origin = .header then none
        else (inTable viaDots f ks origin es).map (.table origin)) es

/-- Puts a value under a key of a table reached through `path`: only a table that dotted keys made
is extended by dotted keys. -/
def give (path : List String) (k : String) (v : Value) : Origin → Entries → Option Entries :=
  inTable true
    (fun origin es =>
      if (origin = .dotted) = (path = []) then none
      else
        alter k (fun
          | none => some (.value v)
          | some _ => none) es)
    path

/-- Opens a table under a key. -/
def openTable (k : String) (es : Entries) : Option Entries :=
  alter k (fun
    | none => some (.table .header [])
    | some (.table .implied es) => some (.table .header es)
    | some _ => none) es

/-- Opens one more table of an array of tables. -/
def openRow (k : String) (es : Entries) : Option Entries :=
  alter k (fun
    | none => some (.tables [[]])
    | some (.tables rows) => some (.tables ([] :: rows))
    | some _ => none) es

mutual

def Item.toValue : Item → Value
  | .value v => v
  | .table _ es => .table (entriesToValues es)
  | .tables rows => .array (rowsToValues rows).reverse

def entriesToValues : Entries → List (String × Value)
  | [] => []
  | (k, i) :: rest => (k, i.toValue) :: entriesToValues rest

def rowsToValues : List Entries → List Value
  | [] => []
  | row :: rows => .table (entriesToValues row) :: rowsToValues rows

end

/-! ## Values -/

/-- A comment, if there is one, up to the end of its line. -/
def skipComment : List Char → List Char
  | '#' :: rest => rest.dropWhile isPrinting
  | cs => cs

/-- Blanks, comments and line breaks between the items of an array. -/
def skipFiller : Nat → List Char → List Char
  | 0, cs => cs
  | fuel + 1, cs =>
    let cs := skipSpace cs
    match newline? (skipComment cs) with
    | some rest => skipFiller fuel rest
    | none => cs

/-- A number, a truth value or a time. -/
def atom (cs : List Char) : Option (Value × List Char) :=
  match expect ['t', 'r', 'u', 'e'] cs, expect ['f', 'a', 'l', 's', 'e'] cs with
  | some rest, _ => some (.boolean true, rest)
  | _, some rest => some (.boolean false, rest)
  | none, none =>
    match moment? cs, float? cs with
    | some rest, _ => some (.moment, rest)
    | none, some rest => some (.float, rest)
    | none, none => (integer cs).map fun (n, rest) => (.integer n, rest)

mutual

/-- A value of at most `room` levels. Every step uses a character, so the length of the text is
fuel enough. -/
def value : Nat → Nat → List Char → Option (Value × List Char)
  | 0, _, _ => none
  | fuel + 1, room, cs =>
    match room, cs with
    | _, '"' :: _ => (string cs).map fun (s, rest) => (.string s, rest)
    | _, '\'' :: _ => (string cs).map fun (s, rest) => (.string s, rest)
    | 0, '[' :: _ => none
    | 0, '{' :: _ => none
    | room + 1, '[' :: rest => do
      let (items, rest) ← items fuel room rest
      return (.array items, rest)
    | room + 1, '{' :: rest =>
      match skipSpace rest with
      | '}' :: rest => some (.table [], rest)
      | _ => do
        let (es, rest) ← pairs fuel room [] rest
        return (.table (entriesToValues es), rest)
    | _, cs => atom cs

/-- The items of an array up to its closing bracket. -/
def items : Nat → Nat → List Char → Option (List Value × List Char)
  | 0, _, _ => none
  | fuel + 1, room, cs =>
    match skipFiller cs.length cs with
    | ']' :: rest => some ([], rest)
    | cs => do
      let (v, rest) ← value fuel room cs
      match skipFiller rest.length rest with
      | ',' :: rest => do
        let (vs, rest) ← items fuel room rest
        return (v :: vs, rest)
      | ']' :: rest => return ([v], rest)
      | _ => none

/-- The pairs of a table on one line, up to its closing brace, added to those before them. -/
def pairs : Nat → Nat → Entries → List Char → Option (Entries × List Char)
  | 0, _, _, _ => none
  | fuel + 1, room, es, cs => do
    let (ks, rest) ← key cs
    let '=' :: rest := skipSpace rest | none
    let (v, rest) ← value fuel room (skipSpace rest)
    let es ← give ks.dropLast (ks.getLast?.getD "") v .header es
    match skipSpace rest with
    | ',' :: rest => pairs fuel room es rest
    | '}' :: rest => return (es, rest)
    | _ => none

end

/-! ## Lines -/

/-- The header between single or double brackets that a line begins with. -/
def header? : List Char → Option ((Bool × List String) × List Char)
  | '[' :: '[' :: rest => do
    let (ks, rest) ← key rest
    let rest ← expect [']', ']'] rest
    return ((true, ks), rest)
  | '[' :: rest => do
    let (ks, rest) ← key rest
    let rest ← expect [']'] rest
    return ((false, ks), rest)
  | _ => none

/-- The rest of a line holds at most a comment; gives the lines after it, if any. -/
def endLine (cs : List Char) : Option (Option (List Char)) :=
  match skipComment (skipSpace cs) with
  | [] => some none
  | cs => (newline? cs).map some

/-- Reads the lines of a document into its table. `current` is the path of the open table. -/
def lines : Nat → List String → Entries → List Char → Option Entries
  | 0, _, _, _ => none
  | fuel + 1, current, es, cs => do
    let (current, es, rest) ← match skipSpace cs with
      | '[' :: rest => do
        let ((isRow, ks), rest) ← header? ('[' :: rest)
        let k := ks.getLast?.getD ""
        let es ← inTable false (fun _ es => if isRow then openRow k es else openTable k es)
          ks.dropLast .header es
        some (ks, es, rest)
      | [] => some (current, es, [])
      | '#' :: rest => some (current, es, '#' :: rest)
      | '\n' :: rest => some (current, es, '\n' :: rest)
      | '\r' :: rest => some (current, es, '\r' :: rest)
      | cs => do
        let (ks, rest) ← key cs
        let '=' :: rest := skipSpace rest | none
        let (v, rest) ← value (2 * rest.length + 2) (depthLimit - 1) (skipSpace rest)
        let es ← inTable false (give ks.dropLast (ks.getLast?.getD "") v) current .header es
        some (current, es, rest)
    match ← endLine rest with
    | none => return es
    | some rest => lines fuel current es rest

/-- The table that a text describes. -/
def document? (text : String) : Option (List (String × Value)) :=
  let cs := match text.toList with
    | '\ufeff' :: rest => rest
    | cs => cs
  (lines (cs.length + 1) [] [] cs).map entriesToValues

end Telemetry.Toml
