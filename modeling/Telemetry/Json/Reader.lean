import Telemetry.Json.Numeral

/-!
# Reading JSON text

The reader keeps an object's members as written, in their order and with repeated names. A numeral
out of range, a string with half a surrogate pair and a value nested too deeply are well-formed
text without a value. A reader with a filler takes that for them, so that a document may carry them
where nobody looks; any other refuses the document.
-/
namespace Telemetry.Json.Reader

/-- The deepest nesting that has a value. -/
def depthLimit : Nat := 127

def isSpace (c : Char) : Bool := c == ' ' || c == '\n' || c == '\t' || c == '\r'

def skipSpace (cs : List Char) : List Char := cs.dropWhile isSpace

def digit? (c : Char) : Option Nat :=
  if '0' ≤ c ∧ c ≤ '9' then some (c.toNat - '0'.toNat) else none

/-- The digits a text begins with, and the rest. -/
def digits : List Char → List Nat × List Char
  | [] => ([], [])
  | c :: cs =>
    match digit? c with
    | some d => let (ds, rest) := digits cs; (d :: ds, rest)
    | none => ([], c :: cs)

def hexDigit? (c : Char) : Option Nat :=
  if '0' ≤ c ∧ c ≤ '9' then some (c.toNat - '0'.toNat)
  else if 'a' ≤ c ∧ c ≤ 'f' then some (c.toNat - 'a'.toNat + 10)
  else if 'A' ≤ c ∧ c ≤ 'F' then some (c.toNat - 'A'.toNat + 10)
  else none

def fourHex : List Char → Option (Nat × List Char)
  | a :: b :: c :: d :: rest => do
    return ((((← hexDigit? a) * 16 + (← hexDigit? b)) * 16 + (← hexDigit? c)) * 16
      + (← hexDigit? d), rest)
  | _ => none

/-! ## Strings -/

/-- A piece of a string: a character, or an escaped unit of sixteen bits. -/
inductive Piece where
  | char (c : Char)
  | unit (n : Nat)

/-- The pieces of a string up to its closing quote, and the text after it. -/
def pieces : List Char → Option (List Piece × List Char)
  | [] => none
  | '"' :: rest => some ([], rest)
  | '\\' :: 'u' :: a :: b :: c :: d :: rest => do
    let (n, _) ← fourHex [a, b, c, d]
    let (ps, rest) ← pieces rest
    return (.unit n :: ps, rest)
  | '\\' :: e :: rest => do
    let c ← match e with
      | '"' => some '"'
      | '\\' => some '\\'
      | '/' => some '/'
      | 'b' => some '\x08'
      | 'f' => some '\x0c'
      | 'n' => some '\n'
      | 'r' => some '\r'
      | 't' => some '\t'
      | _ => none
    let (ps, rest) ← pieces rest
    return (.char c :: ps, rest)
  | c :: rest =>
    if c.toNat < 0x20 ∨ c = '\\' then none
    else do
      let (ps, rest) ← pieces rest
      return (.char c :: ps, rest)

/-- The characters of the pieces; `none` for half a surrogate pair. -/
def join : List Piece → Option (List Char)
  | [] => some []
  | .char c :: ps => do return c :: (← join ps)
  | .unit hi :: .unit lo :: ps =>
    if 0xD800 ≤ hi ∧ hi < 0xDC00 ∧ 0xDC00 ≤ lo ∧ lo < 0xE000 then do
      return Char.ofNat (0x10000 + (hi - 0xD800) * 0x400 + (lo - 0xDC00)) :: (← join ps)
    else if 0xD800 ≤ hi ∧ hi < 0xE000 then none
    else do return Char.ofNat hi :: (← join (.unit lo :: ps))
  | .unit n :: ps => if 0xD800 ≤ n ∧ n < 0xE000 then none else do return Char.ofNat n :: (← join ps)

/-- A string after its opening quote; its text is `none` when the string has no value. -/
def quotedText (cs : List Char) : Option (Option String × List Char) := do
  let (ps, rest) ← pieces cs
  return ((join ps).map String.ofList, rest)

/-! ## Numerals -/

/-- Decimal point and decimals, if any; a point without digits is no numeral. -/
def decimals : List Char → Option (Option (List Nat) × List Char)
  | '.' :: cs =>
    match digits cs with
    | ([], _) => none
    | (ds, rest) => some (some ds, rest)
  | cs => some (none, cs)

def exponentDigits (down : Bool) (cs : List Char) :
    Option (Option (Bool × List Nat) × List Char) :=
  match digits cs with
  | ([], _) => none
  | (ds, rest) => some (some (down, ds), rest)

def exponent : List Char → Option (Option (Bool × List Nat) × List Char)
  | c :: cs =>
    if c = 'e' ∨ c = 'E' then
      match cs with
      | '+' :: cs => exponentDigits false cs
      | '-' :: cs => exponentDigits true cs
      | cs => exponentDigits false cs
    else some (none, c :: cs)
  | [] => some (none, [])

/-- A numeral after its sign: no leading zero unless the whole part is zero. -/
def numeral (negative : Bool) (cs : List Char) : Option (Numeral × List Char) := do
  let (whole, rest) := digits cs
  match whole with
  | [] => none
  | 0 :: _ :: _ => none
  | _ => do
    let (ds, rest) ← decimals rest
    let (e, rest) ← exponent rest
    return (⟨negative, whole, ds, e⟩, rest)

/-- The members, if each name has a value. -/
def named : List (Option String × Json) → Option (List (String × Json))
  | [] => some []
  | (none, _) :: _ => none
  | (some k, j) :: rest => (named rest).map ((k, j) :: ·)

/-- What text stands for: its value, or the filler if there is one. -/
def settle (filler : Option Json) (j : Option Json) : Option Json := j <|> filler

/-- The value, unless it is nested too deeply. -/
def atDepth (depth : Nat) (j : Option Json) : Option Json := if depth < depthLimit then j else none

/-! ## Values -/

def literal (word : List Char) (value : Json) (cs : List Char) : Option (Json × List Char) :=
  if word.isPrefixOf cs then some (value, cs.drop word.length) else none

mutual

/-- A value at nesting depth `depth`. Every step uses a character, so the length of the text is
fuel enough. -/
def value (filler : Option Json) : Nat → Nat → List Char → Option (Json × List Char)
  | 0, _, _ => none
  | fuel + 1, depth, cs =>
    match skipSpace cs with
    | 'n' :: rest => literal ['u', 'l', 'l'] .null rest
    | 't' :: rest => literal ['r', 'u', 'e'] (.bool true) rest
    | 'f' :: rest => literal ['a', 'l', 's', 'e'] (.bool false) rest
    | '"' :: rest => do
      let (s, rest) ← quotedText rest
      return (← settle filler (s.map .string), rest)
    | '-' :: rest => do
      let (n, rest) ← numeral true rest
      return (← settle filler (n.value?.map .number), rest)
    | '[' :: rest => do
      let (items, rest) ← match skipSpace rest with
        | ']' :: rest => some ([], rest)
        | _ => items filler fuel (depth + 1) rest
      return (← settle filler (atDepth depth (some (.array items))), rest)
    | '{' :: rest => do
      let (members, rest) ← match skipSpace rest with
        | '}' :: rest => some ([], rest)
        | _ => members filler fuel (depth + 1) rest
      return (← settle filler (atDepth depth ((named members).map .object)), rest)
    | rest => do
      let (n, rest) ← numeral false rest
      return (← settle filler (n.value?.map .number), rest)

/-- The items of an array up to its closing bracket. -/
def items (filler : Option Json) : Nat → Nat → List Char → Option (List Json × List Char)
  | 0, _, _ => none
  | fuel + 1, depth, cs => do
    let (j, rest) ← value filler fuel depth cs
    match skipSpace rest with
    | ',' :: rest => do
      let (js, rest) ← items filler fuel depth rest
      return (j :: js, rest)
    | ']' :: rest => return ([j], rest)
    | _ => none

/-- The members of an object up to its closing brace. -/
def members (filler : Option Json) :
    Nat → Nat → List Char → Option (List (Option String × Json) × List Char)
  | 0, _, _ => none
  | fuel + 1, depth, cs =>
    match skipSpace cs with
    | '"' :: rest => do
      let (name, rest) ← quotedText rest
      match skipSpace rest with
      | ':' :: rest => do
        let (j, rest) ← value filler fuel depth rest
        match skipSpace rest with
        | ',' :: rest => do
          let (ms, rest) ← members filler fuel depth rest
          return ((name, j) :: ms, rest)
        | '}' :: rest => return ([(name, j)], rest)
        | _ => none
      | _ => none
    | _ => none

end

end Reader

/-- The document a text holds, as written, with the filler where the text has no value. -/
def document? (filler : Option Json) (text : String) : Option Json := do
  let cs := text.toList
  let (j, rest) ← Reader.value filler (2 * cs.length + 2) 0 cs
  if (Reader.skipSpace rest).isEmpty then return j else none

/-- The value a text holds, in canonical form. -/
def read? (text : String) : Option Json := (document? none text).map canonical

end Telemetry.Json
