import Telemetry.Binary64.Basic

/-!
# TOML scalars

Readers of keys, strings, numbers and times. Each takes the text at its start and gives what it
read with the text after it, or `none` when the text does not begin with one.
-/
namespace Telemetry.Toml

/-- A reader of something at the head of a text. -/
abbrev Reader (α : Type) := List Char → Option (α × List Char)

def isSpace (c : Char) : Bool := c == ' ' || c == '\t'

def skipSpace (cs : List Char) : List Char := cs.dropWhile isSpace

/-- A line break, with or without carriage return. -/
def newline? : List Char → Option (List Char)
  | '\n' :: rest => some rest
  | '\r' :: '\n' :: rest => some rest
  | _ => none

/-- A character that a comment may hold. -/
def isPrinting (c : Char) : Bool :=
  c == '\t' || (0x20 ≤ c.toNat && c.toNat ≤ 0x7E) || 0x80 ≤ c.toNat

def expect (word : List Char) (cs : List Char) : Option (List Char) :=
  if word.isPrefixOf cs then some (cs.drop word.length) else none

/-! ## Strings -/

def hexDigit? (c : Char) : Option Nat :=
  if '0' ≤ c ∧ c ≤ '9' then some (c.toNat - '0'.toNat)
  else if 'a' ≤ c ∧ c ≤ 'f' then some (c.toNat - 'a'.toNat + 10)
  else if 'A' ≤ c ∧ c ≤ 'F' then some (c.toNat - 'A'.toNat + 10)
  else none

/-- A code point in exactly `n` hexadecimal digits; surrogates are none. -/
def codePoint (n : Nat) : Reader Char := fun cs => do
  let ds ← (cs.take n).mapM hexDigit?
  if ds.length ≠ n then none
  else
    let v := ds.foldl (fun a d => a * 16 + d) 0
    if v < 0xD800 ∨ (0xE000 ≤ v ∧ v < 0x110000) then return (Char.ofNat v, cs.drop n) else none

/-- What follows a backslash. -/
def escaped : Reader Char
  | 'b' :: rest => some ('\x08', rest)
  | 't' :: rest => some ('\t', rest)
  | 'n' :: rest => some ('\n', rest)
  | 'f' :: rest => some ('\x0c', rest)
  | 'r' :: rest => some ('\r', rest)
  | '"' :: rest => some ('"', rest)
  | '\\' :: rest => some ('\\', rest)
  | 'u' :: rest => codePoint 4 rest
  | 'U' :: rest => codePoint 8 rest
  | _ => none

/-- A basic string after its opening quote. -/
def basic : Nat → Reader (List Char)
  | 0, _ => none
  | fuel + 1, cs =>
    match cs with
    | '"' :: rest => some ([], rest)
    | '\\' :: rest => do
      let (c, rest) ← escaped rest
      let (s, rest) ← basic fuel rest
      return (c :: s, rest)
    | c :: rest =>
      if isPrinting c then do
        let (s, rest) ← basic fuel rest
        return (c :: s, rest)
      else none
    | [] => none

/-- A literal string after its opening quote. -/
def literal : Reader (List Char)
  | [] => none
  | '\'' :: rest => some ([], rest)
  | c :: rest =>
    if isPrinting c then do
      let (s, rest) ← literal rest
      return (c :: s, rest)
    else none

/-- Blanks and line breaks. -/
def skipLines : Nat → List Char → List Char
  | 0, cs => cs
  | fuel + 1, cs =>
    match newline? (skipSpace cs) with
    | some rest => skipLines fuel rest
    | none => skipSpace cs

/-- The closing quotes of a string of several lines: three, with up to two more in front that
belong to the string. -/
def closing (q : Char) (cs : List Char) : Option (List Char × List Char) :=
  let n := (cs.takeWhile (· = q)).length
  if n < 3 then none
  else
    let inside := min (n - 3) 2
    some (List.replicate inside q, cs.drop (inside + 3))

/-- A basic string of several lines after its opening quotes. A backslash at the end of a line
joins it with the next text. -/
def basicLines : Nat → Reader (List Char)
  | 0, _ => none
  | fuel + 1, cs =>
    match closing '"' cs with
    | some (s, rest) => some (s, rest)
    | none =>
      match newline? cs with
      | some rest => do
        let (s, rest) ← basicLines fuel rest
        return ('\n' :: s, rest)
      | none =>
        match cs with
        | '\\' :: rest =>
          match newline? (skipSpace rest) with
          | some rest => basicLines fuel (skipLines rest.length rest)
          | none => do
            let (c, rest) ← escaped rest
            let (s, rest) ← basicLines fuel rest
            return (c :: s, rest)
        | c :: rest =>
          if isPrinting c then do
            let (s, rest) ← basicLines fuel rest
            return (c :: s, rest)
          else none
        | [] => none

/-- A literal string of several lines after its opening quotes. -/
def literalLines : Nat → Reader (List Char)
  | 0, _ => none
  | fuel + 1, cs =>
    match closing '\'' cs with
    | some (s, rest) => some (s, rest)
    | none =>
      match newline? cs with
      | some rest => do
        let (s, rest) ← literalLines fuel rest
        return ('\n' :: s, rest)
      | none =>
        match cs with
        | c :: rest =>
          if isPrinting c then do
            let (s, rest) ← literalLines fuel rest
            return (c :: s, rest)
          else none
        | [] => none

/-- The text without a line break at its very start. -/
def dropNewline (cs : List Char) : List Char := (newline? cs).getD cs

/-- A string of any of the four kinds. -/
def string : Reader String := fun cs => do
  let fuel := cs.length + 1
  let (s, rest) ← match cs with
    | '"' :: '"' :: '"' :: rest => basicLines fuel (dropNewline rest)
    | '\'' :: '\'' :: '\'' :: rest => literalLines fuel (dropNewline rest)
    | '"' :: rest => basic fuel rest
    | '\'' :: rest => literal rest
    | _ => none
  return (String.ofList s, rest)

/-! ## Keys -/

def isBare (c : Char) : Bool := c.isAlphanum || c == '_' || c == '-'

/-- One part of a key: a bare word, or a string of one line. -/
def simpleKey : Reader String
  | '"' :: rest => do
    let (s, rest) ← basic (rest.length + 1) rest
    return (String.ofList s, rest)
  | '\'' :: rest => do
    let (s, rest) ← literal rest
    return (String.ofList s, rest)
  | cs =>
    match cs.takeWhile isBare with
    | [] => none
    | w => some (String.ofList w, cs.dropWhile isBare)

/-- A key of parts with dots between them. -/
def dottedKey : Nat → Reader (List String)
  | 0, _ => none
  | fuel + 1, cs => do
    let (k, rest) ← simpleKey (skipSpace cs)
    match skipSpace rest with
    | '.' :: rest => do
      let (ks, rest) ← dottedKey fuel rest
      return (k :: ks, rest)
    | rest => return ([k], rest)

/-- Keys have fewer parts than this, and values fewer levels. -/
def depthLimit : Nat := 80

def key : Reader (List String) := fun cs =>
  (dottedKey (cs.length + 1) cs).filter fun (ks, _) => ks.length < depthLimit

/-! ## Numbers -/

/-- Digits of a base, at least one, with single underscores between them. -/
def digits (digit? : Char → Option Nat) : Reader (List Nat)
  | [] => none
  | c :: '_' :: cs => do
    let d ← digit? c
    let (ds, rest) ← digits digit? cs
    return (d :: ds, rest)
  | c :: cs => do
    let d ← digit? c
    match digits digit? cs with
    | some (ds, rest) => return (d :: ds, rest)
    | none => if (cs.head?.bind digit?).isSome then none else return ([d], cs)

/-- A digit below the base. -/
def digitBelow (base : Nat) (c : Char) : Option Nat := (hexDigit? c).filter (· < base)

def sign : List Char → Bool × List Char
  | '+' :: rest => (false, rest)
  | '-' :: rest => (true, rest)
  | cs => (false, cs)

/-- Decimal digits without a leading zero, unless zero is all. -/
def wholePart : Reader (List Nat) := fun cs =>
  match cs with
  | '0' :: rest => some ([0], rest)
  | cs => digits (digitBelow 10) cs

def valueOf (base : Nat) (ds : List Nat) : Nat := ds.foldl (fun n d => n * base + d) 0

/-- Whole numbers fit 64 bits with sign. -/
def inRange (n : Int) : Option Int := if -Nat.pow 2 63 ≤ n ∧ n < Nat.pow 2 63 then some n else none

def based (base : Nat) (cs : List Char) : Option (Int × List Char) := do
  let (ds, rest) ← digits (digitBelow base) cs
  return (← inRange (valueOf base ds), rest)

/-- A whole number, decimal with a sign or in another base without one. -/
def integer : Reader Int
  | '0' :: 'x' :: rest => based 16 rest
  | '0' :: 'o' :: rest => based 8 rest
  | '0' :: 'b' :: rest => based 2 rest
  | cs => do
    let (negative, rest) := sign cs
    let (ds, rest) ← wholePart rest
    let n : Int := valueOf 10 ds
    return (← inRange (if negative then -n else n), rest)

/-- Whether a decimal is within the range of binary fractions. The place of its first digit other
than zero decides, except next to the bound. -/
def isFinite (ds : List Nat) (exponent : Int) : Bool :=
  let n := valueOf 10 ds
  let place := exponent + (Nat.toDigits 10 n).length
  if n = 0 ∨ place < 300 then true
  else if 310 < place then false
  else (Binary64.ofRatio? (n * Nat.pow 10 exponent.toNat) (Nat.pow 10 (-exponent).toNat)).isSome

/-- The size of an exponent: digits after one that takes it past sixteen bits add nothing. -/
def exponentSize (ds : List Nat) : Nat :=
  ds.foldl (fun n d => if n < Nat.pow 2 16 then n * 10 + d else n) 0

/-- An exponent after its letter. -/
def exponent : Reader Int := fun cs => do
  let (negative, rest) := sign cs
  let (ds, rest) ← digits (digitBelow 10) rest
  let n : Int := exponentSize ds
  return (if negative then -n else n, rest)

/-- A number with decimals, an exponent or both; infinity and not-a-number by name. Above the range
of binary fractions there are no numbers, while below it all stand for minus infinity. Only the
text after the number is of interest. -/
def float? (cs : List Char) : Option (List Char) :=
  let (negative, unsigned) := sign cs
  match expect ['i', 'n', 'f'] unsigned, expect ['n', 'a', 'n'] unsigned with
  | some rest, _ => some rest
  | _, some rest => some rest
  | none, none => do
    let (ds, rest) ← wholePart unsigned
    let (fs, rest) ← match rest with
      | '.' :: rest => digits (digitBelow 10) rest
      | c :: rest => if c = 'e' ∨ c = 'E' then some ([], c :: rest) else none
      | [] => none
    let (e, rest) ← match rest with
      | c :: rest' => if c = 'e' ∨ c = 'E' then exponent rest' else some (0, rest)
      | [] => some (0, [])
    if negative ∨ isFinite (ds ++ fs) (e - fs.length) then return rest else none

/-! ## Times -/

/-- Exactly `n` decimal digits. -/
def fixed (n : Nat) : Reader Nat := fun cs => do
  let ds ← (cs.take n).mapM (digitBelow 10)
  if ds.length = n then return (valueOf 10 ds, cs.drop n) else none

def daysIn (year month : Nat) : Nat :=
  if month = 2 then
    if year % 4 = 0 ∧ (year % 100 ≠ 0 ∨ year % 400 = 0) then 29 else 28
  else if month = 4 ∨ month = 6 ∨ month = 9 ∨ month = 11 then 30
  else 31

/-- A day of the calendar. -/
def date? (cs : List Char) : Option (List Char) := do
  let (year, rest) ← fixed 4 cs
  let rest ← expect ['-'] rest
  let (month, rest) ← fixed 2 rest
  let rest ← expect ['-'] rest
  let (day, rest) ← fixed 2 rest
  if 1 ≤ month ∧ month ≤ 12 ∧ 1 ≤ day ∧ day ≤ daysIn year month then return rest else none

/-- A time of day, perhaps with decimals of a second. -/
def time? (cs : List Char) : Option (List Char) := do
  let (hour, rest) ← fixed 2 cs
  let rest ← expect [':'] rest
  let (minute, rest) ← fixed 2 rest
  let rest ← expect [':'] rest
  let (second, rest) ← fixed 2 rest
  if hour ≤ 23 ∧ minute ≤ 59 ∧ second ≤ 60 then
    match rest with
    | '.' :: c :: rest' =>
      if c.isDigit then return rest'.dropWhile Char.isDigit else none
    | rest => return rest
  else none

/-- An offset from universal time, if there is one. -/
def offset? (cs : List Char) : Option (List Char) :=
  match cs with
  | c :: rest =>
    if c = 'Z' ∨ c = 'z' then some rest
    else if c = '+' ∨ c = '-' then do
      let (hour, rest) ← fixed 2 rest
      let rest ← expect [':'] rest
      let (minute, rest) ← fixed 2 rest
      if hour ≤ 23 ∧ minute ≤ 59 then return rest else none
    else some cs
  | [] => some []

/-- A date, a time, or both; only the text after it is of interest. -/
def moment? (cs : List Char) : Option (List Char) :=
  match date? cs with
  | some rest =>
    match rest with
    | c :: rest' =>
      if c = 'T' ∨ c = 't' then (time? rest').bind offset?
      else if c = ' ' then
        match time? rest' with
        | some rest'' => offset? rest''
        | none => some rest
      else some rest
    | [] => some []
  | none => time? cs

end Telemetry.Toml
