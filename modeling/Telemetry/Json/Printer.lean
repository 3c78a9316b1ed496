import Telemetry.Json.Basic
import Telemetry.Binary64.Shortest
import Telemetry.Text.Quoted

/-!
# Compact JSON text

No blanks, members in the order they have, and escapes only where JSON asks for one. A fraction is
written with the fewest digits that read back, positionally with at least one decimal place between
`1e-5` and `1e16`, and with a signed exponent elsewhere.
-/
namespace Telemetry.Json

/-- How a character is written inside a JSON string. -/
def escape (c : Char) : List Char :=
  if c = '"' then ['\\', '"']
  else if c = '\\' then ['\\', '\\']
  else if c.toNat = 8 then ['\\', 'b']
  else if c.toNat = 9 then ['\\', 't']
  else if c.toNat = 10 then ['\\', 'n']
  else if c.toNat = 12 then ['\\', 'f']
  else if c.toNat = 13 then ['\\', 'r']
  else if c.toNat < 16 then ['\\', 'u', '0', '0', '0'] ++ Text.hex c.toNat
  else if c.toNat < 32 then ['\\', 'u', '0', '0'] ++ Text.hex c.toNat
  else [c]

def stringText (s : String) : List Char := ['"'] ++ s.toList.flatMap escape ++ ['"']

def decimal (n : Nat) : List Char := Nat.toDigits 10 n

def wholeText (n : Int) : List Char :=
  if n < 0 then '-' :: decimal n.natAbs else decimal n.natAbs

/-- The decimal `c * 10^k`. The decimal point stands `place` digits from the left. -/
def decimalText (c : Nat) (k : Int) : List Char :=
  let digits := decimal c
  let place : Int := digits.length + k
  if 0 ≤ k ∧ place ≤ 16 then digits ++ List.replicate k.toNat '0' ++ ['.', '0']
  else if 0 < place ∧ place ≤ 16 then
    digits.take place.toNat ++ ['.'] ++ digits.drop place.toNat
  else if -5 < place ∧ place ≤ 0 then
    ['0', '.'] ++ List.replicate (-place).toNat '0' ++ digits
  else
    let fractional := if digits.length = 1 then [] else '.' :: digits.drop 1
    let sign := if place - 1 < 0 then '-' else '+'
    digits.take 1 ++ fractional ++ ['e', sign] ++ decimal (place - 1).natAbs

def fractionText (x : Binary64) : List Char :=
  let magnitude :=
    if x.pattern = 0 then ['0', '.', '0']
    else
      let (c, k) := Binary64.shortest x.pattern
      decimalText c k
  if x.negative then '-' :: magnitude else magnitude

mutual

def text : Json → List Char
  | .null => ['n', 'u', 'l', 'l']
  | .bool true => ['t', 'r', 'u', 'e']
  | .bool false => ['f', 'a', 'l', 's', 'e']
  | .number (.whole n) => wholeText n
  | .number (.fraction x) => fractionText x
  | .string s => stringText s
  | .array items => ['['] ++ itemsText items ++ [']']
  | .object members => ['{'] ++ membersText members ++ ['}']

def itemsText : List Json → List Char
  | [] => []
  | [j] => text j
  | j :: rest => text j ++ ',' :: itemsText rest

def membersText : List (String × Json) → List Char
  | [] => []
  | [(k, j)] => stringText k ++ ':' :: text j
  | (k, j) :: rest => stringText k ++ ':' :: text j ++ ',' :: membersText rest

end

/-- The compact text of a value. -/
def compact (j : Json) : String := String.ofList (text j)

end Telemetry.Json
