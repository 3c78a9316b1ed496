import Telemetry.Text.Unprintable

/-!
# Quoted text in messages

Messages show text between double quotes, with everything a reader could not see spelled out: a
quote and a backslash are escaped, common controls have their short names, and every other
unprintable character is given by its code point.
-/
namespace Telemetry.Text

/-- The digits of `n` in base sixteen, most significant first, in lower case. -/
def hex (n : Nat) : List Char := Nat.toDigits 16 n

/-- How a character is written between double quotes. -/
def escape (c : Char) : List Char :=
  if c = '"' then ['\\', '"']
  else if c = '\\' then ['\\', '\\']
  else if c = '\n' then ['\\', 'n']
  else if c = '\r' then ['\\', 'r']
  else if c = '\t' then ['\\', 't']
  else if c.toNat = 0 then ['\\', '0']
  else if isUnprintable c then ['\\', 'u', '{'] ++ hex c.toNat ++ ['}']
  else [c]

/-- The text between double quotes. -/
def quoted (s : String) : String :=
  String.ofList (['"'] ++ s.toList.flatMap escape ++ ['"'])

end Telemetry.Text
