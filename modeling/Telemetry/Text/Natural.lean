/-!
# Reading 64-bit naturals

Decimal digits after an optional plus sign; leading zeros are allowed and the value must fit 64
bits.
-/
namespace Telemetry.Text

/-- The value of a run of ASCII digits, read after `n`. -/
def digitsAfter (n : Nat) : List Char → Option Nat
  | [] => some n
  | c :: cs => if c.isDigit then digitsAfter (n * 10 + (c.toNat - '0'.toNat)) cs else none

/-- A natural below `2^64`. -/
def natural? (cs : List Char) : Option Nat :=
  let ds := match cs with
    | '+' :: rest => rest
    | cs => cs
  if ds.isEmpty then none
  else (digitsAfter 0 ds).filter (· < Nat.pow 2 64)

example :
    natural? ['+', '0', '7'] = some 7 ∧ natural? ['+'] = none ∧ natural? ['-', '0'] = none := by
  decide

end Telemetry.Text
