import Telemetry.Json.Basic

/-!
# JSON numerals

A numeral without decimal point and exponent that fits 64 bits is whole. Any other is read as a
significand, the leading digits as far as they fit 64 bits, times a power of ten.
-/
namespace Telemetry.Json

/-- A numeral as written, its digits as numbers below ten. -/
structure Numeral where
  negative : Bool
  whole : List Nat
  /-- The digits after the decimal point, if there is one. -/
  decimals : Option (List Nat)
  /-- Sign and digits of the exponent, if there is one. -/
  exponent : Option (Bool × List Nat)
  deriving Repr

/-- The leading digits that keep the significand within 64 bits, and how many digits remain. -/
def takeWhole : Nat → List Nat → Nat × Nat
  | sig, [] => (sig, 0)
  | sig, d :: ds =>
    if sig * 10 + d < Nat.pow 2 64 then takeWhole (sig * 10 + d) ds else (sig, ds.length + 1)

/-- Decimals that keep the significand within 64 bits, and how many they are. -/
def takeDecimals : Nat → List Nat → Nat × Nat
  | sig, [] => (sig, 0)
  | sig, d :: ds =>
    if sig * 10 + d < Nat.pow 2 64 then
      let (s, n) := takeDecimals (sig * 10 + d) ds
      (s, n + 1)
    else (sig, 0)

def digitsValue (ds : List Nat) : Nat := ds.foldl (fun n d => n * 10 + d) 0

/-- The greatest exponent a numeral may have. -/
def exponentLimit : Nat := Nat.pow 2 31 - 1

/-- The number a numeral stands for; `none` when it is too large. -/
def Numeral.value? (n : Numeral) : Option Number := do
  let (sig, dropped) := takeWhole 0 n.whole
  let scaled (sig : Nat) (exponent : Int) : Option Number := do
    let pattern ← Binary64.ofDecimal? sig exponent
    return .fraction ⟨n.negative, pattern⟩
  match n.decimals, n.exponent with
  | none, none =>
    if dropped ≠ 0 then scaled sig dropped
    else if !n.negative then return .whole sig
    else if sig = 0 ∨ Nat.pow 2 63 < sig then scaled sig 0
    else return .whole (-sig)
  | decimals, exponent =>
    let (sig, taken) := takeDecimals sig (decimals.getD [])
    let start : Int := dropped - taken
    match exponent with
    | none => scaled sig start
    | some (down, ds) =>
      let e := digitsValue ds
      if exponentLimit < e then
        if sig ≠ 0 ∧ !down then none else return .fraction ⟨n.negative, 0⟩
      else scaled sig (if down then start - e else start + e)

end Telemetry.Json
