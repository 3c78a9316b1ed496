import Telemetry.Binary64.Basic

/-!
# The fewest digits that read back

A magnitude is written with the fewest significant decimal digits among the decimals that round to
it; of two such decimals of one length the nearer is taken.
-/
namespace Telemetry.Binary64

/-- The place of the first digit of a ratio: the least `k` from `start` up with `num / den < 10^k`,
within `fuel` steps. -/
def firstPlace (num den : Nat) : Nat → Int → Int
  | 0, start => start
  | fuel + 1, start =>
    if num * Nat.pow 10 (-start).toNat < den * Nat.pow 10 start.toNat then start
    else firstPlace num den fuel (start + 1)

/-- What rounds to one pattern, in quarters of its unit: a quarter counts `2^(exponent - 2)`. -/
structure Neighbourhood where
  low : Nat
  value : Nat
  high : Nat
  /-- The ends belong to it. -/
  closed : Bool

/-- The unit below a power of two is half the unit above it. -/
def neighbourhood (pattern : Nat) : Neighbourhood :=
  let m := significand pattern
  let below := if m = Nat.pow 2 52 ∧ pattern / Nat.pow 2 52 > 1 then 1 else 2
  ⟨4 * m - below, 4 * m, 4 * m + 2, m % 2 == 0⟩

/-- The nearest of the two neighbours on a decimal grid that round to the value, if any. The ratio
`num / den` turns quarters into steps of the grid. -/
def onGrid? (n : Neighbourhood) (num den : Nat) : Option Nat :=
  let inside (c : Nat) : Bool :=
    let x := c * den
    if n.closed then n.low * num ≤ x && x ≤ n.high * num else n.low * num < x && x < n.high * num
  let q := n.value * num / den
  let down := n.value * num - q * den
  let up := (q + 1) * den - n.value * num
  match inside q, inside (q + 1) with
  | true, true => some (if down < up then q else if up < down then q + 1 else q + q % 2)
  | true, false => some q
  | false, true => some (q + 1)
  | false, false => none

/-- Tries grids from coarse to fine: `step` is the exponent of ten of the present one. -/
def search (n : Neighbourhood) (num den : Nat) : Nat → Int → Nat × Int
  | 0, step => (0, step)
  | fuel + 1, step =>
    match onGrid? n (num * Nat.pow 10 (-step).toNat) (den * Nat.pow 10 step.toNat) with
    | some c => (c, step)
    | none => search n num den fuel (step - 1)

/-- Moves the zeros at the end of a number into its exponent of ten. -/
def stripZeros : Nat → Nat → Int → Nat × Int
  | 0, c, k => (c, k)
  | fuel + 1, c, k => if c % 10 = 0 ∧ c ≠ 0 then stripZeros fuel (c / 10) (k + 1) else (c, k)

/-- The shortest decimal of a positive magnitude: `c * 10^k` with `c` not divisible by ten. -/
def shortest (pattern : Nat) : Nat × Int :=
  let (num, den) := ratio 1 (exponent pattern - 2)
  let n := neighbourhood pattern
  let place := firstPlace (n.value * num) den 700 (-330)
  let (c, k) := search n num den 18 (place - 1)
  stripZeros 20 c k

end Telemetry.Binary64
