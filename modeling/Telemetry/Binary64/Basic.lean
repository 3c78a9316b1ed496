/-!
# Finite binary floating point of 64 bits

A number is a sign and a pattern of 63 bits, exponent over fraction; patterns order like the
magnitudes they stand for. Arithmetic is exact on ratios of natural numbers with one rounding, to
the nearest pattern and to the even one of two equally near.
-/
namespace Telemetry

/-- A finite number: a pattern below `Binary64.limit` and a sign, so that zero has two forms. -/
structure Binary64 where
  negative : Bool
  pattern : Nat
  deriving DecidableEq, Repr

namespace Binary64

/-- The first pattern that stands for no finite number. -/
def limit : Nat := 2047 * Nat.pow 2 52

/-- The magnitude of a pattern is its significand times two to its exponent. -/
def significand (pattern : Nat) : Nat :=
  if pattern / Nat.pow 2 52 = 0 then pattern else Nat.pow 2 52 + pattern % Nat.pow 2 52

def exponent (pattern : Nat) : Int :=
  if pattern / Nat.pow 2 52 = 0 then -1074 else (pattern / Nat.pow 2 52 : Nat) - 1075

/-- A natural number times a power of two, as a ratio. -/
def ratio (m : Nat) (e : Int) : Nat × Nat := (m * Nat.pow 2 e.toNat, Nat.pow 2 (-e).toNat)

/-- The magnitude of a pattern as a ratio. -/
def toRatio (pattern : Nat) : Nat × Nat := ratio (significand pattern) (exponent pattern)

/-- The quotient, rounded to the nearest number and to the even one of two equally near. -/
def roundDiv (num den : Nat) : Nat :=
  let q := num / den
  let r := num % den
  if 2 * r < den then q else if den < 2 * r then q + 1 else q + q % 2

/-- The least exponent at which a quotient has a significand of at most 53 bits. -/
def exponentFor (num den : Nat) : Int :=
  let e := max ((num.log2 : Int) - den.log2 - 53) (-1074)
  let (n, d) := (num * Nat.pow 2 (-e).toNat, den * Nat.pow 2 e.toNat)
  if n / d < Nat.pow 2 53 then e else e + 1

/-- The pattern nearest to a quotient; `none` when the quotient is too large for every pattern. -/
def ofRatio? (num den : Nat) : Option Nat :=
  if num = 0 then some 0
  else
    let e := exponentFor num den
    let m := roundDiv (num * Nat.pow 2 (-e).toNat) (den * Nat.pow 2 e.toNat)
    let pattern := (e + 1074).toNat * Nat.pow 2 52 + m
    if pattern < limit then some pattern else none

def mul? (a b : Nat) : Option Nat :=
  let (n, d) := toRatio a
  let (n', d') := toRatio b
  ofRatio? (n * n') (d * d')

/-- The quotient of two magnitudes of which the second is at least one. -/
def div (a b : Nat) : Nat :=
  let (n, d) := toRatio a
  let (n', d') := toRatio b
  (ofRatio? (n * d') (d * n')).getD 0

/-- The pattern of a power of ten with an exponent up to 308. -/
def powerOfTen (k : Nat) : Nat := (ofRatio? (Nat.pow 10 k) 1).getD 0

/-- Divides by a power of ten in strides of 308 places, rounding at each. -/
def scaleDown (k : Nat) (pattern : Nat) : Nat :=
  if k ≤ 308 then div pattern (powerOfTen k)
  else if pattern = 0 then 0
  else scaleDown (k - 308) (div pattern (powerOfTen 308))
termination_by k

/-- The pattern for a whole number times a power of ten: the whole number is rounded first and the
product once more. `none` when the product is out of range. -/
def ofDecimal? (whole : Nat) (exponent : Int) : Option Nat := do
  let pattern ← ofRatio? whole 1
  if exponent < 0 then return scaleDown (-exponent).toNat pattern
  else if exponent ≤ 308 then mul? pattern (powerOfTen exponent.toNat)
  else if pattern = 0 then return 0
  else none

/-- Equality of the numbers: the two zeros are equal. -/
def same (a b : Binary64) : Bool :=
  a.pattern == b.pattern && (a.negative == b.negative || a.pattern == 0)

end Binary64

end Telemetry
