/-!
# Spans of time in messages

A span is shown in its largest unit out of `s`, `ms`, `µs` and `ns` that is not larger than it,
with as many decimals as it needs and none to spare.
-/
namespace Telemetry.Text

/-- The decimals of `part / 10^places`, without zeros at the end. -/
def decimalsText (part places : Nat) : List Char :=
  let ds := Nat.toDigits 10 part
  let padded := List.replicate (places - ds.length) '0' ++ ds
  (padded.reverse.dropWhile (· = '0')).reverse

/-- `whole` units and `part / 10^places` of one. -/
def inUnit (whole part places : Nat) (unit : String) : String :=
  let ds := decimalsText part places
  toString whole ++ (if ds.isEmpty then "" else "." ++ String.ofList ds) ++ unit

/-- A span of so many nanoseconds. -/
def duration (ns : Nat) : String :=
  if 1_000_000_000 ≤ ns then inUnit (ns / 1_000_000_000) (ns % 1_000_000_000) 9 "s"
  else if 1_000_000 ≤ ns then inUnit (ns / 1_000_000) (ns % 1_000_000) 6 "ms"
  else if 1000 ≤ ns then inUnit (ns / 1000) (ns % 1000) 3 "µs"
  else inUnit ns 0 0 "ns"

example : duration 5000000000 = "5s" ∧ duration 1500000000 = "1.5s" ∧ duration 0 = "0ns" := by
  decide

end Telemetry.Text
