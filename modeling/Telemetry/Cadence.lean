/-!
# When samples are due

Deadlines lie a period apart. A sample taken late by more than the tolerance skips the deadlines
that have passed meanwhile and goes on in step with the first one. Times are in nanoseconds; clocks
and timers move in whole milliseconds. No sleep and no timeout is longer than the horizon. The period
of a loop may be: its first deadline is a whole period away, but from a deadline that it met its timer
goes on by the horizon at most.
-/
namespace Telemetry.Cadence

def millisecond : Nat := 1_000_000

/-- Thirty years of 365 days. -/
def horizon : Nat := 30 * 365 * 86400 * 1_000_000_000

/-- A duration as far as the horizon. -/
def bounded (ns : Nat) : Nat := min ns horizon

/-- How late a sample may be without skipping deadlines. -/
def tolerance : Nat := 5 * millisecond

/-- The deadline after `deadline` when the sample due at it is taken at `now`. -/
def next (period deadline now : Nat) : Nat :=
  if now ≤ deadline + tolerance then deadline + bounded period
  else now + period - (now - deadline) % period

/-- The first whole millisecond at or after a time, when a timer set for it goes off. -/
def firing (time : Nat) : Nat := time + (millisecond - time % millisecond) % millisecond

theorem le_firing (time : Nat) : time ≤ firing time := Nat.le_add_right _ _

theorem firing_mod (time : Nat) : firing time % millisecond = 0 := by
  simp only [firing, millisecond]
  omega

theorem firing_lt (time : Nat) : firing time < time + millisecond :=
  Nat.add_lt_add_left (Nat.mod_lt _ (by decide)) _

end Telemetry.Cadence
