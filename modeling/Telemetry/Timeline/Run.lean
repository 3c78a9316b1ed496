import Telemetry.Timeline.Turn

/-!
# The course of a timeline

The clock stands still as long as anyone has a turn to take, and then moves to the next time that
somebody waits for. Turns are taken in batches. A call in the foreground takes its turn between two
batches: before everybody else when the clock has moved, and otherwise after those who were there
first.
-/
namespace Telemetry.Timeline

/-- Moves the clock to the next time that somebody waits for. -/
def jump (t : Timeline) : Option Timeline :=
  match (t.parked.filterMap t.alarm?).min? with
  | none => none
  | some u => some { t with engine := { t.engine with now := max t.engine.now u } }.wake

def allFinished (t : Timeline) : Bool :=
  t.calls.all fun
    | .finished .. => true
    | _ => false

/-- Goes on until every call is finished and nobody has a turn to take, for at most `fuel` pieces of
turns. -/
def run : Nat → Timeline → Timeline
  | 0, t => t
  | fuel + 1, t =>
    match t.current, t.queue, t.batch with
    | some p, _, _ => run fuel ({ t with current := none }.take p).wake
    | none, p :: rest, n + 1 => run fuel ({ t with queue := rest, batch := n }.beginTurn p)
    | none, _, _ =>
      let t := t.regroup
      if t.current.isSome || !t.queue.isEmpty then run fuel t
      else if t.allFinished then t
      else
        match t.jump with
        | none => t
        | some t => run fuel t.regroup

/-- More pieces than any run takes in practice. -/
def patience : Nat := 1_000_000_000_000

def outcome? : Progress → Option (Nat × Outcome)
  | .finished time o => some (time, o)
  | _ => none

/-- Carries a script out in the foreground. -/
def perform (t : Timeline) (script : Script) : Timeline × Option (Nat × Outcome) :=
  let t := { t with
    calls := [.script script], alone := true, foreground := some ⟨.call 0, .ready⟩, batch := 0 }
  let t := run patience t
  (t, t.calls.head?.bind outcome?)

/-- Starts scripts all at once, in order, and runs until all of them are done. -/
def performAll (t : Timeline) (scripts : List Script) : Timeline × List (Nat × Outcome) :=
  let turns := (List.range scripts.length).map fun i => (⟨.call i, .ready⟩ : Parked)
  let t := { t with
    calls := scripts.map .script, alone := false, queue := t.queue ++ turns, batch := batchSize }
  let t := run patience t
  (t, t.calls.filterMap outcome?)

/-- Hands over what was sent and forgets it. -/
def collect (t : Timeline) : Timeline × List (Notification Event) :=
  let d := t.engine.datastore
  ({ t with engine := { t.engine with datastore := { d with sent := [] } } }, d.sent)

end Telemetry.Timeline
