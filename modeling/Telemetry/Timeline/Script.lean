import Telemetry.Engine.Server

/-!
# What callers do

A script is what a caller does next: it works on the engine itself, sends it a message and waits
for the answer, lets time pass, or is done.
-/
namespace Telemetry

/-- What a call comes to. -/
abbrev Outcome := Except Error Json

def Outcome.ofUnit : Except Error Unit → Outcome
  | .ok () => .ok .null
  | .error e => .error e

inductive Script where
  | done (o : Outcome)
  /-- Lets so many nanoseconds pass. -/
  | sleep (ns : Nat) (next : Script)
  /-- Works on the engine. -/
  | work (w : Work Outcome) (next : Outcome → Script)
  /-- Takes the number of a new transaction. -/
  | number (next : Nat → Script)
  /-- Sends a message and waits for the answer. -/
  | ask (m : Message) (next : Outcome → Script)
  /-- Tells the server to shut down and waits until it has. -/
  | halt (next : Script)

namespace Script

/-- Work on the engine and nothing else. -/
def direct (w : Work Outcome) : Script := .work w .done

/-- A change of the engine's state that takes no time. -/
def instant (f : Engine → Engine) : Script :=
  direct (.update f (.done (.ok .null)))

/-- A look at the engine's state. -/
def observe (f : Engine → Outcome) : Script := direct (.look fun e => .done (f e))

def send (m : Message) : Script := .ask m .done

/-- A change of the datastore that takes no time and may be refused. -/
def revise (f : Datastore Event → Except Error (Datastore Event)) : Script :=
  direct (.look fun e =>
    match f e.datastore with
    | .error err => .done (.error err)
    | .ok d => .update (fun e => { e with datastore := d }) (.done (.ok .null)))

/-! ## Callers of the engine -/

/-- One phase of a transaction. -/
def phase (s : Setup) (p : Phase) : Work Outcome := do return .ofUnit (← Engine.handle s p)

/-- Announces a transaction under a given number; the answer is that number. -/
def announceDirect (s : Setup) (txn : Nat) (changes : List Change) : Script :=
  .work (phase s (.change txn changes)) fun o => .done (o.map fun _ => Json.nat txn)

/-- Announces a transaction and, if it was accepted, says that it is done. -/
def commitDirect (s : Setup) (txn : Nat) (changes : List Change) : Script :=
  .work (phase s (.change txn changes)) fun
    | .error e => .done (.error e)
    | .ok _ => direct (phase s (.done txn))

/-! ## Clients of the datastore -/

/-- Announces a transaction; the answer is its number. -/
def announce (moduleName : String) (changes : List Change) : Script :=
  .number fun txn => .ask (.phase moduleName (.change txn changes)) fun
    | .error e => .done (.error e)
    | .ok _ => .done (.ok (Json.nat txn))

/-- Announces a transaction and, if it was accepted, says that it is done. -/
def commit (moduleName : String) (changes : List Change) : Script :=
  .number fun txn => .ask (.phase moduleName (.change txn changes)) fun
    | .error e => .done (.error e)
    | .ok _ => .ask (.phase moduleName (.done txn)) .done

/-- Polls a request. -/
def poll (moduleName : String) (id : Nat) : Script :=
  send (.call (pollOperation moduleName) (.object [("id", Json.nat id)]))

/-! ## Commands -/

/-- What a command line asks for. -/
inductive Command where
  | poll (id : Nat)
  | delete (id : Nat)
  | state
  /-- A first word that is no command. -/
  | unknown (word : String)
  | blank
  deriving DecidableEq, Repr

/-- The request id after a command. -/
def Command.id (words : List (List Char)) : Except Error Nat :=
  match words.head?.bind Text.natural? with
  | some id => .ok id
  | none => .error .requestIdExpected

/-- Reads a command: its name, and a request id for all but one. Further words do not matter. -/
def Command.parse (line : String) : Except Error Command :=
  match Text.words line.toList with
  | [] => .ok .blank
  | word :: rest =>
    match String.ofList word with
    | "poll" => (id rest).map .poll
    | "delete" => (id rest).map .delete
    | "state" => .ok .state
    | word => .ok (.unknown word)

/-- The lines a command prints. -/
def printed (lines : List String) : Json := .array (lines.map .string)

/-- Carries out a command line; the answer is what it prints. -/
def command (moduleName line : String) : Script :=
  match Command.parse line with
  | .error e => .done (.error e)
  | .ok (.poll id) =>
    .ask (.call (pollOperation moduleName) (.object [("id", Json.nat id)])) fun o =>
      .done (o.map fun _ => printed [])
  | .ok (.delete id) =>
    .number fun txn =>
      .ask (.phase moduleName (.change txn [.deletion (requestPath moduleName id)])) fun
        | .error e => .done (.error e)
        | .ok _ => .ask (.phase moduleName (.done txn)) fun o => .done (o.map fun _ => printed [])
  | .ok .state =>
    .ask (.read (requestsPath moduleName)) fun o => .done (o.map fun j => printed [j.compact])
  | .ok (.unknown _) => .done (.ok (printed []))
  | .ok .blank => .done (.ok (printed []))

end Script

end Telemetry
