import Telemetry.Json.Printer
import Telemetry.Json.Record

/-!
# Events

What a collector is told: a leaf has a value, a leaf is gone, a snapshot is complete. A leaf value
travels as its JSON text.
-/
namespace Telemetry

inductive Event where
  | update (request entry : Nat) (path : String) (data : String)
  | delete (request entry : Nat) (path : String)
  | sync (request : Nat)
  deriving DecidableEq, Repr

namespace Event

open Json (slots?)

/-- The event for a leaf with a value. -/
def ofLeaf (request entry : Nat) (path : String) (value : Json) : Event :=
  update request entry path value.compact

def request : Event → Nat
  | update r .. | delete r .. | sync r => r

def toJson : Event → Json
  | update r s path data => .object [("json-data", .string data), ("path", .string path),
      ("request-id", Json.nat r), ("subscription-id", Json.nat s), ("type", .string "UPDATE")]
  | delete r s path => .object [("path", .string path), ("request-id", Json.nat r),
      ("subscription-id", Json.nat s), ("type", .string "DELETE")]
  | sync r => .object [("request-id", Json.nat r), ("type", .string "SYNC_RESPONSE")]

/-- The event of that type with those fields. -/
def ofFields? (type : String) (fields : Json) : Option Event :=
  match type with
  | "UPDATE" => do
    let [r, s, path, data] ←
      slots? ["request-id", "subscription-id", "path", "json-data"] fields | none
    return update (← r.required Json.nat?) (← s.required Json.nat?) (← path.required Json.string?)
      (← data.required Json.string?)
  | "DELETE" => do
    let [r, s, path] ← slots? ["request-id", "subscription-id", "path"] fields | none
    return delete (← r.required Json.nat?) (← s.required Json.nat?) (← path.required Json.string?)
  | "SYNC_RESPONSE" => do
    let [r] ← slots? ["request-id"] fields | none
    return sync (← r.required Json.nat?)
  | _ => none

/-- Reads an event: its type is the member `type`, or comes first in an array. -/
def ofJson? : Json → Option Event
  | .object members =>
    match Json.lookup "type" members with
    | some (.string type) => ofFields? type (.object members)
    | _ => none
  | .array (.string type :: fields) => ofFields? type (.array fields)
  | _ => none

end Event

end Telemetry
