import Telemetry.Json.Record

/-!
# Configuration changes

A transaction changes nodes of the configuration. It is announced with all its changes, and then
either it is done or it is aborted.
-/
namespace Telemetry

inductive ChangeKind where
  | created
  | modified
  | deleted
  deriving DecidableEq, Repr

/-- One node changed by a transaction, with its data after and before. -/
structure Change where
  kind : ChangeKind
  path : String
  value : Option Json
  previous : Option Json
  deriving Repr

/-- What a server hears about transaction `txn`. -/
inductive Phase where
  | change (txn : Nat) (changes : List Change)
  | done (txn : Nat)
  | abort (txn : Nat)
  deriving Repr

def Phase.txn : Phase → Nat
  | change txn _ | done txn | abort txn => txn

namespace ChangeKind

def name : ChangeKind → String
  | created => "created"
  | modified => "modified"
  | deleted => "deleted"

def ofName? : String → Option ChangeKind
  | "created" => some created
  | "modified" => some modified
  | "deleted" => some deleted
  | _ => none

end ChangeKind

namespace Change

def creation (path : String) (value : Json) : Change := ⟨.created, path, some value, none⟩

def deletion (path : String) : Change := ⟨.deleted, path, none, none⟩

def ofJson? (j : Json) : Option Change := do
  let [kind, path, value, previous] ←
    Json.slots? ["kind", "path", "value", "prev_value"] j | none
  return {
    kind := ← kind.required (Json.variant? ChangeKind.ofName?)
    path := ← path.required Json.string?
    value := ← value.optional some
    previous := ← previous.optional some }

def toJson (c : Change) : Json :=
  .object [("kind", .string c.kind.name), ("path", .string c.path),
    ("prev_value", c.previous.getD .null), ("value", c.value.getD .null)]

end Change

end Telemetry
