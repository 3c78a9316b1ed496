import Telemetry.Json.Basic

/-!
# Records in JSON

A record is an object with a member per field, or an array of its fields in order that may end
early. Unknown members are ignored, a field given twice is a fault, and so is a field too many.
-/
namespace Telemetry.Json

/-- What a document says about one field of a record. -/
inductive Slot where
  | given (j : Json)
  /-- No member of an object has the field's name. -/
  | absent
  /-- The array ends before the field. -/
  | cutOff
  deriving Repr

def slot (name : String) (members : List (String × Json)) : Slot :=
  match lookup name members with
  | some j => .given j
  | none => .absent

/-- Whether a field is given more than once. -/
def repeated (names : List String) (members : List (String × Json)) : Bool :=
  names.any fun n => 1 < (members.filter fun m => m.1 == n).length

/-- The fields of a record, in the order of their names. -/
def slots? (names : List String) : Json → Option (List Slot)
  | .object members =>
    if repeated names members then none else some (names.map fun n => slot n members)
  | .array items =>
    if names.length < items.length then none
    else some (items.map .given ++ List.replicate (names.length - items.length) .cutOff)
  | _ => none

namespace Slot

def required (read : Json → Option α) : Slot → Option α
  | given j => read j
  | _ => none

/-- A field that may be left out of an object, or be `null`. -/
def optional (read : Json → Option α) : Slot → Option (Option α)
  | given .null => some none
  | given j => (read j).map some
  | absent => some none
  | cutOff => none

/-- A field that may be left out of an object or array, or be `null`. -/
def free (read : Json → Option α) : Slot → Option (Option α)
  | cutOff => some none
  | s => s.optional read

/-- A field that has a value when it is left out. -/
def withDefault (read : Json → Option α) (value : α) : Slot → Option α
  | given j => read j
  | _ => some value

end Slot

/-- An array of values of one type. -/
def list? (read : Json → Option α) : Json → Option (List α)
  | .array items => items.mapM read
  | _ => none

/-- A name out of a fixed set, alone or as the only member of an object, with the value `null`. -/
def variant? (ofName? : String → Option α) : Json → Option α
  | .string s => ofName? s
  | .object [(s, .null)] => ofName? s
  | _ => none

/-- A member that is written only when it has a value. -/
def member (name : String) (j : Option Json) : List (String × Json) :=
  (j.map fun j => (name, j)).toList

end Telemetry.Json
