import Telemetry.Error
import Telemetry.SortedMap

/-!
# The registry of subscribe requests

At most one entry per request id; adding does not replace and deleting wants something to delete.
-/
namespace Telemetry

/-- What is registered under which request id. -/
structure Registry (α : Type) where
  entries : SortedMap Nat α

namespace Registry

variable {α : Type}

def empty : Registry α := ⟨.empty⟩

def find? (g : Registry α) (id : Nat) : Option α := g.entries.find? id

def contains (g : Registry α) (id : Nat) : Bool := g.entries.contains id

def get (g : Registry α) (id : Nat) : Except Error α :=
  match g.find? id with
  | some a => .ok a
  | none => .error (.requestUnknown id)

def add (g : Registry α) (id : Nat) (a : α) : Except Error (Registry α) :=
  if g.contains id then .error (.requestRegistered id) else .ok ⟨g.entries.insert id a⟩

def delete (g : Registry α) (id : Nat) : Except Error (α × Registry α) :=
  match g.find? id with
  | some a => .ok (a, ⟨g.entries.erase id⟩)
  | none => .error (.requestUnknown id)

/-- The registered ids, in order. -/
def ids (g : Registry α) : List Nat := g.entries.keys

end Registry

end Telemetry
