import Telemetry.Change
import Telemetry.Path.Parser
import Telemetry.Text.Natural

/-!
# Where changes land

Subscribe requests are the entries of the list `subscribe-request` in the container
`subscribe-requests` of the engine's module. Only whole entries are created and deleted; a change
below an entry says nothing new when its entry is created or deleted by the same transaction, and
deleting anything else is no concern of the engine. All other changes are refused.
-/
namespace Telemetry

/-- What a path means to the subscribe-request model. -/
inductive Target where
  | container
  | request (id : Nat)
  /-- A node below the entry of a request. -/
  | nested (id : Nat)
  | other
  deriving DecidableEq, Repr

namespace Target

def containerName : String := "subscribe-requests"

def listName : String := "subscribe-request"

/-- The request id in the predicates of a list entry. -/
def idOf? (keys : List (String × String)) : Option Nat := do
  let kv ← keys.find? fun kv => kv.1 == "id"
  Text.natural? kv.2.toList

def ofElems (moduleName : String) : List Path.Elem → Target
  | [] => other
  | top :: rest =>
    if top.moduleName ≠ some moduleName ∨ top.name ≠ containerName then other
    else
      match rest with
      | [] => container
      | entry :: below =>
        match idOf? entry.keys with
        | some id =>
          if entry.name ≠ listName then other
          else if below.isEmpty then request id
          else nested id
        | none => other

def ofPath (moduleName path : String) : Target :=
  match Path.parse path with
  | .error _ => other
  | .ok es => ofElems moduleName es

end Target

/-! ## The engine's own paths -/

/-- The operation that polls a request. -/
def pollOperation (moduleName : String) : String := s!"/{moduleName}:poll"

/-- The container of all requests. -/
def requestsPath (moduleName : String) : String := s!"/{moduleName}:{Target.containerName}"

/-- The list entry of one request. -/
def requestPath (moduleName : String) (id : Nat) : String :=
  s!"{requestsPath moduleName}/{Target.listName}[id='{id}']"

/-! ## What changes ask for -/

/-- What one change asks of the engine. -/
inductive Intent where
  | create (id : Nat) (payload : Option Json)
  | delete (id : Nat)
  | nothing
  deriving Repr

namespace Intent

/-- What a change at a target asks for, in a transaction that creates or deletes `whole`. -/
def ofChange (whole : List Nat) (target : Target) (c : Change) : Except Error Intent :=
  match target, c.kind with
  | .request id, .created => .ok (create id c.value)
  | .request id, .deleted => .ok (delete id)
  | .request _, .modified => .error (.modificationUnsupported c.path)
  | .nested _, .modified => .error (.modificationUnsupported c.path)
  | .nested id, _ => if id ∈ whole then .ok nothing else .error (.modificationUnsupported c.path)
  | .container, .created => .ok nothing
  | _, .deleted => .ok nothing
  | _, _ => .error (.changeUnsupported c.path)

/-- The requests that a transaction creates or deletes as a whole. -/
def wholeRequests (moduleName : String) (cs : List Change) : List Nat :=
  cs.filterMap fun c =>
    match c.kind, Target.ofPath moduleName c.path with
    | .modified, _ => none
    | _, .request id => some id
    | _, _ => none

def ofEach (moduleName : String) (whole : List Nat) : List Change → Except Error (List Intent)
  | [] => .ok []
  | c :: cs =>
    match ofChange whole (Target.ofPath moduleName c.path) c with
    | .error e => .error e
    | .ok i =>
      match ofEach moduleName whole cs with
      | .error e => .error e
      | .ok is => .ok (i :: is)

/-- What the changes of a transaction ask for, one by one. -/
def ofChanges (moduleName : String) (cs : List Change) : Except Error (List Intent) :=
  ofEach moduleName (wholeRequests moduleName cs) cs

end Intent

end Telemetry
