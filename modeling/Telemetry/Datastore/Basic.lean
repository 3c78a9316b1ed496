import Telemetry.Json.Basic
import Telemetry.Path.Parser
import Telemetry.SortedMap

/-!
# The datastore held in memory

It has one data tree per top-level node, under the bare name of the node, and keeps what was sent.
Reads can be delayed and made to fail, one path can be given a tree of its own, and sending can be
made to fail. Servers are reached through endpoints, which belong to `Telemetry.Datastore.Exchange`.
-/
namespace Telemetry

/-- Something sent to the collectors listening on a topic. -/
structure Notification (ε : Type) where
  time : Nat
  topic : String
  event : ε
  deriving Repr, DecidableEq

/-- Where a server receives messages of one kind. -/
abbrev Endpoint := Nat

structure Datastore (ε : Type) where
  /-- Data by the bare name of the top-level node. -/
  trees : SortedMap String Json
  /-- How long a read takes, in nanoseconds. -/
  readDelay : Option Nat
  failReads : Bool
  /-- Paths whose reads fail. -/
  brokenPaths : List String
  /-- Paths whose reads give a tree of their own. -/
  fixedTrees : SortedMap String Json
  failSends : Bool
  /-- Why nothing can be sent at all. -/
  refusal : Option String
  /-- What was sent, the oldest first. -/
  sent : List (Notification ε)
  /-- For every watcher what was sent since it last looked, the newest watcher last. -/
  watchers : List (List (Notification ε))
  /-- Who takes the changes of a module, the calls of an operation and the reads below a path. -/
  subscribers : SortedMap String Endpoint
  operations : SortedMap String Endpoint
  readers : List (String × Endpoint)
  /-- Endpoints nobody receives at any more. -/
  closed : List Endpoint
  endpoints : Nat
  transactions : Nat

namespace Datastore

variable {ε : Type}

def empty : Datastore ε where
  trees := .empty
  readDelay := none
  failReads := false
  brokenPaths := []
  fixedTrees := .empty
  failSends := false
  refusal := none
  sent := []
  watchers := []
  subscribers := .empty
  operations := .empty
  readers := []
  closed := []
  endpoints := 0
  transactions := 0

instance : Inhabited (Datastore ε) := ⟨empty⟩

/-! ## Data -/

/-- Replaces the tree of the top-level node that a path begins with. -/
def setTree (d : Datastore ε) (path : String) (tree : Json) : Datastore ε :=
  match Path.topLevel? path with
  | some (_, name) => { d with trees := d.trees.insert name tree }
  | none => d

def removeTree (d : Datastore ε) (path : String) : Datastore ε :=
  match Path.topLevel? path with
  | some (_, name) => { d with trees := d.trees.erase name }
  | none => d

/-- Sets the tree of every member; `null` removes one. -/
def load (d : Datastore ε) : Json → Except Error (Datastore ε)
  | .object members => .ok <| members.foldl (fun d m =>
      match m.2 with
      | .null => d.removeTree m.1
      | tree => d.setTree m.1 tree) d
  | _ => .error .dataNotObject

/-- The tree that holds a path, under the bare name of its top-level node. -/
def tree? (d : Datastore ε) (path : String) : Except Error (Option Json) :=
  if d.failReads then .error (.readFailed path)
  else
    match Path.topLevel? path with
    | none => .error (.malformedPath path)
    | some (_, name) => .ok ((d.trees.find? name).map fun tree => .object [(name, tree)])

/-- What a read of a path gives once its time has come. -/
def read (d : Datastore ε) (path : String) : Except Error (Option Json) :=
  match d.tree? path with
  | .error e => .error e
  | .ok tree =>
    if path ∈ d.brokenPaths then .error (.readBroken path)
    else
      match d.fixedTrees.find? path with
      | some fixed => .ok (some fixed)
      | none => .ok tree

/-- Makes the reads of one path fail, or stops that. -/
def breakPath (d : Datastore ε) (path : String) (broken : Bool) : Datastore ε :=
  let others := d.brokenPaths.filter (· ≠ path)
  { d with brokenPaths := if broken then path :: others else others }

/-- Gives the reads of one path a tree of their own, or stops that. -/
def fixTree (d : Datastore ε) (path : String) (tree : Option Json) : Datastore ε :=
  { d with fixedTrees := match tree with
      | some tree => d.fixedTrees.insert path tree
      | none => d.fixedTrees.erase path }

/-! ## Notifications -/

/-- Sends an event: it is kept, and every watcher sees it. -/
def send (d : Datastore ε) (now : Nat) (topic : String) (event : ε) :
    Except Error (Datastore ε) :=
  match d.refusal with
  | some reason => .error (.sendRefused reason)
  | none =>
    if d.failSends then .error (.topicUnavailable topic)
    else
      let n : Notification ε := ⟨now, topic, event⟩
      .ok { d with sent := d.sent ++ [n], watchers := d.watchers.map (· ++ [n]) }

end Datastore

end Telemetry
