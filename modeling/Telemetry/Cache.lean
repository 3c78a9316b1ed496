import Telemetry.Error
import Telemetry.Json.Basic
import Telemetry.SortedMap

/-!
# The cache of last reported leaves

Values by request, subscription and leaf path, each with the time it was recorded. The cache is
kept in buckets, one per subscription within one per request; a bucket goes with its last leaf.
-/
namespace Telemetry

/-- A leaf value and when it was recorded. -/
structure Observed where
  value : Json
  time : Nat
  deriving Repr

abbrev Bucket := SortedMap String Observed

structure Cache where
  buckets : SortedMap Nat (SortedMap Nat Bucket)

namespace Cache

def empty : Cache := ⟨.empty⟩

/-- The buckets of a request, empty when it has none. -/
def ofRequest (c : Cache) (r : Nat) : SortedMap Nat Bucket := (c.buckets.find? r).getD .empty

/-- The leaves of a subscription, empty when it has none. -/
def bucket (c : Cache) (r s : Nat) : Bucket := ((c.ofRequest r).find? s).getD .empty

def get? (c : Cache) (r s : Nat) (path : String) : Option Observed :=
  ((c.buckets.find? r).bind (·.find? s)).bind (·.find? path)

def get (c : Cache) (r s : Nat) (path : String) : Except Error Observed :=
  match c.get? r s path with
  | some o => .ok o
  | none => .error (.leafUnknown r s path)

/-- Records a value seen at a time. -/
def set (c : Cache) (now : Nat) (r s : Nat) (path : String) (value : Json) : Cache :=
  ⟨c.buckets.insert r ((c.ofRequest r).insert s ((c.bucket r s).insert path ⟨value, now⟩))⟩

/-- The cache with the buckets of one request, none if they are empty. -/
def putRequest (c : Cache) (r : Nat) (subs : SortedMap Nat Bucket) : Cache :=
  if subs.isEmpty then ⟨c.buckets.erase r⟩ else ⟨c.buckets.insert r subs⟩

/-- Drops one leaf. -/
def delete? (c : Cache) (r s : Nat) (path : String) : Option Cache := do
  let subs ← c.buckets.find? r
  let leaves ← subs.find? s
  let _ ← leaves.find? path
  let rest := leaves.erase path
  return c.putRequest r (if rest.isEmpty then subs.erase s else subs.insert s rest)

def delete (c : Cache) (r s : Nat) (path : String) : Except Error Cache :=
  match c.delete? r s path with
  | some c => .ok c
  | none => .error (.leafUnknown r s path)

/-- Drops one leaf if it is there. -/
def drop (c : Cache) (r s : Nat) (path : String) : Cache := (c.delete? r s path).getD c

/-- The leaf paths of a subscription, in order. -/
def list (c : Cache) (r s : Nat) : List String := (c.bucket r s).keys

/-- The subscriptions of a request that have leaves, in order. -/
def subscriptions (c : Cache) (r : Nat) : List Nat := (c.ofRequest r).keys

/-- Drops every leaf of a subscription. -/
def removeSubscription (c : Cache) (r s : Nat) : Cache :=
  match c.buckets.find? r with
  | none => c
  | some subs => c.putRequest r (subs.erase s)

/-- Drops every leaf of a request. -/
def removeRequest (c : Cache) (r : Nat) : Cache := ⟨c.buckets.erase r⟩

def isEmpty (c : Cache) : Bool := c.buckets.isEmpty

end Cache

end Telemetry
