import Telemetry.Binary64.Basic

/-!
# JSON values

A number without fraction and exponent that fits 64 bits, signed or unsigned, is whole; any other
is a binary fraction. A whole number and a fraction are never the same value. The members of an
object in canonical form are in key order and have distinct names.
-/
namespace Telemetry

inductive Number where
  | whole (n : Int)
  | fraction (x : Binary64)
  deriving DecidableEq, Repr

def Number.same : Number → Number → Bool
  | .whole m, .whole n => m == n
  | .fraction x, .fraction y => x.same y
  | _, _ => false

inductive Json where
  | null
  | bool (b : Bool)
  | number (n : Number)
  | string (s : String)
  | array (items : List Json)
  | object (members : List (String × Json))
  deriving Repr, Inhabited

namespace Json

/-! ## Equality as values -/

mutual

/-- Whether two values in canonical form are the same value. -/
def same : Json → Json → Bool
  | .null, .null => true
  | .bool a, .bool b => a == b
  | .number m, .number n => m.same n
  | .string s, .string t => s == t
  | .array xs, .array ys => sameItems xs ys
  | .object xs, .object ys => sameMembers xs ys
  | _, _ => false

def sameItems : List Json → List Json → Bool
  | [], [] => true
  | x :: xs, y :: ys => same x y && sameItems xs ys
  | _, _ => false

def sameMembers : List (String × Json) → List (String × Json) → Bool
  | [], [] => true
  | (k, x) :: xs, (l, y) :: ys => k == l && same x y && sameMembers xs ys
  | _, _ => false

end

/-! ## Members -/

/-- The first member of that name. -/
def lookup (name : String) : List (String × Json) → Option Json
  | [] => none
  | (k, v) :: rest => if k = name then some v else lookup name rest

/-- A member of an object. -/
def member? (j : Json) (name : String) : Option Json :=
  match j with
  | .object members => lookup name members
  | _ => none

def isObject : Json → Bool
  | .object _ => true
  | _ => false

/-- Puts a member at its place in key order, over one of the same name. -/
def putMember (k : String) (v : Json) : List (String × Json) → List (String × Json)
  | [] => [(k, v)]
  | (k', v') :: rest =>
    match compare k k' with
    | .lt => (k, v) :: (k', v') :: rest
    | .eq => (k, v) :: rest
    | .gt => (k', v') :: putMember k v rest

/-- An object with members in key order; of two members of one name the later counts. -/
def ofMembers (members : List (String × Json)) : Json :=
  .object (members.foldl (fun acc m => putMember m.1 m.2 acc) [])

mutual

/-- The value with the members of every object in key order, the last of equal names kept. -/
def canonical : Json → Json
  | .array items => .array (canonicalItems items)
  | .object members => ofMembers (canonicalMembers members)
  | j => j

def canonicalItems : List Json → List Json
  | [] => []
  | j :: rest => canonical j :: canonicalItems rest

def canonicalMembers : List (String × Json) → List (String × Json)
  | [] => []
  | (k, j) :: rest => (k, canonical j) :: canonicalMembers rest

end

/-! ## Whole numbers -/

def nat (n : Nat) : Json := .number (.whole n)

/-- The value as a number below `2^64`. -/
def nat? : Json → Option Nat
  | .number (.whole n) => if 0 ≤ n ∧ n < Nat.pow 2 64 then some n.toNat else none
  | _ => none

def string? : Json → Option String
  | .string s => some s
  | _ => none

def bool? : Json → Option Bool
  | .bool b => some b
  | _ => none

theorem nat?_nat {n : Nat} (h : n < Nat.pow 2 64) : (nat n).nat? = some n := by
  simp only [nat, nat?]
  rw [if_pos ⟨Int.natCast_nonneg n, by exact_mod_cast h⟩, Int.toNat_natCast]

end Json

end Telemetry
