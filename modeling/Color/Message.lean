import Mathlib.Data.UInt
import Mathlib.Tactic.Common

set_option autoImplicit false

namespace Color

-- Seq ids and event indices are counters handed out one by one; they are Nat
-- here, since the uint64_t of the source only wraps after 2^64 requests.
-- Hashes keep their machine type, and payloads are byte strings.
abbrev Hash := UInt64
abbrev Payload := List UInt8

structure Request where
  seq : Nat := 0
  ackBase : Nat := 1
  ackNew : List Nat := []
  hash : Option Hash := none
  payload : Payload := []
deriving DecidableEq, Repr

structure Response where
  seq : Nat := 0
  hash : Option Hash := none
  payload : Payload := []
  noOp : Bool := false
  recover : Bool := false
  recoverFrom : Nat := 0
deriving DecidableEq, Repr

-- The ids whose responses a request confirms: below the base, or listed.
def Request.Acknowledges (req : Request) (i : Nat) : Prop :=
  i < req.ackBase ∨ i ∈ req.ackNew

instance (req : Request) (i : Nat) : Decidable (req.Acknowledges i) :=
  inferInstanceAs (Decidable (_ ∨ _))

structure Mismatch where
  seq : Nat
  got : Hash
  expected : Hash
deriving DecidableEq, Repr

-- Both sides compare a piggybacked hash with their own entry only when both exist.
def hashMismatch (seq : Nat) (got expected : Option Hash) : Option Mismatch :=
  match got, expected with
  | some g, some e => if g ≠ e then some ⟨seq, g, e⟩ else none
  | _, _ => none

theorem hash_mismatch_none (seq : Nat) (got expected : Option Hash)
    (agree : ∀ g e, got = some g → expected = some e → g = e) : hashMismatch seq got expected = none := by
  cases got with
  | none => rfl
  | some g =>
      cases expected with
      | none => rfl
      | some e => simp [hashMismatch, agree g e rfl rfl]

end Color
