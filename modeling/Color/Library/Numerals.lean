import Mathlib.Data.UInt
import Mathlib.Tactic.Common

set_option autoImplicit false

-- Decimal numerals as byte strings, written and read as the C library does.
namespace Numerals

def isdigit (b : UInt8) : Bool := 48 ≤ b && b ≤ 57

-- ' ', \t, \n, \v, \f, \r in the C locale
def isspace (b : UInt8) : Bool := b = 32 || (9 ≤ b && b ≤ 13)

def value (digits : List UInt8) : Nat := digits.foldl (fun n b => 10 * n + (b.toNat - 48)) 0

def written (n : Nat) : List UInt8 := (Nat.toDigits 10 n).map (fun c => c.toNat.toUInt8)

-- strtoull(s, nullptr, 10): blanks, a sign, digits; too large a value saturates
-- and a minus sign negates modulo 2^64.
def strtoull (s : List UInt8) : Nat :=
  let text := s.dropWhile isspace
  let negative := text.head? = some 45
  let digits := if negative ∨ text.head? = some 43 then text.tail else text
  let n := value (digits.takeWhile isdigit)
  if n ≥ 2 ^ 64 then 2 ^ 64 - 1 else if negative then (2 ^ 64 - n) % 2 ^ 64 else n

theorem isdigit_iff (b : UInt8) : isdigit b = true ↔ 48 ≤ b.toNat ∧ b.toNat ≤ 57 := by
  simp [isdigit, UInt8.le_iff_toNat_le]

theorem digit_byte (d : Nat) (small : d < 10) : (d.digitChar.toNat.toUInt8).toNat = 48 + d := by
  rw [Nat.toNat_digitChar_of_lt_ten small]
  simp
  omega

theorem value_concat (digits : List UInt8) (b : UInt8) : value (digits ++ [b]) = 10 * value digits + (b.toNat - 48) := by
  simp [value, List.foldl_append]

theorem written_small (n : Nat) (small : n < 10) : written n = [n.digitChar.toNat.toUInt8] := by
  rw [written, Nat.toDigits_of_lt_base small]
  rfl

theorem written_large (n : Nat) (large : 10 ≤ n) :
    written n = written (n / 10) ++ [(n % 10).digitChar.toNat.toUInt8] := by
  rw [written, Nat.toDigits_of_base_le (by decide) large, List.map_append]
  rfl

theorem written_ne_nil (n : Nat) : written n ≠ [] := by
  rw [written, ne_eq, List.map_eq_nil_iff]
  exact Nat.toDigits_ne_nil

theorem written_digits (n : Nat) : ∀ b ∈ written n, isdigit b = true := by
  induction n using Nat.strongRecOn with
  | ind n ih =>
      intro b member
      have last : ∀ d, d < 10 → b = d.digitChar.toNat.toUInt8 → isdigit b = true := by
        intro d small same
        rw [isdigit_iff, same, digit_byte d small]
        omega
      by_cases small : n < 10
      · rw [written_small n small] at member
        exact last n small (List.mem_singleton.mp member)
      · rw [written_large n (by omega)] at member
        cases List.mem_append.mp member with
        | inl earlier => exact ih (n / 10) (by omega) b earlier
        | inr final => exact last (n % 10) (by omega) (List.mem_singleton.mp final)

theorem value_written (n : Nat) : value (written n) = n := by
  induction n using Nat.strongRecOn with
  | ind n ih =>
      by_cases small : n < 10
      · rw [written_small n small, ← List.nil_append [_], value_concat, digit_byte n small]
        simp [value]
      · rw [written_large n (by omega), value_concat, ih (n / 10) (by omega), digit_byte (n % 10) (by omega)]
        omega

-- What follows a run of digits ends it.
theorem take_digits (digits rest : List UInt8) (all : ∀ b ∈ digits, isdigit b = true)
    (stop : ∀ b tail, rest = b :: tail → isdigit b = false) : (digits ++ rest).takeWhile isdigit = digits := by
  rw [List.takeWhile_append_of_pos all]
  cases rest with
  | nil => simp
  | cons b tail => simp [stop b tail rfl]

theorem digit_not_space (b : UInt8) (digit : isdigit b = true) : isspace b = false := by
  rw [isdigit_iff] at digit
  simp [isspace, ← UInt8.toNat_inj, UInt8.le_iff_toNat_le]
  omega

theorem strtoull_digits (digits rest : List UInt8) (nonempty : digits ≠ []) (all : ∀ b ∈ digits, isdigit b = true)
    (fits : value digits < 2 ^ 64) (stop : ∀ b tail, rest = b :: tail → isdigit b = false) :
    strtoull (digits ++ rest) = value digits := by
  have taken := take_digits digits rest all stop
  cases digits with
  | nil => exact absurd rfl nonempty
  | cons b tail =>
      have first : isdigit b = true := all b List.mem_cons_self
      have bounds := (isdigit_iff b).mp first
      have unsigned : b ≠ 45 ∧ b ≠ 43 := by
        constructor <;> intro sign <;> simp [sign] at bounds
      have text : (b :: (tail ++ rest)).dropWhile isspace = b :: (tail ++ rest) := by
        simp [digit_not_space b first]
      have size : ¬ value (b :: tail) ≥ 2 ^ 64 := by omega
      rw [List.cons_append] at taken ⊢
      simp only [strtoull, text, List.head?_cons, Option.some.injEq, unsigned.1, unsigned.2, or_self, if_false]
      rw [taken, if_neg size]

theorem strtoull_written (n : Nat) (rest : List UInt8) (fits : n < 2 ^ 64)
    (stop : ∀ b tail, rest = b :: tail → isdigit b = false) : strtoull (written n ++ rest) = n := by
  have same := value_written n
  have small : value (written n) < 2 ^ 64 := by
    rw [same]
    exact fits
  rw [strtoull_digits (written n) rest (written_ne_nil n) (written_digits n) small stop, same]

theorem strtoull_blank (before s : List UInt8) (blank : ∀ b ∈ before, isspace b = true) :
    strtoull (before ++ s) = strtoull s := by
  simp only [strtoull, List.dropWhile_append_of_pos blank]

end Numerals
