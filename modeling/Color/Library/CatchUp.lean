import Mathlib.Data.List.Basic
import Mathlib.Tactic.Common

set_option autoImplicit false

namespace CatchUp

variable {σ ε : Type}

-- A machine that counts the log entries it holds is sent the log up to some
-- length, and applies the entries it lacks.
def feed (apply : σ → ε → σ) (count : σ → Nat) (log : List ε) (reach : Nat) (s : σ) : σ :=
  ((log.take reach).drop (count s)).foldl apply s

section

variable (apply : σ → ε → σ) (count : σ → Nat) (log : List ε)

-- What the first part of a longer log leaves out, the longer log still has.
theorem missing_split (a b held : Nat) (longer : a ≤ b) :
    (log.take a).drop held ++ (log.take b).drop (max held (min a log.length)) = (log.take b).drop held := by
  have part : log.take a = (log.take b).take a := by rw [List.take_take, Nat.min_eq_left longer]
  rw [part, List.drop_take]
  by_cases short : a ≤ log.length
  · have reach : max held (min a log.length) = held + (a - held) := by omega
    rw [reach, ← List.drop_drop, List.take_append_drop]
  · have all : ((log.take b).drop held).length ≤ a - held := by
      rw [List.length_drop, List.length_take]
      omega
    have beyond : (log.take b).length ≤ max held (min a log.length) := by
      rw [List.length_take]
      omega
    rw [List.take_of_length_le all, List.drop_of_length_le beyond, List.append_nil]

variable (counts : ∀ s e, count (apply s e) = count s + 1)

include counts

theorem count_fold (entries : List ε) (s : σ) : count (entries.foldl apply s) = count s + entries.length := by
  induction entries generalizing s with
  | nil => rfl
  | cons e rest ih =>
      rw [List.foldl_cons, ih, counts, List.length_cons]
      omega

theorem count_feed (reach : Nat) (s : σ) :
    count (feed apply count log reach s) = max (count s) (min reach log.length) := by
  rw [feed, count_fold apply count counts, List.length_drop, List.length_take]
  omega

theorem feed_feed (a b : Nat) (s : σ) :
    feed apply count log b (feed apply count log a s) = feed apply count log (max a b) s := by
  have held := count_feed apply count log counts a s
  rw [feed, held]
  by_cases nearer : b ≤ a
  · have nothing : ((log.take b).drop (max (count s) (min a log.length))).length = 0 := by
      rw [List.length_drop, List.length_take]
      omega
    rw [List.length_eq_zero_iff.mp nothing, List.foldl_nil, Nat.max_eq_left nearer]
  · have longer := Nat.le_of_not_le nearer
    rw [Nat.max_eq_right longer, feed, feed, ← List.foldl_append, missing_split log a b (count s) longer]

theorem feed_all_nearer (reaches : List Nat) (furthest : Nat) (nearer : ∀ r ∈ reaches, r ≤ furthest) (s : σ) :
    reaches.foldl (fun s r => feed apply count log r s) (feed apply count log furthest s) =
      feed apply count log furthest s := by
  induction reaches with
  | nil => rfl
  | cons r rest ih =>
      rw [List.foldl_cons, feed_feed apply count log counts, Nat.max_eq_left (nearer r (by simp))]
      exact ih (fun other member => nearer other (by simp [member]))

-- Whatever the order and the repetitions, the furthest reach decides.
theorem feed_all (reaches : List Nat) (furthest : Nat) (member : furthest ∈ reaches)
    (nearer : ∀ r ∈ reaches, r ≤ furthest) (s : σ) :
    reaches.foldl (fun s r => feed apply count log r s) s = feed apply count log furthest s := by
  induction reaches generalizing s with
  | nil => exact absurd member (by simp)
  | cons r rest ih =>
      have restNearer : ∀ other ∈ rest, other ≤ furthest := fun other inside => nearer other (by simp [inside])
      rw [List.foldl_cons]
      cases List.mem_cons.mp member with
      | inl here =>
          rw [← here]
          exact feed_all_nearer apply count log counts rest furthest restNearer s
      | inr later =>
          rw [ih later restNearer, feed_feed apply count log counts, Nat.max_eq_right (nearer r (by simp))]

end

end CatchUp
