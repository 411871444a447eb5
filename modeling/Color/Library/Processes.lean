import Mathlib.Data.List.Perm.Basic
import Mathlib.Tactic.Common

set_option autoImplicit false

namespace Processes

variable {σ τ α : Type}

-- A fixed set of processes by number, each in some local state; one moves at a time.

theorem set_split (procs : List σ) (i : Nat) (old new : σ) (at_ : procs[i]? = some old) :
    procs = procs.take i ++ old :: procs.drop (i + 1) ∧ procs.set i new = procs.take i ++ new :: procs.drop (i + 1) := by
  obtain ⟨inside, value⟩ := List.getElem?_eq_some_iff.mp at_
  constructor
  · have whole := List.take_append_drop i procs
    rw [List.drop_eq_getElem_cons inside, value] at whole
    exact whole.symm
  · exact List.set_eq_take_append_cons_drop.trans (if_pos inside)

-- What the processes hold between them.
theorem held_set (holds : σ → List τ) (procs : List σ) (i : Nat) (old new : σ) (at_ : procs[i]? = some old) :
    ((procs.set i new).flatMap holds ++ holds old).Perm (procs.flatMap holds ++ holds new) := by
  obtain ⟨before, after⟩ := set_split procs i old new at_
  have shape (one other : σ) : ((procs.take i ++ one :: procs.drop (i + 1)).flatMap holds ++ holds other).Perm
      (((procs.take i).flatMap holds ++ (procs.drop (i + 1)).flatMap holds) ++ (holds one ++ holds other)) := by
    rw [List.flatMap_append, List.flatMap_cons, List.append_assoc, List.append_assoc, List.append_assoc]
    apply List.Perm.append_left
    rw [← List.append_assoc, ← List.append_assoc]
    exact List.perm_append_comm.append_right _
  have back := (shape old new).symm
  rw [← before] at back
  have swapped := List.Perm.append_left ((procs.take i).flatMap holds ++ (procs.drop (i + 1)).flatMap holds)
    (List.perm_append_comm : (holds new ++ holds old).Perm (holds old ++ holds new))
  exact ((after ▸ shape new old).trans swapped).trans back

-- ---- quantities ----

-- Summed over the processes, or over the actions of a run.
def total (weight : σ → Nat) : List σ → Nat
  | [] => 0
  | p :: rest => weight p + total weight rest

theorem total_append (weight : σ → Nat) (left right : List σ) :
    total weight (left ++ right) = total weight left + total weight right := by
  induction left with
  | nil => exact (Nat.zero_add _).symm
  | cons p rest ih =>
      rw [List.cons_append, total, total, ih]
      omega

theorem total_set (weight : σ → Nat) (procs : List σ) (i : Nat) (old new : σ) (at_ : procs[i]? = some old) :
    total weight (procs.set i new) + weight old = total weight procs + weight new := by
  obtain ⟨before, after⟩ := set_split procs i old new at_
  have left : total weight (procs.set i new) = _ := congrArg (total weight) after
  have right : total weight procs = _ := congrArg (total weight) before
  rw [total_append, total] at left right
  omega

theorem total_zero_iff (weight : σ → Nat) (procs : List σ) :
    total weight procs = 0 ↔ ∀ p ∈ procs, weight p = 0 := by
  induction procs with
  | nil => exact ⟨fun _ _ none => absurd none List.not_mem_nil, fun _ => rfl⟩
  | cons p rest ih => rw [List.forall_mem_cons, ← ih, total, Nat.add_eq_zero_iff]

theorem total_map_le (weight bound : σ → Nat) (f : σ → σ) (procs : List σ) (each : ∀ p, weight (f p) ≤ weight p + bound p) :
    total weight (procs.map f) ≤ total weight procs + total bound procs := by
  induction procs with
  | nil => exact Nat.le_refl 0
  | cons p rest ih =>
      have here := each p
      rw [List.map_cons, total, total, total]
      omega

theorem total_const (n : Nat) (procs : List σ) : total (fun _ => n) procs = procs.length * n := by
  induction procs with
  | nil => exact (Nat.zero_mul n).symm
  | cons p rest ih => rw [total, ih, List.length_cons, Nat.succ_mul, Nat.add_comm]

-- What the actions of a run cost is bounded by what was there and what they brought in.
theorem run_potential (step : σ → α → Option σ) (potential : σ → Nat) (cost gain : α → Nat)
    (each : ∀ s a s', step s a = some s' → potential s' + cost a ≤ potential s + gain a) (actions : List α) (s s' : σ)
    (run : actions.foldlM step s = some s') : potential s' + total cost actions ≤ potential s + total gain actions := by
  induction actions generalizing s with
  | nil =>
      cases run
      exact Nat.le_refl _
  | cons a rest ih =>
      rw [List.foldlM_cons] at run
      obtain ⟨t, taken, onward⟩ := Option.bind_eq_some_iff.mp run
      have first := each s a t taken
      have others := ih t onward
      rw [total, total]
      omega

-- ---- who is there ----

theorem new_mem_set (procs : List σ) (i : Nat) (old new : σ) (at_ : procs[i]? = some old) : new ∈ procs.set i new :=
  List.mem_set (List.getElem?_eq_some_iff.mp at_).1 new

end Processes
