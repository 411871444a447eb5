import Mathlib.Data.List.Perm.Basic
import Mathlib.Data.List.TakeWhile
import Mathlib.Tactic.Common

set_option autoImplicit false

namespace Multimap

variable {α : Type}

-- A multimap with keys in Nat, as the list of its entries in iteration order.
abbrev Ordered (entries : List (Nat × α)) : Prop := entries.Pairwise (fun a b => a.1 ≤ b.1)

-- A new entry goes behind those that have its key.
def emplace (key : Nat) (value : α) : List (Nat × α) → List (Nat × α)
  | [] => [(key, value)]
  | entry :: rest => if key < entry.1 then (key, value) :: entry :: rest else entry :: emplace key value rest

-- What iteration from the front meets up to a key, and what it leaves.
def upto (bound : Nat) (entries : List (Nat × α)) : List (Nat × α) := entries.takeWhile (fun entry => entry.1 ≤ bound)
def beyond (bound : Nat) (entries : List (Nat × α)) : List (Nat × α) := entries.dropWhile (fun entry => entry.1 ≤ bound)

theorem emplace_perm (key : Nat) (value : α) (entries : List (Nat × α)) :
    (emplace key value entries).Perm ((key, value) :: entries) := by
  induction entries with
  | nil => exact .refl _
  | cons entry rest ih =>
      rw [emplace]
      split
      · exact .refl _
      · exact (ih.cons entry).trans (.swap _ _ _)

@[simp] theorem mem_emplace (key : Nat) (value : α) (entries : List (Nat × α)) (entry : Nat × α) :
    entry ∈ emplace key value entries ↔ entry = (key, value) ∨ entry ∈ entries := by
  rw [(emplace_perm key value entries).mem_iff, List.mem_cons]

@[simp] theorem emplace_length (key : Nat) (value : α) (entries : List (Nat × α)) :
    (emplace key value entries).length = entries.length + 1 := (emplace_perm key value entries).length_eq

theorem emplace_ordered (key : Nat) (value : α) (entries : List (Nat × α)) (ordered : Ordered entries) :
    Ordered (emplace key value entries) := by
  induction entries with
  | nil => exact List.pairwise_singleton _ _
  | cons entry rest ih =>
      obtain ⟨first, later⟩ := List.pairwise_cons.mp ordered
      rw [emplace]
      split
      · rename_i less
        refine List.pairwise_cons.mpr ⟨fun other member => ?_, ordered⟩
        cases List.mem_cons.mp member with
        | inl same => exact same ▸ Nat.le_of_lt less
        | inr inside => exact Nat.le_trans (Nat.le_of_lt less) (first other inside)
      · rename_i notLess
        refine List.pairwise_cons.mpr ⟨fun other member => ?_, ih later⟩
        cases (mem_emplace key value rest other).mp member with
        | inl new => exact new ▸ Nat.le_of_not_lt notLess
        | inr inside => exact first other inside

-- A key no entry exceeds goes to the end, so equal keys come out as they went in.
theorem emplace_last (key : Nat) (value : α) (entries : List (Nat × α)) (last : ∀ entry ∈ entries, entry.1 ≤ key) :
    emplace key value entries = entries ++ [(key, value)] := by
  induction entries with
  | nil => rfl
  | cons entry rest ih =>
      obtain ⟨here, later⟩ := List.forall_mem_cons.mp last
      rw [emplace, if_neg (Nat.not_lt.mpr here), ih later, List.cons_append]

theorem upto_append_beyond (bound : Nat) (entries : List (Nat × α)) : upto bound entries ++ beyond bound entries = entries :=
  List.takeWhile_append_dropWhile

theorem mem_split (bound : Nat) (entries : List (Nat × α)) (entry : Nat × α) :
    entry ∈ entries ↔ entry ∈ upto bound entries ∨ entry ∈ beyond bound entries := by
  rw [← List.mem_append, upto_append_beyond]

theorem upto_bounded (bound : Nat) (entries : List (Nat × α)) (entry : Nat × α) (member : entry ∈ upto bound entries) :
    entry.1 ≤ bound := by
  have passed := List.mem_takeWhile_imp member
  simpa using passed

-- Iteration stops at the first entry past the bound; in order, none behind it is due.
theorem beyond_later (bound : Nat) (entries : List (Nat × α)) (ordered : Ordered entries) (entry : Nat × α)
    (member : entry ∈ beyond bound entries) : bound < entry.1 := by
  induction entries with
  | nil => cases member
  | cons first rest ih =>
      obtain ⟨least, later⟩ := List.pairwise_cons.mp ordered
      by_cases due : first.1 ≤ bound
      · have skipped : beyond bound (first :: rest) = beyond bound rest := by simp [beyond, due]
        exact ih later (skipped ▸ member)
      · have stopped : beyond bound (first :: rest) = first :: rest := by simp [beyond, due]
        rw [stopped] at member
        cases List.mem_cons.mp member with
        | inl same => exact same ▸ Nat.lt_of_not_le due
        | inr inside =>
            have above := least entry inside
            omega

theorem beyond_ordered (bound : Nat) (entries : List (Nat × α)) (ordered : Ordered entries) :
    Ordered (beyond bound entries) := ordered.sublist (List.dropWhile_sublist _)

theorem mem_beyond_iff (bound : Nat) (entries : List (Nat × α)) (ordered : Ordered entries) (entry : Nat × α) :
    entry ∈ beyond bound entries ↔ entry ∈ entries ∧ bound < entry.1 := by
  constructor
  · exact fun member => ⟨(mem_split bound entries entry).mpr (Or.inr member), beyond_later bound entries ordered entry member⟩
  · rintro ⟨member, late⟩
    refine ((mem_split bound entries entry).mp member).resolve_left (fun early => ?_)
    have bounded := upto_bounded bound entries entry early
    omega

end Multimap
