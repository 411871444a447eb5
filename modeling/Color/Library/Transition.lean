import Mathlib.Data.Option.Basic
import Mathlib.Tactic.Common

set_option autoImplicit false

namespace Transition

variable {σ α : Type}

-- A partial step function over actions. The guard selects the runs under
-- discussion: which actions may be taken in which states.
inductive Reach (step : σ → α → Option σ) (guard : σ → α → Prop) (start : σ) : σ → Prop where
  | refl : Reach step guard start start
  | next {s s' : σ} {a : α} (before : Reach step guard start s) (allowed : guard s a)
      (taken : step s a = some s') : Reach step guard start s'

variable {step : σ → α → Option σ} {guard weaker : σ → α → Prop} {start s s' : σ}

theorem Reach.invariant (P : σ → Prop) (init : P start)
    (keep : ∀ s a s', P s → guard s a → step s a = some s' → P s')
    (run : Reach step guard start s) : P s := by
  induction run with
  | refl => exact init
  | next _ allowed taken ih => exact keep _ _ _ ih allowed taken

-- The invariant of an inner layer may be used while an outer one is proved.
theorem Reach.invariant_with (Q P : σ → Prop) (known : ∀ s, Reach step guard start s → Q s) (init : P start)
    (keep : ∀ s a s', Q s → P s → guard s a → step s a = some s' → P s')
    (run : Reach step guard start s) : P s := by
  induction run with
  | refl => exact init
  | next before allowed taken ih => exact keep _ _ _ (known _ before) ih allowed taken

theorem Reach.mono (implies : ∀ s a, guard s a → weaker s a) (run : Reach step guard start s) :
    Reach step weaker start s := by
  induction run with
  | refl => exact .refl
  | next _ allowed taken ih => exact .next ih (implies _ _ allowed) taken

-- A run given by its actions; it stops at the first one that cannot be taken.
def follow (step : σ → α → Option σ) (guard : σ → α → Prop) [∀ s a, Decidable (guard s a)] : List α → σ → σ
  | [], s => s
  | a :: rest, s =>
      if guard s a then
        match step s a with
        | some s' => follow step guard rest s'
        | none => s
      else s

theorem Reach.follow [∀ s a, Decidable (guard s a)] (actions : List α) (before : Reach step guard start s) :
    Reach step guard start (follow step guard actions s) := by
  induction actions generalizing s with
  | nil => exact before
  | cons a rest ih =>
      rw [Transition.follow]
      split
      · rename_i allowed
        split
        · rename_i s' taken
          exact ih (.next before allowed taken)
        · exact before
      · exact before

-- The same for an unguarded run that gets through.
theorem Reach.of_run (actions : List α) (before : Reach step (fun _ _ => True) start s)
    (run : actions.foldlM step s = some s') : Reach step (fun _ _ => True) start s' := by
  induction actions generalizing s with
  | nil =>
      cases run
      exact before
  | cons a rest ih =>
      rw [List.foldlM_cons] at run
      obtain ⟨t, taken, onward⟩ := Option.bind_eq_some_iff.mp run
      exact ih (.next before trivial taken) onward

-- ---- runs seen through a projection ----

-- Where a projection of states and actions commutes with a step, it commutes with whole runs.
theorem run_project {τ β : Type} (step : σ → α → Option σ) (coarse : τ → β → Option τ) (f : σ → τ) (g : α → β)
    (commutes : ∀ s a, (step s a).map f = coarse (f s) (g a)) (actions : List α) (s : σ) :
    (actions.foldlM step s).map f = (actions.map g).foldlM coarse (f s) := by
  induction actions generalizing s with
  | nil => rfl
  | cons a rest ih =>
      rw [List.foldlM_cons, List.map_cons, List.foldlM_cons, ← commutes]
      cases step s a with
      | none => rfl
      | some next => exact ih next

-- ---- relations taken a number of times ----

inductive Steps (R : σ → σ → Prop) : Nat → σ → σ → Prop where
  | refl (s : σ) : Steps R 0 s s
  | next {n : Nat} {s t u : σ} (before : Steps R n s t) (step : R t u) : Steps R (n + 1) s u

-- A number of steps after which P holds, whichever way they went.
def Inevitable (R : σ → σ → Prop) (P : σ → Prop) (s : σ) : Prop :=
  ∃ n, ∀ t, Steps R n s t → P t

-- An invariant that some step always keeps can be kept forever.
theorem steps_of_progress (R : σ → σ → Prop) (I : σ → Prop) (progress : ∀ s, I s → ∃ t, R s t ∧ I t) (s : σ)
    (start : I s) (n : Nat) : ∃ t, Steps R n s t ∧ I t := by
  induction n with
  | zero => exact ⟨s, .refl s, start⟩
  | succ n ih =>
      obtain ⟨t, before, kept⟩ := ih
      obtain ⟨u, step, still⟩ := progress t kept
      exact ⟨u, .next before step, still⟩

theorem not_inevitable_of_progress (R : σ → σ → Prop) (P I : σ → Prop) (progress : ∀ s, I s → ∃ t, R s t ∧ I t)
    (away : ∀ s, I s → ¬ P s) (s : σ) (start : I s) : ¬ Inevitable R P s := by
  rintro ⟨n, holds⟩
  obtain ⟨t, steps, kept⟩ := steps_of_progress R I progress s start n
  exact away t kept (holds t steps)

-- ---- a batch worked off one by one ----

-- The relation also speaks of what is left of the batch.
theorem foldl_left (f : σ → α → σ) (P : List α → σ → Prop) (keep : ∀ x rest s, P (x :: rest) s → P rest (f s x))
    (rows : List α) (s : σ) (before : P rows s) : P [] (rows.foldl f s) := by
  induction rows generalizing s with
  | nil => exact before
  | cons x rest ih => exact ih (f s x) (keep x rest s before)

end Transition
