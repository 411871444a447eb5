import Color.HarnessVerdict

set_option autoImplicit false

namespace Color

variable {P G : Type}

-- ---- only the failover code counts failovers ----

theorem arrive_failovers (pf : Platform P G) (cfg : Config P) (left out : Nat) (w : World P G) :
    (World.arrive pf cfg left out w).failoversDone = w.failoversDone := by
  induction left generalizing out w with
  | zero => rfl
  | succ left ih =>
      rw [World.arrive]
      split
      · exact ih (out + 1) _
      · rfl

theorem retransmit_failovers (pf : Platform P G) (cfg : Config P) (w : World P G) :
    (w.retransmit pf cfg).failoversDone = w.failoversDone := by
  apply Transition.foldl_left (World.retry pf cfg) (fun _ w' => w'.failoversDone = w.failoversDone)
  · intro i _ w' same
    rw [← same, World.retry]
    split
    · cases w'.client.frozen i <;> rfl
    · rfl
  · rfl

theorem handle_failovers (pf : Platform P G) (w : World P G) (req : Request) :
    (w.handle pf req).failoversDone = w.failoversDone :=
  Transition.foldl_left (World.sendResponse pf) (fun _ w' => w'.failoversDone = w.failoversDone)
    (fun _ _ _ same => same) _ _ rfl

theorem serve_failovers (pf : Platform P G) (w : World P G) : (w.serve pf).failoversDone = w.failoversDone :=
  Transition.foldl_left (World.handle pf) (fun _ w' => w'.failoversDone = w.failoversDone)
    (fun req _ w' same => (handle_failovers pf w' req).trans same) _ _ rfl

theorem receive_failovers (w : World P G) : w.receive.failoversDone = w.failoversDone :=
  Transition.foldl_left World.accept (fun _ w' => w'.failoversDone = w.failoversDone) (fun _ _ _ same => same) _ _ rfl

theorem step_failovers (pf : Platform P G) (cfg : Config P) (generating : Bool) (w : World P G) :
    (w.step pf cfg generating).failoversDone = w.failoversDone := by
  refine (receive_failovers _).trans ((serve_failovers pf _).trans ((retransmit_failovers pf cfg _).trans ?_))
  cases generating with
  | true => exact arrive_failovers pf cfg _ _ _
  | false => rfl

theorem drain_failovers (pf : Platform P G) (cfg : Config P) (left : Nat) (w : World P G) :
    (w.drain pf cfg left).failoversDone = w.failoversDone := by
  induction left generalizing w with
  | zero => rfl
  | succ left ih =>
      rw [World.drain]
      split
      · rfl
      · exact (ih _).trans (step_failovers pf cfg false w)

theorem turn_failovers (pf : Platform P G) (cfg : Config P) (w : World P G) (i : Nat) :
    (w.turn pf cfg i).failoversDone =
      if w.failoversDone < cfg.failovers ∧ i = cfg.failoverStep w.failoversDone then w.failoversDone + 1
      else w.failoversDone := by
  have stepped : ((w.step pf cfg true).refresh pf cfg i).failoversDone = w.failoversDone := by
    rw [World.refresh]
    split <;> exact step_failovers pf cfg true w
  change (((w.step pf cfg true).refresh pf cfg i).failover cfg i).failoversDone = _
  rw [World.failover, stepped]
  split
  · rfl
  · exact stepped

-- ---- where they fall ----

structure Config.Representable (cfg : Config P) : Prop where
  failovers : cfg.failovers + 1 < 2 ^ 64
  steps : cfg.genSteps * cfg.failovers < 2 ^ 64

theorem failover_step_eq (cfg : Config P) (fits : cfg.Representable) (k : Nat) (less : k < cfg.failovers) :
    cfg.failoverStep k = cfg.genSteps * (k + 1) / (cfg.failovers + 1) := by
  have product : cfg.genSteps * (k + 1) ≤ cfg.genSteps * cfg.failovers := Nat.mul_le_mul_left _ less
  have small : cfg.genSteps * (k + 1) < 2 ^ 64 := Nat.lt_of_le_of_lt product fits.steps
  have whole (n : Nat) (bound : n < 2 ^ 64) : wrapped (n : Int) = n := by
    have value := wrapped_of_small (n : Int) (by omega) (by exact_mod_cast bound)
    exact_mod_cast value
  have top := whole (cfg.genSteps * (k + 1)) small
  have bottom := whole (cfg.failovers + 1) fits.failovers
  push_cast at top bottom
  rw [Config.failoverStep, top, bottom]

theorem failover_step_within (cfg : Config P) (fits : cfg.Representable) (enough : cfg.failovers ≤ cfg.genSteps) (k : Nat)
    (less : k < cfg.failovers) : cfg.failoverStep k < cfg.genSteps := by
  rw [failover_step_eq cfg fits k less, Nat.div_lt_iff_lt_mul (Nat.succ_pos _)]
  exact Nat.mul_lt_mul_of_pos_left (Nat.succ_lt_succ less) (by omega)

-- With no more failovers than steps, two of them never fall on one step.
theorem failover_step_increases (cfg : Config P) (fits : cfg.Representable) (enough : cfg.failovers ≤ cfg.genSteps) (k : Nat)
    (less : k + 1 < cfg.failovers) : cfg.failoverStep k < cfg.failoverStep (k + 1) := by
  rw [failover_step_eq cfg fits k (Nat.lt_of_succ_lt less), failover_step_eq cfg fits (k + 1) less]
  by_cases room : cfg.failovers + 1 ≤ cfg.genSteps
  · apply Nat.lt_of_succ_le
    rw [Nat.succ_eq_add_one, ← Nat.add_div_right _ (Nat.succ_pos cfg.failovers)]
    apply Nat.div_le_div_right
    rw [Nat.mul_succ cfg.genSteps (k + 1)]
    exact Nat.add_le_add_left room _
  · have same : cfg.genSteps = cfg.failovers := by omega
    -- F (j + 1) = (F + 1) j + (F - j), so step j is j itself.
    have exact_ (j : Nat) (below : j < cfg.failovers) : cfg.failovers * (j + 1) / (cfg.failovers + 1) = j := by
      have split : cfg.failovers * (j + 1) = (cfg.failovers - j) + (cfg.failovers + 1) * j := by
        have whole : cfg.failovers - j + j = cfg.failovers := Nat.sub_add_cancel (Nat.le_of_lt below)
        calc cfg.failovers * (j + 1) = cfg.failovers * j + (cfg.failovers - j + j) := by rw [Nat.mul_succ, whole]
          _ = (cfg.failovers - j) + (cfg.failovers * j + j) := by omega
          _ = (cfg.failovers - j) + (cfg.failovers + 1) * j := by rw [Nat.succ_mul]
      rw [split, Nat.add_mul_div_left _ _ (Nat.succ_pos _), Nat.div_eq_of_lt (by omega), Nat.zero_add]
    rw [same, exact_ k (Nat.lt_of_succ_lt less), exact_ (k + 1) less]
    exact Nat.lt_succ_self k

theorem failover_steps_ascend (cfg : Config P) (fits : cfg.Representable) (enough : cfg.failovers ≤ cfg.genSteps) (k l : Nat)
    (order : k < l) (less : l < cfg.failovers) : cfg.failoverStep k < cfg.failoverStep l := by
  induction l with
  | zero => omega
  | succ l ih =>
      have next := failover_step_increases cfg fits enough l less
      cases Nat.lt_or_eq_of_le (Nat.le_of_lt_succ order) with
      | inl before => exact Nat.lt_trans (ih before (Nat.lt_of_succ_lt less)) next
      | inr last => exact last ▸ next

-- The failovers done before turn i are those due before it, and the next is not.
structure OnSchedule (cfg : Config P) (i : Nat) (w : World P G) : Prop where
  some_ : w.failoversDone ≤ cfg.failovers
  counted : w.failoversDone ≤ i
  next : w.failoversDone < cfg.failovers → i ≤ cfg.failoverStep w.failoversDone

theorem on_schedule_turn (pf : Platform P G) (cfg : Config P) (i : Nat) (w : World P G) (fits : cfg.Representable)
    (enough : cfg.failovers ≤ cfg.genSteps) (before : OnSchedule cfg i w) : OnSchedule cfg (i + 1) (w.turn pf cfg i) := by
  obtain ⟨some_, counted, next⟩ := before
  have turned := turn_failovers pf cfg w i
  by_cases due : w.failoversDone < cfg.failovers ∧ i = cfg.failoverStep w.failoversDone
  · rw [if_pos due] at turned
    refine ⟨by omega, by omega, fun more => ?_⟩
    rw [turned] at more ⊢
    have increases := failover_step_increases cfg fits enough w.failoversDone more
    omega
  · rw [if_neg due] at turned
    refine ⟨by omega, by omega, fun more => ?_⟩
    rw [turned] at more ⊢
    have open_ := next more
    have other : i ≠ cfg.failoverStep w.failoversDone := fun here => due ⟨more, here⟩
    omega

theorem on_schedule (pf : Platform P G) (seed : UInt64) (cfg : Config P) (fits : cfg.Representable)
    (enough : cfg.failovers ≤ cfg.genSteps) (n : Nat) :
    OnSchedule cfg n ((List.range n).foldl (World.turn pf cfg) (World.start pf seed cfg)) := by
  induction n with
  | zero => exact ⟨Nat.zero_le _, Nat.zero_le _, fun _ => Nat.zero_le _⟩
  | succ n ih =>
      rw [List.range_succ, List.foldl_append, List.foldl_cons, List.foldl_nil]
      exact on_schedule_turn pf cfg n _ fits enough ih

-- At most one failover a turn, whatever is asked for.
theorem failovers_counted (pf : Platform P G) (seed : UInt64) (cfg : Config P) (n : Nat) :
    ((List.range n).foldl (World.turn pf cfg) (World.start pf seed cfg)).failoversDone ≤ n := by
  induction n with
  | zero => exact Nat.le_refl 0
  | succ n ih =>
      rw [List.range_succ, List.foldl_append, List.foldl_cons, List.foldl_nil, turn_failovers]
      split <;> omega

-- All failovers asked for are injected exactly when there is a step for each;
-- then each has a step of its own in the generation phase.
theorem all_failovers_injected_iff (pf : Platform P G) (seed : UInt64) (cfg : Config P) (fits : cfg.Representable) :
    ((World.final pf seed cfg).failoversDone = cfg.failovers ↔ cfg.failovers ≤ cfg.genSteps) ∧
    (cfg.failovers ≤ cfg.genSteps →
      (∀ k < cfg.failovers, cfg.failoverStep k < cfg.genSteps) ∧
      (∀ k l, k < l → l < cfg.failovers → cfg.failoverStep k < cfg.failoverStep l)) := by
  refine ⟨?_, fun enough =>
    ⟨fun k => failover_step_within cfg fits enough k, fun k l => failover_steps_ascend cfg fits enough k l⟩⟩
  rw [World.final, drain_failovers, World.generation]
  constructor
  · intro all
    rw [← all]
    exact failovers_counted pf seed cfg cfg.genSteps
  · intro enough
    obtain ⟨some_, _, next⟩ := on_schedule pf seed cfg fits enough cfg.genSteps
    generalize (List.range cfg.genSteps).foldl (World.turn pf cfg) (World.start pf seed cfg) = w at *
    by_contra short
    have less : w.failoversDone < cfg.failovers := Nat.lt_of_le_of_ne some_ short
    have due := next less
    have within := failover_step_within cfg fits enough w.failoversDone less
    omega

def everyStepConfig : Config Nat := { rate := 1, drop := 30, dup := 10, genSteps := 3, failovers := 3 }

theorem all_failovers_injected_iff_tight :
    ((World.final countingPlatform 1 everyStepConfig).failoversDone = 3 ↔ 3 ≤ 3) ∧
    (3 ≤ 3 → (∀ k < 3, everyStepConfig.failoverStep k < 3) ∧
      (∀ k l, k < l → l < 3 → everyStepConfig.failoverStep k < everyStepConfig.failoverStep l)) :=
  all_failovers_injected_iff countingPlatform 1 everyStepConfig ⟨by decide, by decide⟩

end Color
