import Color.Instance

set_option autoImplicit false

namespace Color

-- Every instance calls the application for increasing ids, on a history that
-- ends with the request it is called for.
structure AppOrder (log : List Obs) : Prop where
  increasing : ∀ g, ((callsOf g log).map Call.seq).Pairwise (· < ·)
  shown : ∀ g c, Obs.invoked g c ∈ log → c.committed.events.getLast? = some (.request c.seq)

-- A request handed in while its answer is owed is the last one committed.
def answersLast (s : Sys) (a : Action) : Prop :=
  ∀ p ∈ s.accepting a, ¬ p.1.needsRecover p.2 → p.2.seq ∈ p.1.awaiting → p.2.seq = p.1.committedUpto

instance (s : Sys) (a : Action) : Decidable (answersLast s a) :=
  inferInstanceAs (Decidable (∀ p ∈ s.accepting a, _))

theorem app_order_answer (s : Sys) (sv : Server) (req : Request) (app : AppFn) (inst : InstanceInv s)
    (order : AppOrder s.log) (last : ¬ sv.needsRecover req → req.seq ∈ sv.awaiting → req.seq = sv.committedUpto)
    (replayed : ReplayEffect s.requests s.server sv)
    (effect : RequestEffect s.requests sv req (sv.onRequest app req).1 (sv.onRequest app req).2) :
    AppOrder (s.answer req (sv.onRequest app req)).log := by
  -- A processed id is the last one committed, or a later one.
  have current : ∀ c ∈ (sv.onRequest app req).2.calls,
      c.seq ∈ sv.awaiting ∧ c.seq = sv.committedUpto ∨ sv.committedUpto < c.seq := by
    intro c called
    obtain ⟨accepted, due⟩ := effect.due c called
    rcases due with ⟨seq, owed⟩ | ⟨_, above, _⟩
    · exact Or.inl ⟨owed, seq.trans (last accepted (seq ▸ owed))⟩
    · exact Or.inr above
  refine ⟨fun g => ?_, ?_⟩
  · change ((callsOf g (s.log ++ observed s.inst req (sv.onRequest app req).2)).map Call.seq).Pairwise (· < ·)
    rw [calls_of_append, calls_of_observed]
    by_cases own : s.inst = g
    · subst own
      rw [if_pos rfl, List.map_append, List.pairwise_append]
      refine ⟨order.increasing _, effect.order, ?_⟩
      intro i earlier j later
      obtain ⟨c, before, rfl⟩ := List.mem_map.mp earlier
      obtain ⟨d, called, rfl⟩ := List.mem_map.mp later
      obtain ⟨within, settled⟩ := replay_keeps_called _ _ _ c.seq replayed
        (inst.called c ((mem_calls_of _ _ _).mp before))
      rcases current d called with ⟨owed, edge⟩ | above
      · have different : c.seq ≠ d.seq := fun same => settled (same ▸ owed)
        omega
      · omega
    · rw [if_neg own, List.append_nil]
      exact order.increasing g
  · intro g c logged
    cases List.mem_append.mp logged with
    | inl old => exact order.shown g c old
    | inr new =>
        obtain ⟨_, called⟩ := (invoked_mem_observed _ _ _ _ _).mp new
        have edge : max sv.committedUpto c.seq = c.seq := by
          rcases current c called with ⟨_, same⟩ | above <;> omega
        have shown := (effect.shown c called).1
        rwa [edge] at shown

theorem app_order_step (s s' : Sys) (a : Action) (sys : SysInv s) (inst : InstanceInv s) (order : AppOrder s.log)
    (allowed : answersLast s a) (taken : s.step a = some s') : AppOrder s'.log := by
  cases step_effect s s' a taken with
  | generated | built | ingested | saved | restored => exact order
  | answered req app rounds member accepting =>
      obtain ⟨replayed, effect⟩ := exchange_effects s req app rounds sys member
      exact app_order_answer s _ req app inst order (allowed _ accepting) replayed effect
  | delivered _ _ resp =>
      refine ⟨fun g => (calls_of_deliver g s resp).symm ▸ order.increasing g, fun g c logged => ?_⟩
      rw [← mem_calls_of, calls_of_deliver, mem_calls_of] at logged
      exact order.shown g c logged

-- As long as owed answers are only asked for at the end of the committed
-- history, recovery does not disturb the order the application sees.
theorem app_order_survives_recovery (clientHash serverHash : Bool) (s : Sys)
    (run : Reachable answersLast clientHash serverHash s) : AppOrder s.log :=
  run.invariant_with (fun s => SysInv s ∧ InstanceInv s) (fun s => AppOrder s.log)
    (fun s before => ⟨reachable_sys_inv _ _ _ s before, reachable_instance _ _ _ s before⟩)
    ⟨fun _ => List.Pairwise.nil, by simp [Sys.init]⟩
    (fun s a s' known order allowed taken => app_order_step s s' a known.1 known.2 order allowed taken)

-- Request 2 is replayed to the second instance and processed there, as the last one.
def recoveredInOrder : List Action :=
  [.generate [1], .exchange 0 (fun _ _ _ => [11]), .response 0, .generate [2], .crash 0 true,
    .exchange 1 (fun _ _ _ => [12]), .generate [3], .exchange 2 (fun _ _ _ => [13])]

theorem app_order_survives_recovery_in_order :
    (callsOf 1 (Sys.after answersLast true true recoveredInOrder).log).map Call.seq = [2, 3] ∧
      AppOrder (Sys.after answersLast true true recoveredInOrder).log :=
  ⟨by decide +kernel, app_order_survives_recovery true true _ (reachable_after answersLast true true recoveredInOrder)⟩

-- Requests 2 and 3 are both owed an answer after the replay, and 3 arrives first.
def recoveredOutOfOrder : List Action :=
  [.generate [1], .generate [2], .exchange 0 (fun _ _ _ => [11]), .response 0, .generate [3], .crash 0 true,
    .exchange 2 (fun _ _ _ => [13]), .exchange 1 (fun _ _ _ => [12])]

theorem app_order_broken_by_recovery :
    ¬ ∀ (clientHash serverHash : Bool) (s : Sys), Reachable harnessAction clientHash serverHash s → AppOrder s.log := by
  intro ordered
  have order := ordered true true _ (reachable_after harnessAction true true recoveredOutOfOrder)
  have calls : (callsOf 1 (Sys.after harnessAction true true recoveredOutOfOrder).log).map Call.seq = [3, 2] := by
    decide +kernel
  have increasing := order.increasing 1
  rw [calls] at increasing
  revert increasing
  decide

end Color
