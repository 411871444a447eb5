import Color.Instance
import Color.LostRequest

set_option autoImplicit false

namespace Color

-- Without crashes the server is never behind what the client has received.
structure FailureFree (s : Sys) : Prop where
  upto : ∀ i ∈ s.client.received, i ≤ s.server.committedUpto
  idle : s.server.awaiting = ∅
  sent : ∀ inst resp, (inst, resp) ∈ s.responses → resp.recover = false ∧ resp.seq ≤ s.server.committedUpto
  replays : s.replays = []
  parked : ∀ k ∈ s.server.pendingReqs, s.server.committedUpto + 1 < k

theorem no_crash_covered (s : Sys) (a : Action) (allowed : noCrash s a) : coveredCrash s a := by
  cases a with
  | crash => exact absurd allowed id
  | generate | request | exchange | response | buildReplay | replay | checkpoint => trivial

theorem failure_free_accepts (s : Sys) (req : Request) (sys : SysInv s) (free : FailureFree s) (member : req ∈ s.requests) :
    ¬ s.server.needsRecover req := by
  intro recover
  obtain ⟨i, acks, above⟩ := (needs_recover_iff _ req).mp recover
  have received := acknowledged_received _ _ sys.client req member i (by omega) acks
  have bound := free.upto i received
  omega

theorem parked_beyond (app : AppFn) (sv : Server) (req : Request) (before : ∀ k ∈ sv.pendingReqs, sv.committedUpto + 1 < k)
    (progress : RequestProgress sv req (sv.onRequest app req).1 (sv.onRequest app req).2) :
    ∀ k ∈ (sv.onRequest app req).1.pendingReqs, (sv.onRequest app req).1.committedUpto + 1 < k := by
  have nothingNext : sv.pendingReqs[sv.committedUpto + 1]? = none :=
    Std.ExtTreeMap.getElem?_eq_none (fun member => Nat.lt_irrefl _ (before _ member))
  have clear := on_request_clear app sv req nothingNext
  intro k inside
  by_contra near
  have edge : k ≠ (sv.onRequest app req).1.committedUpto + 1 := by
    rintro rfl
    exact (getElem?_eq_none_iff _ _).mp clear inside
  obtain ⟨old, within⟩ := progress.stale k inside (by omega)
  have beyond := before k old
  omega

theorem failure_free_step (s s' : Sys) (a : Action) (sys : SysInv s) (free : FailureFree s) (allowed : noCrash s a)
    (taken : s.step a = some s') : FailureFree s' := by
  cases step_effect s s' a taken with
  | generated | saved => exact ⟨free.upto, free.idle, free.sent, free.replays, free.parked⟩
  | answered req app rounds member =>
      have accepted := failure_free_accepts s req sys free member
      have effect := (exchange_effects s req app rounds sys member).2
      rw [settle_accepted s.client req rounds s.server accepted] at effect ⊢
      have progress := on_request_progress s.requests app s.server req (client_inv_issued _ _ sys.client sys.issued)
        sys.server member accepted
      refine ⟨fun i received => Nat.le_trans (free.upto i received) effect.upto, ?_, ?_, free.replays,
        parked_beyond app s.server req free.parked progress⟩
      · have none := effect.awaiting
        rw [free.idle] at none
        exact Finset.subset_empty.mp none
      · intro inst resp inside
        rcases (answer_sent s req _ inst resp).mp inside with old | ⟨_, emitted⟩
        · exact (free.sent inst resp old).imp_right (fun bound => Nat.le_trans bound effect.upto)
        · have normal := progress.normal resp emitted
          exact ⟨normal, response_committed _ _ _ req _ resp sys.server effect emitted normal⟩
  | delivered index inst resp kind sent =>
      refine ⟨?_, free.idle, free.sent, free.replays, free.parked⟩
      intro i received
      change i ∈ (s.client.onResponse resp).2.received at received
      rw [on_response_received] at received
      cases Finset.mem_insert.mp received with
      | inl new => exact new ▸ (free.sent inst resp (List.mem_of_getElem? sent)).2
      | inr old => exact free.upto i old
  | built inst resp sent signal =>
      have normal := (free.sent inst resp sent).1
      rw [signal] at normal
      cases normal
  | ingested _ rp _ sent =>
      rw [free.replays] at sent
      cases sent
  | restored index setHash cp kind =>
      subst kind
      exact absurd allowed id

theorem reachable_failure_free (clientHash serverHash : Bool) (s : Sys) (run : Reachable noCrash clientHash serverHash s) :
    FailureFree s :=
  run.invariant_with SysInv FailureFree (reachable_sys_inv noCrash clientHash serverHash)
    (by constructor <;> simp [Sys.init, Server.start, Client.fresh])
    (fun s a s' sys free allowed taken => failure_free_step s s' a sys free allowed taken)

end Color
