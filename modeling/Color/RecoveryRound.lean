import Color.Drain

set_option autoImplicit false

namespace Color

-- An accepted id at or below the counter gets one answer, and it is its own.
theorem committed_answer (app : AppFn) (sv : Server) (req : Request) (accepted : ¬ sv.needsRecover req)
    (known : req.seq ≤ sv.committedUpto) :
    ∃ answer, (sv.onRequest app req).2.responses = [answer] ∧ answer.seq = req.seq ∧ answer.recover = false := by
  apply on_request_rule (fun _ out => ∃ answer, out.responses = [answer] ∧ answer.seq = req.seq ∧ answer.recover = false)
  · exact fun refused => absurd refused accepted
  · intro _ _
    apply answer_committed_rule
      (fun _ out => ∃ answer, out.responses = [answer] ∧ answer.seq = req.seq ∧ answer.recover = false)
    · exact fun payload _ => ⟨_, rfl, rfl, rfl⟩
    · exact fun _ _ => ⟨_, rfl, rfl, rfl⟩
    · exact fun _ _ => ⟨_, rfl, rfl, rfl⟩
  · exact fun _ above => absurd known (Nat.not_le.mpr above)

-- The server after a replay built for it holds the client's whole history.
theorem build_replay_whole (reqs : List Request) (c : Client) (sv : Server) (inv : ClientInv reqs c) (issued : Issued reqs)
    (agrees : Agrees reqs sv) :
    Agrees reqs (sv.ingestReplay (c.buildReplay sv.history.eventCount)) ∧
      (sv.ingestReplay (c.buildReplay sv.history.eventCount)).history.eventCount = c.history.eventCount ∧
      (sv.ingestReplay (c.buildReplay sv.history.eventCount)).history.curHash = c.history.curHash ∧
      (sv.ingestReplay (c.buildReplay sv.history.eventCount)).committedUpto = reqs.length := by
  have upto := build_replay_upto reqs c sv inv issued agrees
  have after : Agrees reqs (sv.ingestReplay (c.buildReplay sv.history.eventCount)) :=
    (replay_effect reqs sv _ issued agrees (build_replay_ok reqs c _ inv) (Nat.le_refl _)).agrees
  have holds := after.holds
  rw [upto, List.take_length] at holds
  refine ⟨after, ?_, holds.hash.trans inv.hash.symm, upto⟩
  rw [holds.count, History.eventCount, inv.whole, inv.events, Nat.zero_add]

-- A refused request copy, whichever it is: the replay from the position in the
-- signal makes the histories equal, and the copy is then answered at once.
theorem recovery_resolves_in_one_round (clientHash serverHash : Bool) (s : Sys)
    (run : Reachable anyAction clientHash serverHash s) (app again : AppFn) (req : Request) (sent : req ∈ s.requests)
    (signal : Response) (given : signal ∈ (s.server.onRequest app req).2.responses) (refused : signal.recover = true) :
    let sv := (s.server.onRequest app req).1.ingestReplay (s.client.buildReplay signal.recoverFrom)
    (Follows s.client.history.events sv ∧ sv.history.eventCount = s.client.history.eventCount ∧
      sv.history.curHash = s.client.history.curHash ∧ sv.committedUpto = s.client.nextSeq - 1) ∧
    ∃ answer, (sv.onRequest again req).2.responses = [answer] ∧ answer.seq = req.seq ∧ answer.recover = false := by
  intro sv
  have inv := reachable_sys_inv anyAction clientHash serverHash s run
  have issued := client_inv_issued _ _ inv.client inv.issued
  have recover : s.server.needsRecover req :=
    (on_request_recover_iff app s.server req).mp (List.any_eq_true.mpr ⟨signal, given, refused⟩)
  have state : sv = s.server.ingestReplay (s.client.buildReplay s.server.history.eventCount) := by
    simp only [on_request_refused app s.server req recover, List.mem_singleton] at given
    change (s.server.onRequest app req).1.ingestReplay (s.client.buildReplay signal.recoverFrom) = _
    rw [on_request_refused app s.server req recover, given]
    rfl
  obtain ⟨after, count, hash, upto⟩ := build_replay_whole s.requests s.client s.server inv.client issued inv.server
  rw [← state] at after count hash upto
  have follows := agrees_follows s.requests sv after
  rw [← inv.client.events] at follows
  have next := inv.client.next
  have known := (numbered_seq_index s.requests req issued.numbered sent).2.2
  have accepted : ¬ sv.needsRecover req := by
    intro still
    obtain ⟨i, acks, above⟩ := (needs_recover_iff sv req).mp still
    have below := issued.below req sent i acks
    omega
  exact ⟨⟨follows, count, hash, by omega⟩, committed_answer again sv req accepted (by omega)⟩

-- The third request acknowledges the second, which the restored server never saw.
def refusingState : Sys := Sys.after anyAction true true (failoverRun.take 9)

def refusedCopy : Request := refusingState.requests[2]?.getD ({} : Request)

theorem recovery_resolves_in_one_round_failover :
    let sv := (refusingState.server.onRequest (fun _ p _ => p) refusedCopy).1.ingestReplay
      (refusingState.client.buildReplay (refusingState.server.recoverySignal refusedCopy).recoverFrom)
    (Follows refusingState.client.history.events sv ∧ sv.history.eventCount = refusingState.client.history.eventCount ∧
      sv.history.curHash = refusingState.client.history.curHash ∧
      sv.committedUpto = refusingState.client.nextSeq - 1) ∧
    ∃ answer, (sv.onRequest (fun _ p _ => p) refusedCopy).2.responses = [answer] ∧ answer.seq = refusedCopy.seq ∧
      answer.recover = false := by
  apply recovery_resolves_in_one_round true true refusingState (reachable_after anyAction true true (failoverRun.take 9))
    (fun _ p _ => p) (fun _ p _ => p) refusedCopy (by decide +kernel) (refusingState.server.recoverySignal refusedCopy)
  case given => decide +kernel
  case refused => rfl

end Color
