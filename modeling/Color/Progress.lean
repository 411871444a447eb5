import Color.FailureFree

set_option autoImplicit false

namespace Color

-- A round in which every request seen so far was outstanding when it began.
structure RoundInv (s : Sys) (seen : List Delivery) (sv : Server) (out : Outcome) : Prop where
  agrees : Agrees s.requests sv
  forward : s.server.committedUpto ≤ sv.committedUpto
  covered : Covered s.client.received sv
  settled : sv.awaiting = ∅
  beyond : ∀ k ∈ sv.pendingReqs, sv.committedUpto + 1 < k
  plain : ∀ resp ∈ out.responses, resp.recover = false ∧ resp.noOp = false
  named : ∀ resp ∈ out.responses, 1 ≤ resp.seq ∧ resp.seq ≤ s.requests.length
  handled : ∀ d ∈ seen, d.request.seq ≤ sv.committedUpto ∧ (∃ resp ∈ out.responses, resp.seq = d.request.seq) ∨
    d.request.seq ∈ sv.pendingReqs

theorem round_call (s : Sys) (seen : List Delivery) (d : Delivery) (sv : Server) (out : Outcome) (sys : SysInv s)
    (free : FailureFree s) (member : d.request ∈ s.requests) (outstanding : d.request.seq ∉ s.client.received)
    (inv : RoundInv s seen sv out) :
    RoundInv s (seen ++ [d]) (sv.onRequest d.app d.request).1 (out ++ (sv.onRequest d.app d.request).2) := by
  have issued := client_inv_issued _ _ sys.client sys.issued
  have accepted : ¬ sv.needsRecover d.request := by
    intro recover
    obtain ⟨i, acks, above⟩ := (needs_recover_iff sv _).mp recover
    have received := acknowledged_received _ _ sys.client d.request member i (by omega) acks
    have bound := Nat.le_trans (free.upto i received) inv.forward
    omega
  have effect := on_request_effect s.requests d.app sv d.request issued inv.agrees member
  have progress := on_request_progress s.requests d.app sv d.request issued inv.agrees member accepted
  have good := (on_request_agrees s.requests d.app sv d.request issued inv.agrees member).2.2.1
  have positive := (numbered_seq_index _ d.request sys.client.numbered member).2.1
  refine ⟨effect.agrees, Nat.le_trans inv.forward effect.upto, covered_request s sv _ _ _ sys member inv.covered effect,
    ?_, parked_beyond d.app sv d.request inv.beyond progress, ?_, ?_, ?_⟩
  · have none := effect.awaiting
    rw [inv.settled] at none
    exact Finset.subset_empty.mp none
  · intro resp inside
    cases List.mem_append.mp inside with
    | inl old => exact inv.plain resp old
    | inr new =>
        refine ⟨progress.normal resp new, ?_⟩
        by_contra empty
        -- Only an answered request gets a no-op.
        obtain ⟨seq, within, owed, missing⟩ := effect.noOps resp new (progress.normal resp new) (by simpa using empty)
        rcases inv.covered resp.seq (by omega) within with buffered | waiting | received
        · exact missing buffered
        · exact owed waiting
        · exact outstanding (seq ▸ received)
  · intro resp inside
    cases List.mem_append.mp inside with
    | inl old => exact inv.named resp old
    | inr new => exact (good resp new (progress.normal resp new)).1
  · intro other inside
    have answered : ∀ t, t = d.request.seq ∨ sv.committedUpto < t →
        t ≤ (sv.onRequest d.app d.request).1.committedUpto →
        ∃ resp ∈ (out ++ (sv.onRequest d.app d.request).2).responses, resp.seq = t := by
      intro t which bound
      obtain ⟨resp, emitted, seq⟩ := progress.answered t which bound
      exact ⟨resp, List.mem_append_right _ emitted, seq⟩
    cases List.mem_append.mp inside with
    | inl old =>
        rcases inv.handled other old with ⟨within, resp, emitted, seq⟩ | waiting
        · exact Or.inl ⟨Nat.le_trans within effect.upto, resp, List.mem_append_left _ emitted, seq⟩
        · by_cases done : other.request.seq ≤ (sv.onRequest d.app d.request).1.committedUpto
          · have fresh := inv.beyond _ waiting
            exact Or.inl ⟨done, answered _ (Or.inr (by omega)) done⟩
          · exact Or.inr (progress.parked _ (by omega) (Or.inr waiting))
    | inr new =>
        rw [List.mem_singleton.mp new]
        by_cases done : d.request.seq ≤ (sv.onRequest d.app d.request).1.committedUpto
        · exact Or.inl ⟨done, answered _ (Or.inl rfl) done⟩
        · exact Or.inr (progress.parked _ (by omega) (Or.inl rfl))

theorem round_serve (s : Sys) (round : List Delivery) (sys : SysInv s) (free : FailureFree s)
    (covered : Covered s.client.received s.server)
    (frozen : ∀ d ∈ round, d.request ∈ s.requests ∧ d.request.seq ∉ s.client.received) :
    RoundInv s round (s.server.serve round).1 (s.server.serve round).2 := by
  have start : RoundInv s [] s.server {} :=
    ⟨sys.server, Nat.le_refl _, covered, free.idle, free.parked, by simp, by simp, by simp⟩
  apply handle_all_rule _ (RoundInv s) round _ s.server start
  intro seen d rest sv out split inv
  obtain ⟨member, outstanding⟩ := frozen d (by simp [split])
  exact round_call s seen d sv out sys free member outstanding inv

-- All outstanding requests in, all responses out: nothing is left to send.
theorem failure_free_round (clientHash serverHash : Bool) (s : Sys) (run : Reachable noCrash clientHash serverHash s)
    (round : List Delivery) (answers : List Response)
    (everyOutstanding : (round.map Delivery.request).Perm s.client.resend)
    (everyAnswer : answers.Perm (s.server.serve round).2.responses) :
    (∀ resp ∈ answers, resp.recover = false ∧ resp.noOp = false) ∧
    (∀ i ∈ s.client.outstanding, ∃ resp ∈ answers, resp.seq = i) ∧
    (s.client.receive answers).outstanding = [] ∧
    (s.server.serve round).1.pendingReqs = ∅ ∧
    (s.server.serve round).1.committedUpto = (s.client.receive answers).nextSeq - 1 := by
  have sys := reachable_sys_inv _ _ _ s run
  have free := reachable_failure_free _ _ s run
  have covered : AnswerInv s := reachable_answers _ _ s (run.mono no_crash_covered)
  have frozen : ∀ d ∈ round, d.request ∈ s.requests ∧ d.request.seq ∉ s.client.received := fun d member =>
    (resend_iff _ _ _ sys.issued).mp (everyOutstanding.subset (List.mem_map_of_mem member))
  have inv := round_serve s round sys free covered.covered frozen
  -- Every id beyond the server's counter was outstanding, hence delivered in the round.
  have delivered : ∀ i, 1 ≤ i → i ≤ s.requests.length → i ∉ s.client.received → ∃ d ∈ round, d.request.seq = i := by
    intro i low high unknown
    obtain ⟨r, inReqs, rfl⟩ := numbered_exists _ i sys.client.numbered low high
    have sent := everyOutstanding.symm.subset ((resend_iff _ _ r sys.issued).mpr ⟨inReqs, unknown⟩)
    obtain ⟨d, member, eq⟩ := List.mem_map.mp sent
    exact ⟨d, member, by rw [eq]⟩
  have complete : (s.server.serve round).1.committedUpto = s.requests.length := by
    by_contra short
    have bound := inv.agrees.bound
    have unknown : (s.server.serve round).1.committedUpto + 1 ∉ s.client.received := fun received => by
      have old := Nat.le_trans (free.upto _ received) inv.forward
      omega
    obtain ⟨d, member, seq⟩ := delivered _ (by omega) (by omega) unknown
    rcases inv.handled d member with ⟨within, _⟩ | waiting
    · omega
    · have beyond := inv.beyond _ waiting
      omega
  have answered : ∀ i, 1 ≤ i → i ≤ s.requests.length → i ∉ s.client.received → ∃ resp ∈ answers, resp.seq = i := by
    intro i low high unknown
    obtain ⟨d, member, seq⟩ := delivered i low high unknown
    rcases inv.handled d member with ⟨_, resp, emitted, same⟩ | waiting
    · exact ⟨resp, everyAnswer.symm.subset emitted, same.trans seq⟩
    · have beyond := inv.beyond _ waiting
      omega
  obtain ⟨final, finalIssued⟩ := receive_inv s.requests s.client answers sys.client sys.issued
    (fun resp member => inv.named resp (everyAnswer.subset member))
  refine ⟨fun resp member => inv.plain resp (everyAnswer.subset member), ?_, ?_, ?_, ?_⟩
  · intro i member
    obtain ⟨⟨r, inReqs, seq⟩, unknown⟩ := (outstanding_iff _ _ i sys.issued).mp member
    obtain ⟨_, low, high⟩ := numbered_seq_index _ r sys.client.numbered inReqs
    exact answered i (seq ▸ low) (seq ▸ high) unknown
  · apply List.eq_nil_iff_forall_not_mem.mpr
    intro i member
    obtain ⟨⟨r, inReqs, seq⟩, unknown⟩ := (outstanding_iff _ _ i finalIssued).mp member
    obtain ⟨_, low, high⟩ := numbered_seq_index _ r sys.client.numbered inReqs
    rw [receive_received, not_or] at unknown
    exact unknown.2 (answered i (seq ▸ low) (seq ▸ high) unknown.1)
  · apply Std.ExtTreeMap.eq_empty_iff_forall_not_mem.mpr
    intro k inside
    obtain ⟨r, found⟩ := (Tables.mem_iff_lookup _ _).mp inside
    obtain ⟨member, seq⟩ := inv.agrees.holds.parked k r found
    have high := (numbered_seq_index _ r sys.client.numbered member).2.2
    have beyond := inv.beyond k inside
    omega
  · rw [complete, final.next, Nat.add_sub_cancel]

-- Request 2 is parked, the answer to 1 is lost, and both are delivered again with 3.
def droppedRun : List Action :=
  [.generate [1], .generate [2], .generate [3], .request 1 (fun _ _ _ => [12]), .request 0 (fun _ _ _ => [11]), .response 1]

theorem failure_free_round_reversed :
    (Sys.after noCrash true true droppedRun).client.outstanding = [1, 3] ∧
    (let s := Sys.after noCrash true true droppedRun
     let round := s.client.resend.reverse.map (fun r => Delivery.mk r (fun _ _ _ => [13]))
     let answers := (s.server.serve round).2.responses.reverse
     (∀ resp ∈ answers, resp.recover = false ∧ resp.noOp = false) ∧
     (∀ i ∈ s.client.outstanding, ∃ resp ∈ answers, resp.seq = i) ∧
     (s.client.receive answers).outstanding = [] ∧
     (s.server.serve round).1.pendingReqs = ∅ ∧
     (s.server.serve round).1.committedUpto = (s.client.receive answers).nextSeq - 1) :=
  ⟨by decide +kernel, failure_free_round true true _ (reachable_after noCrash true true droppedRun) _ _
    (by simp [Function.comp_def]) (List.reverse_perm _)⟩

end Color
