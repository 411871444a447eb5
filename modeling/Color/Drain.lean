import Color.TotalOrder

set_option autoImplicit false

namespace Color

def Client.exchangeAll (c : Client) (deliveries : List Delivery) (sv : Server) : Server × Outcome :=
  Server.handleAll (fun sv d => harnessExchange c d.app d.request sv) deliveries sv

-- Every outstanding request and every response arrives, each in any order.
def Lossless (before after : Client × Server) : Prop :=
  ∃ (round : List Delivery) (answers : List Response),
    (round.map Delivery.request).Perm before.1.resend ∧
    answers.Perm (before.1.exchangeAll round before.2).2.responses ∧
    after = (before.1.receive answers, (before.1.exchangeAll round before.2).1)

def Drains (c : Client) (sv : Server) : Prop :=
  Transition.Inevitable Lossless (fun x => x.1.outstanding = []) (c, sv)

-- Take the first id beyond committed_upto_ that is neither parked nor
-- outstanding: the client has its response and will not send it again. If a
-- later request is outstanding, some outstanding request must acknowledge that
-- far, or the server never learns that it is behind.
def Revealed (c : Client) (sv : Server) : Prop :=
  ∀ j, sv.committedUpto < j → j ∈ c.received → j ∉ sv.pendingReqs →
    (∀ i, sv.committedUpto < i → i < j → i ∈ sv.pendingReqs ∨ i ∈ c.outstanding) →
    (∃ t ∈ c.outstanding, j < t) → ∃ x ∈ c.resend, ∃ i, j ≤ i ∧ x.Acknowledges i

structure Joint (reqs : List Request) (c : Client) (sv : Server) : Prop where
  client : ClientInv reqs c
  issued : ClientIssued reqs c
  server : Agrees reqs sv
  front : sv.pendingReqs[sv.committedUpto + 1]? = none ∨ ∀ k ∈ c.received, k ≤ sv.committedUpto

theorem clear_of_full (reqs : List Request) (sv : Server) (numbered : Numbered reqs) (agrees : Agrees reqs sv)
    (full : sv.committedUpto = reqs.length) : sv.pendingReqs[sv.committedUpto + 1]? = none := by
  cases found : sv.pendingReqs[sv.committedUpto + 1]? with
  | none => rfl
  | some r =>
      obtain ⟨member, seq⟩ := agrees.holds.parked _ r found
      have high := (numbered_seq_index reqs r numbered member).2.2
      omega

-- A replay built for the server brings it up to the client's last request.
theorem build_replay_upto (reqs : List Request) (c : Client) (sv : Server) (inv : ClientInv reqs c) (issued : Issued reqs)
    (agrees : Agrees reqs sv) : (sv.ingestReplay (c.buildReplay sv.history.eventCount)).committedUpto = reqs.length := by
  have built : (c.buildReplay sv.history.eventCount).events.map ReplayEvent.event =
      (canonical (reqs.take reqs.length)).drop sv.history.eventCount := by
    rw [build_replay_events, inv.events, List.take_length]
  obtain ⟨_, upto, _⟩ := ingest_replay_rule reqs issued (fun _ _ => True) (fun _ _ _ _ _ _ => trivial) sv _ reqs.length agrees
    (Nat.le_refl _) (Nat.le_refl _) built trivial
  have bound := agrees.bound
  omega

-- One replay is enough: afterwards the request is accepted.
theorem settle_reaches (reqs : List Request) (c : Client) (sv : Server) (req : Request) (rounds : Nat)
    (inv : ClientInv reqs c) (issued : Issued reqs) (agrees : Agrees reqs sv) (member : req ∈ reqs) (some : 0 < rounds) :
    ¬ (c.settle req rounds sv).needsRecover req ∧
      (c.settle req rounds sv = sv ∨
        sv.committedUpto < reqs.length ∧ (c.settle req rounds sv).committedUpto = reqs.length) := by
  have high := (numbered_seq_index reqs req issued.numbered member).2.2
  by_cases recover : sv.needsRecover req
  · have upto := build_replay_upto reqs c sv inv issued agrees
    have accepted : ¬ (sv.ingestReplay (c.buildReplay sv.history.eventCount)).needsRecover req := by
      intro again
      obtain ⟨i, acks, above⟩ := (needs_recover_iff _ req).mp again
      have below := issued.below req member i acks
      omega
    obtain ⟨i, acks, above⟩ := (needs_recover_iff sv req).mp recover
    have below := issued.below req member i acks
    obtain ⟨more, rfl⟩ := Nat.exists_eq_add_of_lt some
    rw [Nat.zero_add, Client.settle, if_pos recover, settle_accepted c req more _ accepted]
    exact ⟨accepted, Or.inr ⟨by omega, upto⟩⟩
  · rw [settle_accepted c req _ sv recover]
    exact ⟨recover, Or.inl rfl⟩

-- A round so far: caught up by a replay, or moved on through what was at hand.
structure DrainInv (reqs : List Request) (sv₀ : Server) (seen : List Delivery) (sv : Server) (out : Outcome) : Prop where
  agrees : Agrees reqs sv
  front : sv.pendingReqs[sv.committedUpto + 1]? = none ∨
    sv₀.pendingReqs[sv₀.committedUpto + 1]? ≠ none ∧ sv.committedUpto = sv₀.committedUpto ∧
      ∀ d ∈ seen, d.request.seq ≤ sv₀.committedUpto
  forward : sv₀.committedUpto ≤ sv.committedUpto
  named : ∀ resp ∈ out.responses, 1 ≤ resp.seq ∧ resp.seq ≤ sv.committedUpto
  handled : ∀ d ∈ seen, (∃ resp ∈ out.responses, resp.seq = d.request.seq) ∨
    sv₀.committedUpto < reqs.length ∧ sv.committedUpto = reqs.length ∨
    sv.committedUpto < d.request.seq ∧ d.request.seq ∈ sv.pendingReqs
  quiet : sv₀.committedUpto < reqs.length ∧ sv.committedUpto = reqs.length ∨
    (∀ d ∈ seen, ∀ i, d.request.Acknowledges i → i ≤ sv.committedUpto) ∧
    (∀ t, sv₀.committedUpto < t → t ≤ sv.committedUpto → t ∈ sv₀.pendingReqs ∨ ∃ d ∈ seen, d.request.seq = t) ∧
    (∀ k ∈ sv₀.pendingReqs, sv.committedUpto < k → k ∈ sv.pendingReqs) ∧
    (∀ k ∈ sv.pendingReqs, k ∈ sv₀.pendingReqs ∨ ∃ d ∈ seen, d.request.seq = k)

theorem drain_start (reqs : List Request) (sv : Server) (agrees : Agrees reqs sv) : DrainInv reqs sv [] sv {} := by
  refine ⟨agrees, ?_, Nat.le_refl _, by simp, by simp,
    Or.inr ⟨by simp, fun t low high => absurd low (by omega), fun _ inside _ => inside, fun _ => Or.inl⟩⟩
  by_cases clear : sv.pendingReqs[sv.committedUpto + 1]? = none
  · exact Or.inl clear
  · exact Or.inr ⟨clear, rfl, by simp⟩

-- What is parked at the next id stays there until a request beyond the counter comes.
theorem drain_front (reqs : List Request) (sv₀ sv : Server) (seen : List Delivery) (d : Delivery) (out : Outcome)
    (accepted : ¬ sv.needsRecover d.request) (before : DrainInv reqs sv₀ seen sv out) :
    (sv.onRequest d.app d.request).1.pendingReqs[(sv.onRequest d.app d.request).1.committedUpto + 1]? = none ∨
      sv₀.pendingReqs[sv₀.committedUpto + 1]? ≠ none ∧
        (sv.onRequest d.app d.request).1.committedUpto = sv₀.committedUpto ∧
        ∀ e ∈ seen ++ [d], e.request.seq ≤ sv₀.committedUpto := by
  rcases on_request_front d.app sv d.request with clear | ⟨parked, upto, low⟩
  · exact Or.inl clear
  · rcases before.front with clear | ⟨blocked, same, lower⟩
    · left
      rw [parked, upto]
      exact clear
    · refine Or.inr ⟨blocked, upto.trans same, fun e inside => ?_⟩
      cases List.mem_append.mp inside with
      | inl old => exact lower e old
      | inr new =>
          rw [List.mem_singleton.mp new, ← same]
          exact low.resolve_left accepted

theorem drain_named (reqs : List Request) (sv next : Server) (d : Delivery) (out : Outcome) (issued : Issued reqs)
    (agrees : Agrees reqs next) (member : d.request ∈ reqs) (accepted : ¬ next.needsRecover d.request)
    (forward : sv.committedUpto ≤ next.committedUpto)
    (named : ∀ resp ∈ out.responses, 1 ≤ resp.seq ∧ resp.seq ≤ sv.committedUpto) :
    ∀ resp ∈ (out ++ (next.onRequest d.app d.request).2).responses,
      1 ≤ resp.seq ∧ resp.seq ≤ (next.onRequest d.app d.request).1.committedUpto := by
  have effect := on_request_effect reqs d.app next d.request issued agrees member
  have progress := on_request_progress reqs d.app next d.request issued agrees member accepted
  have good := (on_request_agrees reqs d.app next d.request issued agrees member).2.2.1
  intro resp inside
  cases List.mem_append.mp inside with
  | inl old =>
      obtain ⟨low, high⟩ := named resp old
      exact ⟨low, Nat.le_trans high (Nat.le_trans forward effect.upto)⟩
  | inr new =>
      have normal := progress.normal resp new
      exact ⟨(good resp new normal).1.1, response_committed _ _ _ _ _ resp agrees effect new normal⟩

theorem drain_accepted (reqs : List Request) (sv₀ sv : Server) (seen : List Delivery) (d : Delivery) (out : Outcome)
    (issued : Issued reqs) (member : d.request ∈ reqs) (accepted : ¬ sv.needsRecover d.request)
    (before : DrainInv reqs sv₀ seen sv out) :
    DrainInv reqs sv₀ (seen ++ [d]) (sv.onRequest d.app d.request).1 (out ++ (sv.onRequest d.app d.request).2) := by
  have effect := on_request_effect reqs d.app sv d.request issued before.agrees member
  have progress := on_request_progress reqs d.app sv d.request issued before.agrees member accepted
  have front := drain_front reqs sv₀ sv seen d out accepted before
  have forward := Nat.le_trans before.forward effect.upto
  have named := drain_named reqs sv sv d out issued before.agrees member accepted (Nat.le_refl _) before.named
  have upto := effect.upto
  have bound := effect.agrees.bound
  by_cases caughtUp : sv₀.committedUpto < reqs.length ∧ (sv.onRequest d.app d.request).1.committedUpto = reqs.length
  · exact ⟨effect.agrees, front, forward, named, fun _ _ => Or.inr (Or.inl caughtUp), Or.inl caughtUp⟩
  · have low := before.forward
    obtain ⟨acks, passed, kept, origin⟩ := before.quiet.resolve_left (fun full => by omega)
    have later : ∀ t, (∃ e ∈ seen, e.request.seq = t) → ∃ e ∈ seen ++ [d], e.request.seq = t := by
      rintro t ⟨e, inside, seq⟩
      exact ⟨e, List.mem_append_left _ inside, seq⟩
    refine ⟨effect.agrees, front, forward, named, ?_, Or.inr ⟨?_, ?_, ?_, ?_⟩⟩
    · intro other inside
      have answered : ∀ t, t = d.request.seq ∨ sv.committedUpto < t → t ≤ (sv.onRequest d.app d.request).1.committedUpto →
          ∃ resp ∈ (out ++ (sv.onRequest d.app d.request).2).responses, resp.seq = t := by
        intro t which high
        obtain ⟨resp, emitted, seq⟩ := progress.answered t which high
        exact ⟨resp, List.mem_append_right _ emitted, seq⟩
      cases List.mem_append.mp inside with
      | inl old =>
          rcases before.handled other old with ⟨resp, emitted, seq⟩ | full | ⟨above, waiting⟩
          · exact Or.inl ⟨resp, List.mem_append_left _ emitted, seq⟩
          · omega
          · by_cases done : other.request.seq ≤ (sv.onRequest d.app d.request).1.committedUpto
            · exact Or.inl (answered _ (Or.inr above) done)
            · exact Or.inr (Or.inr ⟨by omega, progress.parked _ (by omega) (Or.inr waiting)⟩)
      | inr new =>
          rw [List.mem_singleton.mp new]
          by_cases done : d.request.seq ≤ (sv.onRequest d.app d.request).1.committedUpto
          · exact Or.inl (answered _ (Or.inl rfl) done)
          · exact Or.inr (Or.inr ⟨by omega, progress.parked _ (by omega) (Or.inl rfl)⟩)
    · intro other inside i listed
      cases List.mem_append.mp inside with
      | inl old => exact Nat.le_trans (acks other old i listed) upto
      | inr new =>
          rw [List.mem_singleton.mp new] at listed
          exact Nat.le_trans (accepted_acks sv d.request i accepted listed) upto
    · intro t above within
      by_cases old : t ≤ sv.committedUpto
      · exact (passed t above old).imp_right (later t)
      · cases (effect.committed t (by omega) within).2 with
        | inl own => exact Or.inr ⟨d, by simp, own.symm⟩
        | inr parked => exact (origin t parked).imp_right (later t)
    · intro k inside above
      exact progress.parked k above (Or.inr (kept k inside (by omega)))
    · intro k inside
      obtain ⟨r, found⟩ := (Tables.mem_iff_lookup _ _).mp inside
      rcases effect.parked k r found with old | ⟨_, own⟩
      · exact (origin k ((Tables.mem_iff_lookup _ _).mpr ⟨r, old⟩)).imp_right (later k)
      · exact Or.inr ⟨d, by simp, own ▸ (effect.agrees.holds.parked k r found).2⟩

theorem drain_call (reqs : List Request) (c : Client) (sv₀ sv : Server) (seen : List Delivery) (d : Delivery) (out : Outcome)
    (inv : ClientInv reqs c) (issued : Issued reqs) (member : d.request ∈ reqs) (before : DrainInv reqs sv₀ seen sv out) :
    DrainInv reqs sv₀ (seen ++ [d]) (harnessExchange c d.app d.request sv).1
      (out ++ (harnessExchange c d.app d.request sv).2) := by
  rw [harness_exchange_settle]
  have replayed := settle_effect reqs c d.request 8 sv inv issued before.agrees
  obtain ⟨accepted, source⟩ := settle_reaches reqs c sv d.request 8 inv issued before.agrees member (by decide)
  rcases source with same | ⟨behind, full⟩
  · rw [same] at accepted ⊢
    exact drain_accepted reqs sv₀ sv seen d out issued member accepted before
  · -- The replay brought everything, so the call cannot move the counter.
    have effect := on_request_effect reqs d.app _ d.request issued replayed.agrees member
    have clear := on_request_clear d.app _ d.request (clear_of_full reqs _ issued.numbered replayed.agrees full)
    have forward := Nat.le_trans before.forward (Nat.le_trans replayed.upto effect.upto)
    have named := drain_named reqs sv _ d out issued replayed.agrees member accepted replayed.upto before.named
    have upto := effect.upto
    have bound := effect.agrees.bound
    have low := before.forward
    have caughtUp : sv₀.committedUpto < reqs.length ∧
        ((c.settle d.request 8 sv).onRequest d.app d.request).1.committedUpto = reqs.length := by
      omega
    exact ⟨effect.agrees, Or.inl clear, forward, named, fun _ _ => Or.inr (Or.inl caughtUp), Or.inl caughtUp⟩

section Round

variable (reqs : List Request) (c : Client) (sv : Server) (round : List Delivery) (joint : Joint reqs c sv)
  (everyOutstanding : (round.map Delivery.request).Perm c.resend)
include joint everyOutstanding

theorem round_requests (d : Delivery) (member : d ∈ round) : d.request ∈ reqs ∧ d.request.seq ∉ c.received :=
  (resend_iff reqs c _ joint.issued).mp (everyOutstanding.subset (List.mem_map_of_mem member))

theorem round_delivers (i : Nat) (outstanding : i ∈ c.outstanding) : ∃ d ∈ round, d.request.seq = i := by
  obtain ⟨⟨r, member, seq⟩, unknown⟩ := (outstanding_iff reqs c i joint.issued).mp outstanding
  have sent := everyOutstanding.symm.subset ((resend_iff reqs c r joint.issued).mpr ⟨member, seq ▸ unknown⟩)
  obtain ⟨d, inRound, same⟩ := List.mem_map.mp sent
  exact ⟨d, inRound, same ▸ seq⟩

theorem round_drain : DrainInv reqs sv round (c.exchangeAll round sv).1 (c.exchangeAll round sv).2 := by
  have issued := client_inv_issued reqs c joint.client joint.issued
  apply handle_all_rule _ (DrainInv reqs sv) round _ sv (drain_start reqs sv joint.server)
  intro seen d rest next out split before
  obtain ⟨member, _⟩ := round_requests reqs c sv round joint everyOutstanding d (by simp [split])
  exact drain_call reqs c sv next seen d out joint.client issued member before

-- What is parked at the next id is outstanding, so it is sent, and the commit loop runs.
theorem round_clear :
    (c.exchangeAll round sv).1.pendingReqs[(c.exchangeAll round sv).1.committedUpto + 1]? = none := by
  rcases (round_drain reqs c sv round joint everyOutstanding).front with clear | ⟨blocked, _, low⟩
  · exact clear
  · exfalso
    obtain ⟨r, found⟩ := Option.ne_none_iff_exists'.mp blocked
    have parked := joint.server.holds.parked _ r found
    have unknown : sv.committedUpto + 1 ∉ c.received := by
      intro received
      have within := joint.front.resolve_left blocked _ received
      omega
    have outstanding := (outstanding_iff reqs c _ joint.issued).mpr ⟨⟨r, parked⟩, unknown⟩
    obtain ⟨d, member, seq⟩ := round_delivers reqs c sv round joint everyOutstanding _ outstanding
    have within := low d member
    omega

variable (answers : List Response) (everyAnswer : answers.Perm (c.exchangeAll round sv).2.responses)
include everyAnswer

theorem round_joint : Joint reqs (c.receive answers) (c.exchangeAll round sv).1 := by
  have drained := round_drain reqs c sv round joint everyOutstanding
  obtain ⟨client, issued⟩ := receive_inv reqs c answers joint.client joint.issued (fun resp member => by
    obtain ⟨low, high⟩ := drained.named resp (everyAnswer.subset member)
    exact ⟨low, Nat.le_trans high drained.agrees.bound⟩)
  exact ⟨client, issued, drained.agrees, Or.inl (round_clear reqs c sv round joint everyOutstanding)⟩

-- What is outstanding after the round was outstanding before it, and got no answer.
theorem round_left (i : Nat) (left : i ∈ (c.receive answers).outstanding) :
    i ∈ c.outstanding ∧ ∀ resp ∈ (c.exchangeAll round sv).2.responses, resp.seq ≠ i := by
  have after := round_joint reqs c sv round joint everyOutstanding answers everyAnswer
  obtain ⟨source, unknown⟩ := (outstanding_iff reqs _ i after.issued).mp left
  rw [receive_received, not_or] at unknown
  exact ⟨(outstanding_iff reqs c i joint.issued).mpr ⟨source, unknown.1⟩,
    fun resp emitted seq => unknown.2 ⟨resp, everyAnswer.symm.subset emitted, seq⟩⟩

theorem round_full (full : sv.committedUpto = reqs.length) : (c.receive answers).outstanding = [] := by
  have drained := round_drain reqs c sv round joint everyOutstanding
  apply List.eq_nil_iff_forall_not_mem.mpr
  intro i left
  obtain ⟨outstanding, unanswered⟩ := round_left reqs c sv round joint everyOutstanding answers everyAnswer i left
  obtain ⟨d, member, seq⟩ := round_delivers reqs c sv round joint everyOutstanding i outstanding
  have high := (numbered_seq_index reqs d.request joint.client.numbered
    (round_requests reqs c sv round joint everyOutstanding d member).1).2.2
  have forward := drained.forward
  rcases drained.handled d member with ⟨resp, emitted, same⟩ | ⟨behind, _⟩ | ⟨above, _⟩
  · exact unanswered resp emitted (same.trans seq)
  · omega
  · omega

-- If the gap is revealed, a round answers everything or catches up.
theorem round_revealed (revealed : Revealed c sv) :
    (c.receive answers).outstanding = [] ∨ (c.exchangeAll round sv).1.committedUpto = reqs.length := by
  have drained := round_drain reqs c sv round joint everyOutstanding
  by_contra neither
  rw [not_or] at neither
  obtain ⟨nonempty, short⟩ := neither
  obtain ⟨t, left⟩ := List.exists_mem_of_ne_nil _ nonempty
  obtain ⟨outstanding, unanswered⟩ := round_left reqs c sv round joint everyOutstanding answers everyAnswer t left
  obtain ⟨acks, passed, kept, _⟩ := drained.quiet.resolve_left (fun full => short full.2)
  have forward := drained.forward
  have bound := drained.agrees.bound
  have issued := client_inv_issued reqs c joint.client joint.issued
  -- Nothing is parked at the id the counter stopped at, so it was not sent either.
  have absent : (c.exchangeAll round sv).1.committedUpto + 1 ∉ (c.exchangeAll round sv).1.pendingReqs :=
    (getElem?_eq_none_iff _ _).mp (round_clear reqs c sv round joint everyOutstanding)
  have unsent : (c.exchangeAll round sv).1.committedUpto + 1 ∉ c.outstanding := by
    intro sent
    obtain ⟨d, member, seq⟩ := round_delivers reqs c sv round joint everyOutstanding _ sent
    rcases drained.handled d member with ⟨resp, emitted, same⟩ | full | ⟨_, waiting⟩
    · have within := (drained.named resp emitted).2
      omega
    · exact short full.2
    · exact absent (seq ▸ waiting)
  have received : (c.exchangeAll round sv).1.committedUpto + 1 ∈ c.received := by
    by_contra unknown
    have named := numbered_exists reqs _ joint.client.numbered (Nat.succ_pos (c.exchangeAll round sv).1.committedUpto) (by omega)
    exact unsent ((outstanding_iff reqs c _ joint.issued).mpr ⟨named, unknown⟩)
  have beyond : (c.exchangeAll round sv).1.committedUpto + 1 < t := by
    obtain ⟨d, member, seq⟩ := round_delivers reqs c sv round joint everyOutstanding t outstanding
    rcases drained.handled d member with ⟨resp, emitted, same⟩ | full | ⟨above, _⟩
    · exact absurd (same.trans seq) (unanswered resp emitted)
    · exact absurd full.2 short
    · have different : t ≠ (c.exchangeAll round sv).1.committedUpto + 1 := fun same => unsent (same ▸ outstanding)
      omega
  have contiguous : ∀ i, sv.committedUpto < i → i < (c.exchangeAll round sv).1.committedUpto + 1 →
      i ∈ sv.pendingReqs ∨ i ∈ c.outstanding := by
    intro i above below
    rcases passed i above (by omega) with parked | ⟨d, member, seq⟩
    · exact Or.inl parked
    · obtain ⟨inReqs, unknown⟩ := round_requests reqs c sv round joint everyOutstanding d member
      exact Or.inr ((outstanding_iff reqs c i joint.issued).mpr ⟨⟨d.request, inReqs, seq⟩, seq ▸ unknown⟩)
  obtain ⟨x, sent, i, far, listed⟩ := revealed _ (by omega) received (fun inside => absent (kept _ inside (by omega)))
    contiguous ⟨t, outstanding, beyond⟩
  obtain ⟨d, member, same⟩ := List.mem_map.mp (everyOutstanding.symm.subset sent)
  have within := acks d member i (same ▸ listed)
  omega

end Round

-- ---- the conversations that do not finish ----

-- Request j is known to the client only, and no outstanding request says so.
structure Stuck (reqs : List Request) (j : Nat) (x : Client × Server) : Prop where
  joint : Joint reqs x.1 x.2
  behind : x.2.committedUpto < j
  received : j ∈ x.1.received
  absent : j ∉ x.2.pendingReqs
  contiguous : ∀ i, x.2.committedUpto < i → i < j → i ∈ x.2.pendingReqs ∨ i ∈ x.1.outstanding
  waiting : ∃ t ∈ x.1.outstanding, j < t
  silent : ∀ r ∈ x.1.resend, ∀ i, r.Acknowledges i → i < j

theorem resend_ascending (reqs : List Request) (c : Client) (issued : ClientIssued reqs c) :
    c.resend.Pairwise (fun a b => a.seq < b.seq) := by
  rw [Client.resend, List.pairwise_filterMap]
  refine Std.ExtTreeMap.ordered_keys.imp ?_
  intro i j less a first b second
  rw [((issued.waiting i a).mp first).1.2, ((issued.waiting j b).mp second).1.2]
  exact Nat.compare_eq_lt.mp less

theorem earlier_delivery (seen rest : List Delivery) (d e : Delivery)
    (ascending : (seen ++ d :: rest).Pairwise (fun a b => a.request.seq < b.request.seq)) (member : e ∈ seen ++ d :: rest)
    (before : e.request.seq < d.request.seq) : e ∈ seen := by
  cases List.mem_append.mp member with
  | inl old => exact old
  | inr later =>
      have order := (List.pairwise_append.mp ascending).2.1
      cases List.mem_cons.mp later with
      | inl same =>
          rw [same] at before
          omega
      | inr last =>
          have after := (List.pairwise_cons.mp order).1 e last
          omega

-- A round in id order asks for no replay and leaves the counter behind j.
theorem stuck_serve (reqs : List Request) (j : Nat) (c : Client) (sv : Server) (round : List Delivery)
    (stuck : Stuck reqs j (c, sv)) (inOrder : round.map Delivery.request = c.resend) :
    (c.exchangeAll round sv).1.committedUpto < j ∧ j ∉ (c.exchangeAll round sv).1.pendingReqs := by
  obtain ⟨joint, behind, received, absent, contiguous, _, silent⟩ := stuck
  have issued := client_inv_issued reqs c joint.client joint.issued
  have high := (joint.issued.issued j received).2
  have clear := joint.front.resolve_right (fun within => absurd (within j received) (Nat.not_le.mpr behind))
  have everyOutstanding : (round.map Delivery.request).Perm c.resend := List.Perm.of_eq inOrder
  have known := round_requests reqs c sv round joint everyOutstanding
  have ascending : round.Pairwise (fun a b => a.request.seq < b.request.seq) := by
    have ordered := resend_ascending reqs c joint.issued
    rw [← inOrder, List.pairwise_map] at ordered
    exact ordered
  have kept := handle_all_rule (fun sv d => harnessExchange c d.app d.request sv)
    (fun seen next out => DrainInv reqs sv seen next out ∧ next.committedUpto < j ∧ j ∉ next.pendingReqs) round ?_ sv
    ⟨drain_start reqs sv joint.server, behind, absent⟩
  · exact kept.2
  rintro seen d rest next out split ⟨before, below, missing⟩
  obtain ⟨member, _⟩ := known d (by simp [split])
  have after := drain_call reqs c sv next seen d out joint.client issued member before
  -- The next id is parked or was sent earlier in this round, and neither is left.
  have accepted : ¬ next.needsRecover d.request := by
    intro recover
    obtain ⟨i, acks, above⟩ := (needs_recover_iff next d.request).mp recover
    have near := silent d.request (everyOutstanding.subset (List.mem_map_of_mem (by simp [split]))) i acks
    have own := issued.below d.request member i acks
    have forward := before.forward
    have empty : next.committedUpto + 1 ∉ next.pendingReqs :=
      (getElem?_eq_none_iff _ _).mp (before.front.resolve_right (fun blocked => blocked.1 clear))
    obtain ⟨_, _, still, _⟩ := before.quiet.resolve_left (fun full => by omega)
    cases contiguous (next.committedUpto + 1) (by simp only; omega) (by omega) with
    | inl parked => exact empty (still _ parked (by omega))
    | inr outstanding =>
        obtain ⟨e, inRound, seq⟩ := round_delivers reqs c sv round joint everyOutstanding _ outstanding
        rw [split] at inRound ascending
        have earlier := earlier_delivery seen rest d e ascending inRound (by omega)
        rcases before.handled e earlier with ⟨resp, emitted, same⟩ | full | ⟨_, waiting⟩
        · have within := (before.named resp emitted).2
          omega
        · omega
        · exact empty (seq ▸ waiting)
  have effect := on_request_effect reqs d.app next d.request issued before.agrees member
  have direct : harnessExchange c d.app d.request next = next.onRequest d.app d.request := by
    rw [harness_exchange_settle, settle_accepted c d.request 8 next accepted]
  have notSent : j ≠ d.request.seq := fun same => (known d (by simp [split])).2 (same ▸ received)
  rw [direct] at after ⊢
  refine ⟨after, ?_, ?_⟩
  · by_contra passed
    cases (effect.committed j below (by omega)).2 with
    | inl own => exact notSent own
    | inr parked => exact missing parked
  · intro inside
    obtain ⟨r, found⟩ := (Tables.mem_iff_lookup _ _).mp inside
    rcases effect.parked j r found with old | ⟨_, own⟩
    · exact missing ((Tables.mem_iff_lookup _ _).mpr ⟨r, old⟩)
    · exact notSent (own ▸ (effect.agrees.holds.parked j r found).2).symm

theorem stuck_round (reqs : List Request) (j : Nat) (x : Client × Server) (stuck : Stuck reqs j x) :
    ∃ y, Lossless x y ∧ Stuck reqs j y := by
  obtain ⟨c, sv⟩ := x
  let round : List Delivery := c.resend.map (fun r => ⟨r, fun _ _ _ => []⟩)
  let answers := (c.exchangeAll round sv).2.responses
  have inOrder : round.map Delivery.request = c.resend := by simp [round, Function.comp_def]
  have everyOutstanding : (round.map Delivery.request).Perm c.resend := List.Perm.of_eq inOrder
  have everyAnswer : answers.Perm (c.exchangeAll round sv).2.responses := List.Perm.refl _
  obtain ⟨below, missing⟩ := stuck_serve reqs j c sv round stuck inOrder
  obtain ⟨joint, behind, received, absent, contiguous, ⟨t, outstanding, beyond⟩, silent⟩ := stuck
  have drained := round_drain reqs c sv round joint everyOutstanding
  have after := round_joint reqs c sv round joint everyOutstanding answers everyAnswer
  have high := (joint.issued.issued j received).2
  obtain ⟨_, _, still, _⟩ := drained.quiet.resolve_left (fun full => by omega)
  have fewer : ∀ i, i ∈ (c.receive answers).outstanding → i ∈ c.outstanding := fun i left =>
    (round_left reqs c sv round joint everyOutstanding answers everyAnswer i left).1
  refine ⟨(c.receive answers, (c.exchangeAll round sv).1), ⟨round, answers, everyOutstanding, everyAnswer, rfl⟩,
    after, below, (receive_received _ _ _).mpr (Or.inl received), missing, ?_, ⟨t, ?_, beyond⟩, ?_⟩
  · intro i above near
    have forward := drained.forward
    left
    cases contiguous i (by simp only at above ⊢; omega) near with
    | inl parked => exact still i parked above
    | inr sent =>
        obtain ⟨d, member, seq⟩ := round_delivers reqs c sv round joint everyOutstanding i sent
        rcases drained.handled d member with ⟨resp, emitted, same⟩ | full | ⟨_, waiting⟩
        · have within := (drained.named resp emitted).2
          simp only at above
          omega
        · omega
        · exact seq ▸ waiting
  · -- Nothing beyond j was answered.
    obtain ⟨source, unknown⟩ := (outstanding_iff reqs c t joint.issued).mp outstanding
    refine (outstanding_iff reqs _ t after.issued).mpr ⟨source, fun now => ?_⟩
    rcases (receive_received _ _ _).mp now with old | ⟨resp, emitted, seq⟩
    · exact unknown old
    · have within := (drained.named resp emitted).2
      omega
  · intro r resent
    obtain ⟨inReqs, unknown⟩ := (resend_iff reqs _ r after.issued).mp resent
    exact silent r ((resend_iff reqs c r joint.issued).mpr
      ⟨inReqs, fun old => unknown ((receive_received _ _ _).mpr (Or.inl old))⟩)

theorem stuck_never_drains (reqs : List Request) (j : Nat) (c : Client) (sv : Server) (stuck : Stuck reqs j (c, sv)) :
    ¬ Drains c sv :=
  Transition.not_inevitable_of_progress Lossless _ (Stuck reqs j) (stuck_round reqs j)
    (fun x still empty => by
      obtain ⟨t, outstanding, _⟩ := still.waiting
      rw [empty] at outstanding
      cases outstanding) _ stuck

-- ---- what is parked at the next id between two steps ----

def Sys.AnsweredUpto (s : Sys) (k : Nat) : Prop :=
  ∀ inst resp, (inst, resp) ∈ s.responses → resp.recover = false → resp.seq ≤ k

-- Only a replay moves the counter without running the commit loop. The
-- signal it was built for came from this instance, which has answered nothing
-- beyond its counter; so a request parked at the next id means that nobody has.
structure FrontInv (s : Sys) : Prop where
  known : ∀ k ∈ s.client.received, ∃ inst resp, (inst, resp) ∈ s.responses ∧ resp.recover = false ∧ resp.seq = k
  replays : ∀ rp, (s.inst, rp) ∈ s.replays → ∃ m ≤ s.requests.length,
    rp.events.map ReplayEvent.event = (canonical (s.requests.take m)).drop rp.fromIndex ∧
      s.AnsweredUpto (max s.server.committedUpto m)
  front : s.server.pendingReqs[s.server.committedUpto + 1]? = none ∨ s.AnsweredUpto s.server.committedUpto

theorem front_answered (s : Sys) (req : Request) (app : AppFn) (rounds : Nat) (sys : SysInv s) (inv : FrontInv s)
    (member : req ∈ s.requests) :
    FrontInv (s.answer req ((s.client.settle req rounds s.server).onRequest app req)) := by
  have issued := client_inv_issued _ _ sys.client sys.issued
  obtain ⟨replayed, effect⟩ := exchange_effects s req app rounds sys member
  have forward := Nat.le_trans replayed.upto effect.upto
  have answered : ∀ k, s.AnsweredUpto k → ((s.client.settle req rounds s.server).onRequest app req).1.committedUpto ≤ k →
      (s.answer req ((s.client.settle req rounds s.server).onRequest app req)).AnsweredUpto k := by
    intro k old reached inst resp sent normal
    rcases (answer_sent s req _ inst resp).mp sent with before | ⟨_, new⟩
    · exact old inst resp before normal
    · exact Nat.le_trans (response_committed _ _ _ _ _ resp replayed.agrees effect new normal) reached
  have more : ∀ k m, s.AnsweredUpto k → k ≤ m → s.AnsweredUpto m := fun k m old le inst resp sent normal =>
    Nat.le_trans (old inst resp sent normal) le
  refine ⟨?_, ?_, ?_⟩
  · intro k received
    obtain ⟨inst, resp, sent, facts⟩ := inv.known k received
    exact ⟨inst, resp, (answer_sent s req _ inst resp).mpr (Or.inl sent), facts⟩
  · intro rp listed
    obtain ⟨m, bound, built, upto⟩ := inv.replays rp listed
    exact ⟨m, bound, built, answered _ (more _ _ upto (max_le_max_right m forward)) (Nat.le_max_left _ _)⟩
  · have settled := settle_rule
      (fun sv => Agrees s.requests sv ∧
        (sv.pendingReqs[sv.committedUpto + 1]? = none ∨ s.AnsweredUpto sv.committedUpto)) s.client req
      (fun sv before _ => by
        have effect := replay_effect s.requests sv _ issued before.1 (build_replay_ok _ _ _ sys.client) (Nat.le_refl _)
        exact ⟨effect.agrees, Or.inl (clear_of_full _ _ issued.numbered effect.agrees
          (build_replay_upto _ _ sv sys.client issued before.1))⟩)
      rounds s.server ⟨sys.server, inv.front⟩
    rcases on_request_front app (s.client.settle req rounds s.server) req with clear | ⟨parked, upto, _⟩
    · exact Or.inl clear
    · rcases settled.2 with clear | old
      · left
        change ((s.client.settle req rounds s.server).onRequest app req).1.pendingReqs[
          ((s.client.settle req rounds s.server).onRequest app req).1.committedUpto + 1]? = none
        rw [parked, upto]
        exact clear
      · exact Or.inr (answered _ (more _ _ old effect.upto) (Nat.le_refl _))

theorem front_step (s s' : Sys) (a : Action) (sys : SysInv s) (inv : FrontInv s) (taken : s.step a = some s') :
    FrontInv s' := by
  cases step_effect s s' a taken with
  | generated p kind =>
      refine ⟨inv.known, fun rp listed => ?_, inv.front⟩
      obtain ⟨m, bound, built, upto⟩ := inv.replays rp listed
      refine ⟨m, by simp only [List.length_append]; omega, ?_, upto⟩
      rw [List.take_append_of_le_length bound]
      exact built
  | answered req app rounds member => exact front_answered s req app rounds sys inv member
  | delivered index inst resp kind sent normal =>
      refine ⟨fun k received => ?_, inv.replays, inv.front⟩
      change k ∈ (s.client.onResponse resp).2.received at received
      rw [on_response_received, Finset.mem_insert] at received
      rcases received with same | old
      · exact ⟨inst, resp, List.mem_of_getElem? sent, normal, same.symm⟩
      · exact inv.known k old
  | built inst resp sent signal =>
      refine ⟨inv.known, fun rp listed => ?_, inv.front⟩
      cases List.mem_append.mp listed with
      | inl old => exact inv.replays rp old
      | inr new =>
          obtain ⟨_, rfl⟩ := Prod.mk.inj (List.mem_singleton.mp new)
          refine ⟨s.requests.length, Nat.le_refl _, ?_, fun inst answer given normal => ?_⟩
          · rw [build_replay_events, sys.client.events, List.take_length]
            rfl
          · exact Nat.le_trans (sys.normal inst answer given normal).1.2 (Nat.le_max_right _ _)
  | ingested index rp kind sent =>
      obtain ⟨m, bound, built, answered⟩ := inv.replays rp sent
      obtain ⟨_, upto, _⟩ := ingest_replay_rule s.requests (client_inv_issued _ _ sys.client sys.issued) (fun _ _ => True)
        (fun _ _ _ _ _ _ => trivial) s.server rp m sys.server bound ((sys.replays _ rp sent).1.2 rfl) built trivial
      have reached : s.AnsweredUpto (s.server.ingestReplay rp).committedUpto := by
        rw [upto]
        exact answered
      refine ⟨inv.known, fun other listed => ?_, Or.inr reached⟩
      obtain ⟨k, within, from_, _⟩ := inv.replays other listed
      exact ⟨k, within, from_, fun inst resp given normal =>
        Nat.le_trans (reached inst resp given normal) (Nat.le_max_left _ _)⟩
  | saved => exact ⟨inv.known, inv.replays, inv.front⟩
  | restored index setHash cp =>
      refine ⟨inv.known, fun rp listed => ?_, Or.inl (by simp [Server.ofCheckpoint])⟩
      have past := (sys.replays _ rp listed).1.1
      exact absurd past (by simp)

theorem reachable_joint (guard : Sys → Action → Prop) (clientHash serverHash : Bool) (s : Sys)
    (run : Reachable guard clientHash serverHash s) : Joint s.requests s.client s.server := by
  have sys := reachable_sys_inv _ _ _ s run
  have inv := run.invariant_with SysInv FrontInv (reachable_sys_inv guard clientHash serverHash)
    ⟨by simp [Sys.init, Client.fresh], by simp [Sys.init], by simp [Sys.init, Server.start]⟩
    (fun s a s' sys inv _ taken => front_step s s' a sys inv taken)
  refine ⟨sys.client, sys.issued, sys.server, inv.front.imp_right (fun upto k received => ?_)⟩
  obtain ⟨inst, resp, sent, normal, rfl⟩ := inv.known k received
  exact upto inst resp sent normal

-- Draining ends exactly when the first id that will not be sent again is
-- acknowledged by a request that will.
theorem drains_iff_revealed (clientHash serverHash : Bool) (s : Sys)
    (run : Reachable latestCrash clientHash serverHash s) :
    Drains s.client s.server ↔ Revealed s.client s.server := by
  have joint := reachable_joint _ clientHash serverHash s run
  constructor
  · intro drains
    by_contra hidden
    simp only [Revealed, not_forall, not_exists, not_and] at hidden
    obtain ⟨j, behind, received, absent, contiguous, waiting, silent⟩ := hidden
    have stuck : Stuck s.requests j (s.client, s.server) :=
      ⟨joint, behind, received, absent, contiguous, waiting, fun r resent i acks => by
        by_contra far
        exact silent r resent i (by omega) acks⟩
    exact stuck_never_drains s.requests j s.client s.server stuck drains
  · intro revealed
    refine ⟨2, fun last steps => ?_⟩
    obtain _ | ⟨first, second⟩ := steps
    obtain _ | ⟨start, first⟩ := first
    obtain _ | _ := start
    obtain ⟨round, answers, everyOutstanding, everyAnswer, rfl⟩ := first
    obtain ⟨again, more, everyLeft, everyMore, rfl⟩ := second
    have after := round_joint s.requests s.client s.server round joint everyOutstanding answers everyAnswer
    cases round_revealed s.requests s.client s.server round joint everyOutstanding answers everyAnswer revealed with
    | inl done =>
        apply List.eq_nil_iff_forall_not_mem.mpr
        intro i left
        have still := (round_left s.requests _ _ again after everyLeft more everyMore i left).1
        rw [done] at still
        cases still
    | inr full => exact round_full s.requests _ _ again after everyLeft more everyMore full

-- A late copy of 1 lets the restored instance take request 4; then the replay
-- built before 4 was generated brings the counter to 3 with 4 parked next.
def parkedNextRun : List Action :=
  [.generate [1], .generate [2], .exchange 0 (fun _ _ _ => [11]), .response 0, .crash 0 true, .generate [3],
    .request 2 (fun _ _ _ => []), .buildReplay 1, .generate [4], .request 0 (fun _ _ _ => [11]),
    .request 3 (fun _ _ _ => []), .replay 0]

theorem drains_iff_revealed_parked_next :
    ((Sys.after latestCrash true true parkedNextRun).client.outstanding = [2, 3, 4] ∧
      (Sys.after latestCrash true true parkedNextRun).server.committedUpto = 3 ∧
      (Sys.after latestCrash true true parkedNextRun).server.pendingReqs.toList.map Prod.fst = [4]) ∧
    (Drains (Sys.after latestCrash true true parkedNextRun).client (Sys.after latestCrash true true parkedNextRun).server ↔
      Revealed (Sys.after latestCrash true true parkedNextRun).client (Sys.after latestCrash true true parkedNextRun).server) :=
  ⟨by decide +kernel, drains_iff_revealed true true _ (reachable_after latestCrash true true parkedNextRun)⟩

-- The crash comes when the conversation is about to end: 1 was answered after
-- the last checkpoint, and 2 was built before that answer came.
def hiddenRun : List Action :=
  [.generate [1], .generate [2], .exchange 0 (fun _ _ _ => [11]), .response 0, .crash 0 true]

theorem conversation_stuck_after_crash :
    ¬ ∀ (clientHash serverHash : Bool) (s : Sys), Reachable latestCrash clientHash serverHash s →
      Drains s.client s.server := by
  intro always
  have run := reachable_after latestCrash true true hiddenRun
  have frozen : ∀ r ∈ (Sys.after latestCrash true true hiddenRun).client.resend, r.ackBase = 1 ∧ r.ackNew = [] := by
    decide +kernel
  have early : ∀ r ∈ (Sys.after latestCrash true true hiddenRun).client.resend, ∀ i, r.Acknowledges i → i < 1 := by
    intro r sent i acks
    obtain ⟨base, new⟩ := frozen r sent
    rw [Request.Acknowledges, base, new] at acks
    exact acks.resolve_right List.not_mem_nil
  have stuck : Stuck _ 1 ((Sys.after latestCrash true true hiddenRun).client,
      (Sys.after latestCrash true true hiddenRun).server) :=
    ⟨reachable_joint _ true true _ run, by decide +kernel, by decide +kernel, by decide +kernel,
      fun i above below => by
        have none : (Sys.after latestCrash true true hiddenRun).server.committedUpto = 0 := by decide +kernel
        simp only [none] at above
        omega,
      ⟨2, by decide +kernel, by decide⟩, early⟩
  exact stuck_never_drains _ 1 _ _ stuck (always true true _ run)

end Color
