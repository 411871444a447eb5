import Color.Agreement

set_option autoImplicit false

namespace Color

-- The ids on_request processes once it has accepted req: the one it owes an
-- answer to, or the parked run that req completes.
def Server.Due (sv : Server) (req : Request) (t : Nat) : Prop :=
  (t = req.seq ∧ t ∈ sv.awaiting) ∨
  (sv.committedUpto < req.seq ∧ sv.committedUpto < t ∧
    ∀ u ∈ Finset.Ioc sv.committedUpto t, u = req.seq ∨ u ∈ sv.pendingReqs)

instance (sv : Server) (req : Request) (t : Nat) : Decidable (sv.Due req t) :=
  inferInstanceAs (Decidable (_ ∨ _))

theorem awaiting_committed (reqs : List Request) (sv : Server) (s : Nat) (agrees : Agrees reqs sv)
    (owed : s ∈ sv.awaiting) : 1 ≤ s ∧ s ≤ sv.committedUpto := by
  obtain ⟨h, found⟩ := (Tables.mem_iff_lookup _ _).mp (agrees.holds.owed s owed).1
  exact (agrees.holds.reqHash s h found).1

theorem buffered_committed (reqs : List Request) (sv : Server) (s : Nat) (agrees : Agrees reqs sv)
    (buffered : s ∈ sv.respBuffer) : 1 ≤ s ∧ s ≤ sv.committedUpto := by
  obtain ⟨h, found⟩ := (Tables.mem_iff_lookup _ _).mp (agrees.holds.buffered s buffered)
  exact (agrees.holds.reqHash s h found).1

-- The retained events end with the last committed request as soon as any is retained.
theorem agrees_last_event (reqs : List Request) (sv : Server) (issued : Issued reqs) (agrees : Agrees reqs sv)
    (retained : sv.history.events ≠ []) : sv.history.events.getLast? = some (.request sv.committedUpto) := by
  have events := agrees.holds.events
  have bound := agrees.bound
  cases upto : sv.committedUpto with
  | zero =>
      rw [events, upto] at retained
      exact absurd (by simp [canonical]) retained
  | succ k =>
      rw [upto] at events bound
      have found := List.getElem?_eq_getElem (l := reqs) (i := k) (by omega)
      have last := canonical_take_last reqs k _ found
      rw [issued.numbered k _ found] at last
      rw [events] at retained ⊢
      rw [List.getLast?_drop, if_neg (by simpa using retained), last]

-- What the commit loop does: the ids from the counter on, in order, out of the parked requests.
structure Drained (reqs : List Request) (sv next : Server) (out : Outcome) : Prop where
  agrees : Agrees reqs next
  upto : sv.committedUpto ≤ next.committedUpto
  calls : out.calls.map Call.seq = List.range' (sv.committedUpto + 1) (next.committedUpto - sv.committedUpto)
  answers : out.responses.map (fun resp => (resp.seq, resp.payload, resp.noOp, resp.recover)) =
    out.calls.map (fun c => (c.seq, c.result, false, false))
  parkedCalls : ∀ c ∈ out.calls, ∃ r, sv.pendingReqs[c.seq]? = some r ∧ r.payload = c.payload
  shown : ∀ c ∈ out.calls, c.committed.events.getLast? = some (.request c.seq) ∧
    c.committed.eventCount = (canonical (reqs.take c.seq)).length
  awaiting : next.awaiting = sv.awaiting
  parked : ∀ k, next.pendingReqs[k]? = if sv.committedUpto < k ∧ k ≤ next.committedUpto then none else sv.pendingReqs[k]?
  buffer : ∀ (s : Nat) (p : Payload), next.respBuffer[s]? = some p →
    sv.respBuffer[s]? = some p ∨ ∃ c ∈ out.calls, c.seq = s ∧ c.result = p
  kept : ∀ s, s ∈ sv.respBuffer ∨ sv.committedUpto < s ∧ s ≤ next.committedUpto → s ∈ next.respBuffer

theorem drained_refl (reqs : List Request) (sv : Server) (agrees : Agrees reqs sv) : Drained reqs sv sv {} := by
  refine ⟨agrees, Nat.le_refl _, by simp, rfl, by simp, by simp, rfl, ?_, fun _ _ => Or.inl, ?_⟩
  · intro k
    rw [if_neg (by omega)]
  · rintro s (inside | range)
    · exact inside
    · omega

theorem drained_commit (reqs : List Request) (app : AppFn) (origin sv : Server) (out : Outcome) (r : Request)
    (issued : Issued reqs) (before : Drained reqs origin sv out)
    (found : sv.pendingReqs[sv.committedUpto + 1]? = some r) :
    Drained reqs origin (sv.commit app r).1 (out ++ (sv.commit app r).2) := by
  obtain ⟨agrees, upto, _⟩ := agrees_commit reqs issued app sv r before.agrees found
  have seq : r.seq = sv.committedUpto + 1 := (before.agrees.holds.parked _ r found).2
  have forward := before.upto
  have calls : (sv.commit app r).2.calls =
      [⟨r.seq, r.payload, (sv.commit app r).1.history, app r.seq r.payload (sv.commit app r).1.history⟩] := rfl
  have buffer : (sv.commit app r).1.respBuffer =
      sv.respBuffer.insert r.seq (app r.seq r.payload (sv.commit app r).1.history) := rfl
  refine ⟨agrees, by omega, ?_, ?_, ?_, ?_, before.awaiting, ?_, ?_, ?_⟩
  · have edge : origin.committedUpto + 1 + (sv.committedUpto - origin.committedUpto) = r.seq := by omega
    have span : sv.committedUpto + 1 - origin.committedUpto = (sv.committedUpto - origin.committedUpto) + 1 := by omega
    rw [outcome_append_calls, List.map_append, before.calls, calls, upto, span, List.range'_1_concat, edge]
    rfl
  · rw [outcome_append_responses, outcome_append_calls, List.map_append, List.map_append, before.answers, calls,
      commit_responses]
    rfl
  · intro c member
    cases List.mem_append.mp member with
    | inl old => exact before.parkedCalls c old
    | inr new =>
        rw [calls] at new
        rw [List.mem_singleton.mp new]
        have parked := before.parked (sv.committedUpto + 1)
        rw [found, if_neg (by omega)] at parked
        exact ⟨r, by rw [seq, ← parked], rfl⟩
  · intro c member
    cases List.mem_append.mp member with
    | inl old => exact before.shown c old
    | inr new =>
        rw [calls] at new
        rw [List.mem_singleton.mp new]
        have nonempty : (sv.commit app r).1.history.events ≠ [] := by
          change (sv.history.commitRequest r.ackNew r.seq).events ≠ []
          simp [commit_request_append_all, commitEvents]
        have last := agrees_last_event reqs _ issued agrees nonempty
        have count := agrees.holds.count
        rw [upto, ← seq] at last count
        exact ⟨last, count⟩
  · intro k
    have erased : (sv.commit app r).1.pendingReqs = sv.pendingReqs.erase (sv.committedUpto + 1) := rfl
    rw [erased, Tables.lookup_erase, upto, before.parked k]
    by_cases here : k = sv.committedUpto + 1
    · rw [if_pos here, if_pos (by omega)]
    · rw [if_neg here]
      by_cases passed : origin.committedUpto < k ∧ k ≤ sv.committedUpto
      · rw [if_pos passed, if_pos (by omega)]
      · rw [if_neg passed, if_neg (by omega)]
  · intro s p stored
    rw [buffer] at stored
    rcases Tables.insert_found _ _ _ _ _ stored with ⟨here, same⟩ | old
    · exact Or.inr ⟨_, List.mem_append_right _ (calls ▸ List.mem_singleton_self _), here.symm, same⟩
    · rcases before.buffer s p old with stored | ⟨c, member, facts⟩
      · exact Or.inl stored
      · exact Or.inr ⟨c, List.mem_append_left _ member, facts⟩
  · intro s source
    rw [buffer, Tables.mem_insert_iff]
    rw [upto] at source
    by_cases here : s = r.seq
    · exact Or.inl here
    · exact Or.inr (before.kept s (source.imp_right (fun range => ⟨range.1, by omega⟩)))

theorem drained_called (reqs : List Request) (sv next : Server) (out : Outcome) (t : Nat)
    (drained : Drained reqs sv next out) :
    t ∈ out.calls.map Call.seq ↔ sv.committedUpto < t ∧ t ≤ next.committedUpto := by
  have forward := drained.upto
  rw [drained.calls, List.mem_range'_1]
  omega

theorem drained_response (reqs : List Request) (sv next : Server) (out : Outcome) (resp : Response)
    (drained : Drained reqs sv next out) (emitted : resp ∈ out.responses) :
    resp.noOp = false ∧ resp.recover = false ∧ ∃ c ∈ out.calls, c.seq = resp.seq ∧ c.result = resp.payload := by
  have listed : (resp.seq, resp.payload, resp.noOp, resp.recover) ∈ out.calls.map (fun c => (c.seq, c.result, false, false)) :=
    drained.answers ▸ List.mem_map_of_mem emitted
  obtain ⟨c, called, eq⟩ := List.mem_map.mp listed
  simp only [Prod.mk.injEq] at eq
  exact ⟨eq.2.2.1.symm, eq.2.2.2.symm, c, called, eq.1, eq.2.1⟩

theorem drained_answer (reqs : List Request) (sv next : Server) (out : Outcome) (c : Call)
    (drained : Drained reqs sv next out) (called : c ∈ out.calls) : ∃ resp ∈ out.responses, resp.seq = c.seq := by
  have listed : (c.seq, c.result, false, false) ∈
      out.responses.map (fun resp => (resp.seq, resp.payload, resp.noOp, resp.recover)) :=
    drained.answers ▸ List.mem_map_of_mem called
  obtain ⟨resp, emitted, eq⟩ := List.mem_map.mp listed
  simp only [Prod.mk.injEq] at eq
  exact ⟨resp, emitted, eq.1⟩

theorem stage_and_advance_drained (reqs : List Request) (app : AppFn) (sv : Server) (req : Request)
    (issued : Issued reqs) (agrees : Agrees reqs sv) (member : req ∈ reqs) :
    Drained reqs (sv.stage req) (sv.stageAndAdvance app req).1 (sv.stageAndAdvance app req).2 :=
  stage_and_advance_rule (Drained reqs (sv.stage req)) app sv req (drained_refl reqs _ (agrees_stage reqs sv req agrees member))
    (fun next out r before found => drained_commit reqs app (sv.stage req) next out r issued before found)

structure RequestEffect (reqs : List Request) (sv : Server) (req : Request) (next : Server) (out : Outcome) : Prop where
  agrees : Agrees reqs next
  upto : sv.committedUpto ≤ next.committedUpto
  awaiting : next.awaiting ⊆ sv.awaiting
  committed : ∀ t, sv.committedUpto < t → t ≤ next.committedUpto → ¬ sv.needsRecover req ∧ (t = req.seq ∨ t ∈ sv.pendingReqs)
  due : ∀ c ∈ out.calls, ¬ sv.needsRecover req ∧ sv.Due req c.seq
  done : ∀ c ∈ out.calls, c.seq ≤ next.committedUpto ∧ c.seq ∉ next.awaiting
  order : (out.calls.map Call.seq).Pairwise (· < ·)
  shown : ∀ c ∈ out.calls, c.committed.events.getLast? = some (.request (max sv.committedUpto c.seq)) ∧
    c.committed.eventCount = (canonical (reqs.take (max sv.committedUpto c.seq))).length
  parked : ∀ (k : Nat) (r : Request), next.pendingReqs[k]? = some r →
    sv.pendingReqs[k]? = some r ∨ ¬ sv.needsRecover req ∧ r = req
  buffer : ∀ (s : Nat) (p : Payload), next.respBuffer[s]? = some p →
    sv.respBuffer[s]? = some p ∨ ∃ c ∈ out.calls, c.seq = s ∧ c.result = p
  kept : ∀ s, s ∈ sv.respBuffer ∨ s ∈ sv.awaiting ∨ sv.committedUpto < s ∧ s ≤ next.committedUpto →
    s ∈ next.respBuffer ∨ s ∈ next.awaiting ∨ ¬ sv.needsRecover req ∧ req.Acknowledges s
  answers : ∀ resp ∈ out.responses, resp.recover = false → resp.noOp = false →
    sv.respBuffer[resp.seq]? = some resp.payload ∨ ∃ c ∈ out.calls, c.seq = resp.seq ∧ c.result = resp.payload
  noOps : ∀ resp ∈ out.responses, resp.recover = false → resp.noOp = true →
    resp.seq = req.seq ∧ resp.seq ≤ sv.committedUpto ∧ resp.seq ∉ sv.awaiting ∧ resp.seq ∉ sv.respBuffer

theorem answer_only_effect (reqs : List Request) (sv : Server) (req : Request) (resp : Response)
    (agrees : Agrees reqs sv) (accepted : ¬ sv.needsRecover req)
    (answers : resp.noOp = false → sv.respBuffer[resp.seq]? = some resp.payload)
    (noOps : resp.noOp = true →
      resp.seq = req.seq ∧ resp.seq ≤ sv.committedUpto ∧ resp.seq ∉ sv.awaiting ∧ resp.seq ∉ sv.respBuffer) :
    RequestEffect reqs sv req (sv.releaseAcked req).trackBounds { responses := [resp] } := by
  have released := agrees_track reqs _ (agrees_release reqs sv req agrees)
  have same : (sv.releaseAcked req).trackBounds.committedUpto = sv.committedUpto := rfl
  refine ⟨released, Nat.le_refl _, Finset.Subset.refl _, by omega, by simp, by simp, by simp, by simp,
    fun _ _ => Or.inl, ?_, ?_, ?_, ?_⟩
  · exact fun s p stored => Or.inl (release_found sv req s p stored).2
  · rintro s (buffered | owed | range)
    · by_cases acked : req.Acknowledges s
      · exact Or.inr (Or.inr ⟨accepted, acked⟩)
      · exact Or.inl ((release_member sv req s).mpr ⟨buffered, acked⟩)
    · exact Or.inr (Or.inl owed)
    · have within : s ≤ sv.committedUpto := range.2
      omega
  · intro only member _ plain
    rw [List.mem_singleton.mp member] at plain ⊢
    exact Or.inl (answers plain)
  · intro only member _ empty
    rw [List.mem_singleton.mp member] at empty ⊢
    exact noOps empty

theorem process_effect (reqs : List Request) (app : AppFn) (sv : Server) (req : Request) (issued : Issued reqs)
    (agrees : Agrees reqs sv) (accepted : ¬ sv.needsRecover req) (owed : req.seq ∈ sv.awaiting) :
    RequestEffect reqs sv req ((sv.releaseAcked req).process app req).1.trackBounds
      ((sv.releaseAcked req).process app req).2 := by
  have released := agrees_release reqs sv req agrees
  have processed := agrees_track reqs _ (agrees_process reqs app _ req released owed)
  have within := (awaiting_committed reqs sv req.seq agrees owed).2
  have buffer : ((sv.releaseAcked req).process app req).1.trackBounds.respBuffer =
      (sv.releaseAcked req).respBuffer.insert req.seq (app req.seq req.payload sv.history) := rfl
  have calls : ((sv.releaseAcked req).process app req).2.calls =
      [⟨req.seq, req.payload, sv.history, app req.seq req.payload sv.history⟩] := rfl
  have awaiting : ((sv.releaseAcked req).process app req).1.trackBounds.awaiting = sv.awaiting.erase req.seq := rfl
  have same : ((sv.releaseAcked req).process app req).1.trackBounds.committedUpto = sv.committedUpto := rfl
  refine ⟨processed, Nat.le_refl _, Finset.erase_subset _ _, by omega, ?_, ?_, ?_, ?_, fun _ _ => Or.inl, ?_, ?_, ?_, ?_⟩
  · intro c member
    rw [calls] at member
    rw [List.mem_singleton.mp member]
    exact ⟨accepted, Or.inl ⟨rfl, owed⟩⟩
  · intro c member
    rw [calls] at member
    rw [List.mem_singleton.mp member, awaiting]
    exact ⟨within, Finset.notMem_erase _ _⟩
  · rw [calls]
    exact List.pairwise_singleton _ _
  · intro c member
    rw [calls] at member
    rw [List.mem_singleton.mp member, Nat.max_eq_left within]
    have retained := (agrees.holds.owed req.seq owed).2.2
    exact ⟨agrees_last_event reqs sv issued agrees (List.ne_nil_of_mem retained), agrees.holds.count⟩
  · intro s p stored
    rw [buffer] at stored
    rcases Tables.insert_found _ _ _ _ _ stored with ⟨here, same⟩ | old
    · exact Or.inr ⟨_, calls ▸ List.mem_singleton_self _, here.symm, same⟩
    · exact Or.inl (release_found sv req s p old).2
  · rintro s (buffered | waiting | range)
    · by_cases acked : req.Acknowledges s
      · exact Or.inr (Or.inr ⟨accepted, acked⟩)
      · have inside := (release_member sv req s).mpr ⟨buffered, acked⟩
        rw [buffer, Tables.mem_insert_iff]
        exact Or.inl (Or.inr inside)
    · rw [buffer, awaiting, Tables.mem_insert_iff]
      by_cases here : s = req.seq
      · exact Or.inl (Or.inl here)
      · exact Or.inr (Or.inl (Finset.mem_erase_of_ne_of_mem here waiting))
    · omega
  · intro resp member _ _
    rw [process_responses] at member
    rw [List.mem_singleton.mp member]
    exact Or.inr ⟨_, calls ▸ List.mem_singleton_self _, rfl, rfl⟩
  · intro resp member _ empty
    rw [process_responses] at member
    rw [List.mem_singleton.mp member] at empty
    cases empty

-- Every id the counter passes was parked, or is the one that completed the run.
theorem advance_passed (reqs : List Request) (app : AppFn) (sv : Server) (req : Request) (issued : Issued reqs)
    (agrees : Agrees reqs sv) (member : req ∈ reqs) (u : Nat) (low : sv.committedUpto < u)
    (high : u ≤ ((sv.releaseAcked req).stageAndAdvance app req).1.committedUpto) :
    u = req.seq ∨ u ∈ sv.pendingReqs := by
  have drained := stage_and_advance_drained reqs app _ req issued (agrees_release reqs sv req agrees) member
  obtain ⟨d, called, seq⟩ := List.mem_map.mp ((drained_called reqs _ _ _ u drained).mpr ⟨low, high⟩)
  obtain ⟨r, found, _⟩ := drained.parkedCalls d called
  rw [seq] at found
  rcases Tables.insert_found sv.pendingReqs req.seq u req r found with ⟨own, _⟩ | old
  · exact Or.inl own
  · exact Or.inr ((Tables.mem_iff_lookup _ _).mpr ⟨r, old⟩)

theorem advance_effect (reqs : List Request) (app : AppFn) (sv : Server) (req : Request) (issued : Issued reqs)
    (agrees : Agrees reqs sv) (member : req ∈ reqs) (accepted : ¬ sv.needsRecover req)
    (above : sv.committedUpto < req.seq) :
    RequestEffect reqs sv req ((sv.releaseAcked req).stageAndAdvance app req).1.trackBounds
      ((sv.releaseAcked req).stageAndAdvance app req).2 := by
  have drained := stage_and_advance_drained reqs app _ req issued (agrees_release reqs sv req agrees) member
  have upto : sv.committedUpto ≤ ((sv.releaseAcked req).stageAndAdvance app req).1.committedUpto := drained.upto
  have awaiting : ((sv.releaseAcked req).stageAndAdvance app req).1.awaiting = sv.awaiting := drained.awaiting
  have range : ∀ c ∈ ((sv.releaseAcked req).stageAndAdvance app req).2.calls, sv.committedUpto < c.seq ∧
      c.seq ≤ ((sv.releaseAcked req).stageAndAdvance app req).1.committedUpto :=
    fun c inside => (drained_called reqs _ _ _ c.seq drained).mp (List.mem_map_of_mem inside)
  have passed := advance_passed reqs app sv req issued agrees member
  refine ⟨agrees_track reqs _ drained.agrees, upto, Finset.subset_of_eq awaiting,
    fun t low high => ⟨accepted, passed t low high⟩, ?_, ?_, ?_, ?_, ?_, ?_, ?_, ?_, ?_⟩
  · intro c inside
    refine ⟨accepted, Or.inr ⟨above, (range c inside).1, fun u between => ?_⟩⟩
    obtain ⟨low, high⟩ := Finset.mem_Ioc.mp between
    exact passed u low (Nat.le_trans high (range c inside).2)
  · intro c inside
    refine ⟨(range c inside).2, fun owed => ?_⟩
    have old : c.seq ∈ sv.awaiting := awaiting ▸ owed
    have committed := (awaiting_committed reqs sv c.seq agrees old).2
    have fresh := (range c inside).1
    omega
  · rw [drained.calls]
    exact List.pairwise_lt_range'
  · intro c inside
    rw [Nat.max_eq_right (Nat.le_of_lt (range c inside).1)]
    exact drained.shown c inside
  · intro k r found
    have parked : ((sv.releaseAcked req).stageAndAdvance app req).1.pendingReqs[k]? = some r := found
    rw [drained.parked] at parked
    split at parked
    · cases parked
    · rcases Tables.insert_found sv.pendingReqs req.seq k req r parked with ⟨_, own⟩ | old
      · exact Or.inr ⟨accepted, own.symm⟩
      · exact Or.inl old
  · exact fun s p stored => (drained.buffer s p stored).imp_left (fun old => (release_found sv req s p old).2)
  · rintro s (buffered | waiting | fresh)
    · by_cases acked : req.Acknowledges s
      · exact Or.inr (Or.inr ⟨accepted, acked⟩)
      · exact Or.inl (drained.kept s (Or.inl ((release_member sv req s).mpr ⟨buffered, acked⟩)))
    · exact Or.inr (Or.inl (awaiting ▸ waiting))
    · exact Or.inl (drained.kept s (Or.inr fresh))
  · intro resp inside _ _
    exact Or.inr (drained_response reqs _ _ _ resp drained inside).2.2
  · intro resp inside _ empty
    have plain := (drained_response reqs _ _ _ resp drained inside).1
    rw [empty] at plain
    cases plain

theorem on_request_effect (reqs : List Request) (app : AppFn) (sv : Server) (req : Request) (issued : Issued reqs)
    (agrees : Agrees reqs sv) (member : req ∈ reqs) :
    RequestEffect reqs sv req (sv.onRequest app req).1 (sv.onRequest app req).2 := by
  have own : ¬ req.Acknowledges req.seq := fun acks => by
    have below := issued.below req member req.seq acks
    omega
  apply on_request_rule (RequestEffect reqs sv req)
  · intro _
    refine ⟨agrees, Nat.le_refl _, Finset.Subset.refl _, by omega, by simp, by simp, by simp, by simp, fun _ _ => Or.inl,
      fun _ _ => Or.inl, ?_, ?_, ?_⟩
    · rintro s (buffered | owed | range)
      · exact Or.inl buffered
      · exact Or.inr (Or.inl owed)
      · omega
    · intro resp inside normal
      rw [List.mem_singleton.mp inside] at normal
      cases normal
    · intro resp inside normal
      rw [List.mem_singleton.mp inside] at normal
      cases normal
  · intro accepted within
    have unchanged : (sv.releaseAcked req).respBuffer[req.seq]? = sv.respBuffer[req.seq]? := by
      rw [release_lookup, if_neg own]
    apply answer_committed_rule (fun next out => RequestEffect reqs sv req next.trackBounds out)
    · intro payload buffered
      apply answer_only_effect reqs sv req _ agrees accepted
      · exact fun _ => unchanged ▸ buffered
      · intro empty
        cases empty
    · exact fun _ owed => process_effect reqs app sv req issued agrees accepted owed
    · intro missing settled
      apply answer_only_effect reqs sv req _ agrees accepted
      · intro plain
        cases plain
      · refine fun _ => ⟨rfl, within, settled, fun inside => ?_⟩
        obtain ⟨payload, found⟩ := (Tables.mem_iff_lookup _ _).mp inside
        rw [unchanged] at missing
        exact absurd (missing.symm.trans found) (by simp)
  · exact fun accepted above => advance_effect reqs app sv req issued agrees member accepted above

theorem response_committed (reqs : List Request) (sv next : Server) (req : Request) (out : Outcome) (resp : Response)
    (agrees : Agrees reqs sv) (effect : RequestEffect reqs sv req next out) (emitted : resp ∈ out.responses)
    (normal : resp.recover = false) : resp.seq ≤ next.committedUpto := by
  cases kind : resp.noOp with
  | true => exact Nat.le_trans (effect.noOps resp emitted normal kind).2.1 effect.upto
  | false =>
      rcases effect.answers resp emitted normal kind with stored | ⟨c, called, seq, _⟩
      · have buffered := (Tables.mem_iff_lookup _ _).mpr ⟨_, stored⟩
        exact Nat.le_trans (buffered_committed reqs sv resp.seq agrees buffered).2 effect.upto
      · exact seq ▸ (effect.done c called).1

-- What an accepted request achieves: it is answered or parked.
structure RequestProgress (sv : Server) (req : Request) (next : Server) (out : Outcome) : Prop where
  normal : ∀ resp ∈ out.responses, resp.recover = false
  answered : ∀ t, t = req.seq ∨ sv.committedUpto < t → t ≤ next.committedUpto → ∃ resp ∈ out.responses, resp.seq = t
  parked : ∀ k, next.committedUpto < k → k = req.seq ∨ k ∈ sv.pendingReqs → k ∈ next.pendingReqs
  stale : ∀ k ∈ next.pendingReqs, k ≤ next.committedUpto → k ∈ sv.pendingReqs ∧ k ≤ sv.committedUpto
  released : ∀ i ∈ next.respBuffer, ¬ req.Acknowledges i

-- Where nothing new is committed the request's own seq is all there is to answer or to park.
theorem answered_within (sv : Server) (req : Request) (resp : Response) (seq : resp.seq = req.seq) (t : Nat)
    (due : t = req.seq ∨ sv.committedUpto < t) (bound : t ≤ sv.committedUpto) :
    ∃ only ∈ [resp], only.seq = t := by
  cases due with
  | inl same => exact ⟨resp, List.mem_singleton_self _, seq.trans same.symm⟩
  | inr above => omega

theorem parked_within (sv : Server) (req : Request) (within : req.seq ≤ sv.committedUpto) (k : Nat)
    (above : sv.committedUpto < k) (waits : k = req.seq ∨ k ∈ sv.pendingReqs) : k ∈ sv.pendingReqs := by
  cases waits with
  | inl same => omega
  | inr inside => exact inside

theorem answer_only_progress (sv : Server) (req : Request) (resp : Response) (seq : resp.seq = req.seq)
    (normal : resp.recover = false) (within : req.seq ≤ sv.committedUpto) :
    RequestProgress sv req (sv.releaseAcked req).trackBounds { responses := [resp] } := by
  refine ⟨?_, answered_within sv req resp seq, parked_within sv req within, fun k => And.intro,
    fun i inside => ((release_member sv req i).mp inside).2⟩
  intro only member
  rw [List.mem_singleton.mp member]
  exact normal

theorem process_progress (app : AppFn) (sv : Server) (req : Request) (own : ¬ req.Acknowledges req.seq)
    (within : req.seq ≤ sv.committedUpto) :
    RequestProgress sv req ((sv.releaseAcked req).process app req).1.trackBounds
      ((sv.releaseAcked req).process app req).2 := by
  refine ⟨?_, ?_, parked_within sv req within, fun k => And.intro, ?_⟩
  · intro resp member
    rw [process_responses] at member
    rw [List.mem_singleton.mp member]
    rfl
  · rw [process_responses]
    exact answered_within sv req _ rfl
  · intro i inside acks
    cases (Tables.mem_insert_iff _ _ _ _).mp inside with
    | inl here => exact own (here ▸ acks)
    | inr old => exact ((release_member sv req i).mp old).2 acks

theorem advance_progress (reqs : List Request) (app : AppFn) (sv : Server) (req : Request) (issued : Issued reqs)
    (agrees : Agrees reqs sv) (member : req ∈ reqs) (accepted : ¬ sv.needsRecover req)
    (above : sv.committedUpto < req.seq) :
    RequestProgress sv req ((sv.releaseAcked req).stageAndAdvance app req).1.trackBounds
      ((sv.releaseAcked req).stageAndAdvance app req).2 := by
  have drained := stage_and_advance_drained reqs app _ req issued (agrees_release reqs sv req agrees) member
  have staged : ∀ k, k ∈ ((sv.releaseAcked req).stage req).pendingReqs ↔ k = req.seq ∨ k ∈ sv.pendingReqs := by
    intro k
    exact Tables.mem_insert_iff sv.pendingReqs req.seq k req
  have parked : ∀ k, k ∈ ((sv.releaseAcked req).stageAndAdvance app req).1.pendingReqs ↔
      ¬ (sv.committedUpto < k ∧ k ≤ ((sv.releaseAcked req).stageAndAdvance app req).1.committedUpto) ∧
        (k = req.seq ∨ k ∈ sv.pendingReqs) := by
    intro k
    rw [← staged, Tables.mem_iff_lookup, Tables.mem_iff_lookup, drained.parked k]
    have same : ((sv.releaseAcked req).stage req).committedUpto = sv.committedUpto := rfl
    rw [same]
    split <;> simp_all
  have called : ∀ t, t ∈ ((sv.releaseAcked req).stageAndAdvance app req).2.calls.map Call.seq ↔
      sv.committedUpto < t ∧ t ≤ ((sv.releaseAcked req).stageAndAdvance app req).1.committedUpto :=
    fun t => drained_called reqs ((sv.releaseAcked req).stage req) _ _ t drained
  refine ⟨?_, ?_, ?_, ?_, ?_⟩
  · exact fun resp inside => (drained_response reqs _ _ _ resp drained inside).2.1
  · intro t which bound
    have fresh : sv.committedUpto < t := by omega
    obtain ⟨c, inside, seq⟩ := List.mem_map.mp ((called t).mpr ⟨fresh, bound⟩)
    obtain ⟨resp, emitted, same⟩ := drained_answer reqs _ _ _ c drained inside
    exact ⟨resp, emitted, same.trans seq⟩
  · intro k beyond source
    have final : ((sv.releaseAcked req).stageAndAdvance app req).1.committedUpto < k := beyond
    exact (parked k).mpr ⟨by omega, source⟩
  · intro k inside bound
    have final : k ≤ ((sv.releaseAcked req).stageAndAdvance app req).1.committedUpto := bound
    obtain ⟨range, source⟩ := (parked k).mp inside
    have old : k ≤ sv.committedUpto := by omega
    exact ⟨source.resolve_left (by omega), old⟩
  · intro i inside acks
    obtain ⟨p, found⟩ := (Tables.mem_iff_lookup _ _).mp inside
    rcases drained.buffer i p found with old | ⟨c, call, seq, _⟩
    · exact ((release_member sv req i).mp ((Tables.mem_iff_lookup _ _).mpr ⟨p, old⟩)).2 acks
    · have fresh := ((called i).mp (seq ▸ List.mem_map_of_mem call)).1
      have bound := accepted_acks sv req i accepted acks
      omega

theorem on_request_progress (reqs : List Request) (app : AppFn) (sv : Server) (req : Request) (issued : Issued reqs)
    (agrees : Agrees reqs sv) (member : req ∈ reqs) (accepted : ¬ sv.needsRecover req) :
    RequestProgress sv req (sv.onRequest app req).1 (sv.onRequest app req).2 := by
  have own : ¬ req.Acknowledges req.seq := fun acks => by
    have below := issued.below req member req.seq acks
    omega
  apply on_request_rule (RequestProgress sv req)
  · exact fun refused => absurd refused accepted
  · intro _ within
    apply answer_committed_rule (fun next out => RequestProgress sv req next.trackBounds out)
    · exact fun _ _ => answer_only_progress sv req _ rfl rfl within
    · exact fun _ _ => process_progress app sv req own within
    · exact fun _ _ => answer_only_progress sv req _ rfl rfl within
  · exact fun _ above => advance_progress reqs app sv req issued agrees member accepted above

end Color
