import Color.Instance

set_option autoImplicit false

namespace Color

-- An application call for an id comes before every request of the same instance
-- that acknowledges it, and the committed history does not hold its response.
structure NoReprocessing (s : Sys) : Prop where
  ordered : s.log.Pairwise (fun before after =>
    ∀ g r c, before = .accepted g r → after = .invoked g c → ¬ r.Acknowledges c.seq)
  unanswered : ∀ g c, Obs.invoked g c ∈ s.log →
    Event.response c.seq ∉ s.client.history.events.take c.committed.eventCount

-- No accepted request acknowledges an id the server still owes an answer for:
-- release_acked and the commit loop leave awaiting_ alone.
def acksNothingOwed (s : Sys) (a : Action) : Prop :=
  ∀ p ∈ s.accepting a, ¬ p.1.needsRecover p.2 → ∀ i ∈ p.1.awaiting, ¬ p.2.Acknowledges i

instance (s : Sys) (a : Action) : Decidable (acksNothingOwed s a) :=
  inferInstanceAs (Decidable (∀ p ∈ s.accepting a, _))

-- A committed prefix of k requests that holds no response to the call's request.
def Unanswered (reqs : List Request) (c : Call) : Prop :=
  ∃ k ≤ reqs.length, c.committed.eventCount = (canonical (reqs.take k)).length ∧ ¬ AnsweredBy reqs k c.seq

structure OwedInv (s : Sys) : Prop where
  ordered : s.log.Pairwise (fun before after =>
    ∀ g r c, before = .accepted g r → after = .invoked g c → ¬ r.Acknowledges c.seq)
  unanswered : ∀ g c, Obs.invoked g c ∈ s.log → Unanswered s.requests c
  owed : ∀ i ∈ s.server.awaiting, ¬ AnsweredBy s.requests s.server.committedUpto i
  unacked : ∀ r, Obs.accepted s.inst r ∈ s.log → ∀ i ∈ s.server.awaiting, ¬ r.Acknowledges i

theorem answered_by_below (reqs : List Request) (k i : Nat) (issued : Issued reqs) (answered : AnsweredBy reqs k i) :
    i < k := by
  obtain ⟨r, early, listed⟩ := (response_mem_canonical _ i).mp answered
  have inReqs := List.mem_of_mem_take early
  have above := issued.below r inReqs i (Or.inr listed)
  have bound := (numbered_mem_take reqs r k issued.numbered inReqs).mp early
  omega

theorem owed_replay (s : Sys) (sv : Server) (inst : InstanceInv s) (inv : OwedInv s)
    (replayed : ReplayEffect s.requests s.server sv) :
    (∀ i ∈ sv.awaiting, ¬ AnsweredBy s.requests sv.committedUpto i) ∧
      ∀ r, Obs.accepted s.inst r ∈ s.log → ∀ i ∈ sv.awaiting, ¬ r.Acknowledges i := by
  constructor
  · intro i member answered
    obtain ⟨before, earlier⟩ := replayed.clean i member answered
    exact inv.owed i before earlier
  · intro r logged i member acks
    cases replayed.awaiting i member with
    | inl before => exact inv.unacked r logged i before acks
    | inr above =>
        have bound := inst.acked r logged i acks
        omega

-- A response event that a commit adds was listed by a request the instance accepted.
theorem answered_by_committed (s : Sys) (sv next : Server) (req : Request) (out : Outcome) (i : Nat) (sys : SysInv s)
    (inst : InstanceInv s) (member : req ∈ s.requests) (replayed : ReplayEffect s.requests s.server sv)
    (effect : RequestEffect s.requests sv req next out) (answered : AnsweredBy s.requests next.committedUpto i) :
    AnsweredBy s.requests sv.committedUpto i ∨
      (¬ sv.needsRecover req ∧ req.Acknowledges i) ∨ ∃ r, Obs.accepted s.inst r ∈ s.log ∧ r.Acknowledges i := by
  obtain ⟨r, early, listed⟩ := (response_mem_canonical _ i).mp answered
  have inReqs := List.mem_of_mem_take early
  have numbered := sys.client.numbered
  have within := (numbered_mem_take _ r _ numbered inReqs).mp early
  by_cases old : r.seq ≤ sv.committedUpto
  · exact Or.inl ((response_mem_canonical _ i).mpr ⟨r, (numbered_mem_take _ r _ numbered inReqs).mpr old, listed⟩)
  · obtain ⟨accepted, source⟩ := effect.committed r.seq (by omega) within
    cases source with
    | inl same =>
        rw [numbered_seq_unique _ r req numbered inReqs member same] at listed
        exact Or.inr (Or.inl ⟨accepted, Or.inr listed⟩)
    | inr parked =>
        obtain ⟨q, found⟩ := (Tables.mem_iff_lookup _ _).mp parked
        obtain ⟨inReqs', seq⟩ := replayed.agrees.holds.parked r.seq q found
        rw [numbered_seq_unique _ q r numbered inReqs' inReqs seq, replayed.parked] at found
        exact Or.inr (Or.inr ⟨r, inst.parked r.seq r found, Or.inr listed⟩)

theorem owed_answer (s : Sys) (sv : Server) (req : Request) (app : AppFn) (sys : SysInv s) (inst : InstanceInv s)
    (inv : OwedInv s) (member : req ∈ s.requests)
    (allowed : ¬ sv.needsRecover req → ∀ i ∈ sv.awaiting, ¬ req.Acknowledges i)
    (replayed : ReplayEffect s.requests s.server sv)
    (effect : RequestEffect s.requests sv req (sv.onRequest app req).1 (sv.onRequest app req).2) :
    OwedInv (s.answer req (sv.onRequest app req)) := by
  have issued := client_inv_issued _ _ sys.client sys.issued
  obtain ⟨owed, unacked⟩ := owed_replay s sv inst inv replayed
  have own : ∀ i, ¬ sv.needsRecover req → (i ∈ sv.awaiting ∨ sv.committedUpto < i) → ¬ req.Acknowledges i := by
    rintro i accepted (waiting | above) acks
    · exact allowed accepted i waiting acks
    · have bound := accepted_acks sv req i accepted acks
      omega
  have earlier : ∀ r, Obs.accepted s.inst r ∈ s.log → ∀ i, (i ∈ sv.awaiting ∨ sv.committedUpto < i) → ¬ r.Acknowledges i := by
    rintro r logged i (waiting | above) acks
    · exact unacked r logged i waiting acks
    · have bound := Nat.le_trans (inst.acked r logged i acks) replayed.upto
      omega
  refine ⟨?_, ?_, ?_, ?_⟩
  · change (s.log ++ observed s.inst req (sv.onRequest app req).2).Pairwise _
    rw [List.pairwise_append]
    refine ⟨inv.ordered, ?_, ?_⟩
    · -- Within one answer the acceptance is req's own.
      apply List.Pairwise.imp_of_mem _ (List.pairwise_of_forall (fun _ _ => trivial))
      rintro before after first later _ g r c rfl rfl
      obtain ⟨_, called⟩ := (invoked_mem_observed _ _ _ _ _).mp later
      obtain ⟨⟨_, same⟩, _⟩ := (accepted_mem_observed _ _ _ _ _).mp first
      obtain ⟨accepted, due⟩ := effect.due c called
      rw [same]
      exact own c.seq accepted (due_fresh sv req c.seq due)
    · rintro before first after later g r c rfl rfl
      obtain ⟨here, called⟩ := (invoked_mem_observed _ _ _ _ _).mp later
      rw [here] at first
      exact earlier r first c.seq (due_fresh sv req c.seq (effect.due c called).2)
  · intro g c logged
    cases List.mem_append.mp logged with
    | inl old => exact inv.unanswered g c old
    | inr new =>
        obtain ⟨_, called⟩ := (invoked_mem_observed _ _ _ _ _).mp new
        have within : max sv.committedUpto c.seq ≤ s.requests.length :=
          Nat.max_le.mpr ⟨replayed.agrees.bound, Nat.le_trans (effect.done c called).1 effect.agrees.bound⟩
        refine ⟨max sv.committedUpto c.seq, within, (effect.shown c called).2, fun answered => ?_⟩
        cases due_fresh sv req c.seq (effect.due c called).2 with
        | inl waiting =>
            have committed := (awaiting_committed _ sv c.seq replayed.agrees waiting).2
            rw [Nat.max_eq_left committed] at answered
            exact owed c.seq waiting answered
        | inr above =>
            rw [Nat.max_eq_right (Nat.le_of_lt above)] at answered
            have below := answered_by_below _ _ _ issued answered
            omega
  · intro i waiting answered
    have before := effect.awaiting waiting
    rcases answered_by_committed s sv _ req _ i sys inst member replayed effect answered with old | ⟨accepted, acks⟩ | ⟨r, logged, acks⟩
    · exact owed i before old
    · exact allowed accepted i before acks
    · exact unacked r logged i before acks
  · intro r logged i waiting acks
    have before := effect.awaiting waiting
    cases List.mem_append.mp logged with
    | inl old => exact unacked r old i before acks
    | inr new =>
        obtain ⟨⟨_, same⟩, accepted⟩ := (accepted_mem_observed _ _ _ _ _).mp new
        rw [same] at acks
        exact allowed (fun refused => accepted ((on_request_recover_iff app sv req).mpr refused)) i before acks

theorem owed_deliver (s : Sys) (resp : Response) (inv : OwedInv s) : OwedInv (s.deliver resp) := by
  refine ⟨?_, ?_, inv.owed, ?_⟩
  · -- Neither a receipt nor a mismatch is an acceptance or a call.
    change (s.log ++ (if (s.client.onResponse resp).1.first then [Obs.received resp] else []) ++
      ((s.client.onResponse resp).1.mismatch.map Obs.mismatch).toList).Pairwise _
    rw [List.append_assoc, List.pairwise_append]
    refine ⟨inv.ordered, ?_, ?_⟩
    · cases (s.client.onResponse resp).1.first <;> cases (s.client.onResponse resp).1.mismatch <;> simp
    · rintro before _ after later g r c _ rfl
      cases first : (s.client.onResponse resp).1.first <;> cases mismatch : (s.client.onResponse resp).1.mismatch <;>
        simp [first, mismatch] at later
  · intro g c logged
    exact inv.unanswered g c (by simpa using (deliver_log s resp _).mp logged)
  · intro r logged
    have old : Obs.accepted s.inst r ∈ s.log := by simpa using (deliver_log s resp (.accepted s.inst r)).mp logged
    exact inv.unacked r old

theorem unanswered_grow (reqs more : List Request) (c : Call) (unanswered : Unanswered reqs c) :
    Unanswered (reqs ++ more) c := by
  obtain ⟨k, bound, count, absent⟩ := unanswered
  refine ⟨k, by rw [List.length_append]; omega, ?_, ?_⟩
  · rw [take_issued _ _ k bound]
    exact count
  · rw [AnsweredBy, take_issued _ _ k bound]
    exact absent

theorem owed_step (s s' : Sys) (a : Action) (sys : SysInv s) (inst : InstanceInv s) (inv : OwedInv s)
    (allowed : acksNothingOwed s a) (taken : s.step a = some s') : OwedInv s' := by
  cases step_effect s s' a taken with
  | generated p =>
      refine ⟨inv.ordered, fun g c logged => unanswered_grow _ _ c (inv.unanswered g c logged), ?_, inv.unacked⟩
      intro i waiting
      rw [AnsweredBy, take_issued _ _ _ sys.server.bound]
      exact inv.owed i waiting
  | built | saved => exact ⟨inv.ordered, inv.unanswered, inv.owed, inv.unacked⟩
  | answered req app rounds member accepting =>
      obtain ⟨replayed, effect⟩ := exchange_effects s req app rounds sys member
      exact owed_answer s _ req app sys inst inv member (allowed _ accepting) replayed effect
  | delivered _ _ resp => exact owed_deliver s resp inv
  | ingested _ rp _ sent =>
      obtain ⟨owed, unacked⟩ := owed_replay s _ inst inv (ingest_effect s rp sys sent)
      exact ⟨inv.ordered, inv.unanswered, owed, unacked⟩
  | restored => exact ⟨inv.ordered, inv.unanswered, by simp [Server.ofCheckpoint], by simp [Server.ofCheckpoint]⟩

-- An instance that accepts no acknowledgement of an id it owes an answer for
-- never processes an acknowledged request.
theorem owed_answers_not_repeated (clientHash serverHash : Bool) (s : Sys)
    (run : Reachable acksNothingOwed clientHash serverHash s) : NoReprocessing s := by
  have inv : OwedInv s := run.invariant_with (fun s => SysInv s ∧ InstanceInv s) OwedInv
    (fun s before => ⟨reachable_sys_inv _ _ _ s before, reachable_instance _ _ _ s before⟩)
    (by constructor <;> simp [Sys.init, Server.start])
    (fun s a s' known inv allowed taken => owed_step s s' a known.1 known.2 inv allowed taken)
  have sys := reachable_sys_inv _ _ _ s run
  refine ⟨inv.ordered, fun g c logged => ?_⟩
  obtain ⟨k, _, count, absent⟩ := inv.unanswered g c logged
  rw [sys.client.events, count, canonical_take_length]
  exact absent

-- Request 2 is owed an answer after the replay; its first answer is still on the
-- way, and no later request is built before request 2 is handed in again.
def answeredAgainRun : List Action :=
  [.generate [1], .generate [2], .exchange 0 (fun _ _ _ => [11]), .response 0, .exchange 1 (fun _ _ _ => [12]), .generate [3],
    .crash 0 true, .exchange 2 (fun _ _ _ => [13]), .exchange 1 (fun _ _ _ => [14]), .response 1]

theorem owed_answers_not_repeated_again :
    (Sys.after acksNothingOwed true true answeredAgainRun).client.received = {1, 2} ∧
      NoReprocessing (Sys.after acksNothingOwed true true answeredAgainRun) :=
  ⟨by decide +kernel, owed_answers_not_repeated true true _ (reachable_after acksNothingOwed true true answeredAgainRun)⟩

-- The client gets the first instance's answer to 2 and acknowledges it with
-- request 4; then a late copy of request 2 arrives.
def acknowledgedAgainRun : List Action :=
  [.generate [1], .generate [2], .exchange 0 (fun _ _ _ => [11]), .response 0, .exchange 1 (fun _ _ _ => [12]), .generate [3],
    .crash 0 true, .exchange 2 (fun _ _ _ => [13]), .response 1, .generate [4], .exchange 3 (fun _ _ _ => [15]),
    .exchange 1 (fun _ _ _ => [14])]

theorem acknowledged_request_reprocessed :
    ¬ ∀ (clientHash serverHash : Bool) (s : Sys), Reachable harnessAction clientHash serverHash s → NoReprocessing s := by
  intro safe
  have none := safe true true _ (reachable_after harnessAction true true acknowledgedAgainRun)
  have again : ∃ c ∈ callsOf 1 (Sys.after harnessAction true true acknowledgedAgainRun).log, Event.response c.seq ∈
      (Sys.after harnessAction true true acknowledgedAgainRun).client.history.events.take c.committed.eventCount := by
    decide +kernel
  obtain ⟨c, called, answered⟩ := again
  exact none.unanswered 1 c ((mem_calls_of _ _ _).mp called) answered

end Color
