import Color.FailureFree

set_option autoImplicit false

namespace Color

-- Failover-free runs that generate only while fewer than w requests are outstanding.
def windowed (w : Nat) (s : Sys) : Action → Prop
  | .generate _ => s.client.outstanding.length < w
  | .crash _ _ => False
  | _ => True

instance (w : Nat) (s : Sys) : (a : Action) → Decidable (windowed w s a)
  | .generate _ => inferInstanceAs (Decidable (_ < _))
  | .crash _ _ => isFalse id
  | .request _ _ | .exchange _ _ | .response _ | .buildReplay _ | .replay _ | .checkpoint _ => isTrue trivial

theorem windowed_no_crash (w : Nat) (s : Sys) (a : Action) (allowed : windowed w s a) : noCrash s a := by
  cases a with
  | crash => exact allowed
  | generate | request | exchange | response | buildReplay | replay | checkpoint => trivial

-- The ids up to x that none of the first x requests acknowledges.
def unacked (reqs : List Request) (x : Nat) : Finset Nat :=
  (Finset.Icc 1 x).filter (fun i => ∀ r ∈ reqs.take x, ¬ r.Acknowledges i)

-- What is unacknowledged by the first x requests was outstanding when request x
-- was built, and the server buffers no more than that at x.
structure WindowInv (w : Nat) (s : Sys) : Prop where
  window : s.client.pendingNew.length + s.client.inflight.size ≤ w
  listed : ∀ i ∈ s.client.received, i ∈ s.requests.flatMap Request.ackNew ++ s.client.pendingNew
  short : ∀ r ∈ s.requests, r.ackNew.length ≤ w
  open_ : ∀ x ≤ s.requests.length, (unacked s.requests x).card ≤ w
  accepted : ∀ r ∈ s.requests, r.seq ≤ s.server.committedUpto → Obs.accepted s.inst r ∈ s.log
  released : ∀ r, Obs.accepted s.inst r ∈ s.log → ∀ i ∈ s.server.respBuffer, ¬ r.Acknowledges i

-- An id received by now is listed by some request, the new one at the latest,
-- so what none of them acknowledges is outstanding.
theorem unacked_outstanding (w : Nat) (s : Sys) (p : Payload) (sys : SysInv s) (inv : WindowInv w s) (i : Nat)
    (member : i ∈ unacked (s.requests ++ [(s.client.generateRequest p).1]) (s.requests.length + 1)) :
    i ∈ (s.client.generateRequest p).2.inflight := by
  have length : (s.requests ++ [(s.client.generateRequest p).1]).length = s.requests.length + 1 := by simp
  obtain ⟨range, free⟩ := Finset.mem_filter.mp member
  rw [← length, List.take_length] at free
  obtain ⟨low, high⟩ := Finset.mem_Icc.mp range
  have unknown : i ∉ s.client.received := by
    intro received
    have listed := inv.listed i received
    rw [← generate_request_listed s.requests s.client p] at listed
    obtain ⟨r, inReqs, own⟩ := List.mem_flatMap.mp ((List.mem_append.mp listed).resolve_right List.not_mem_nil)
    exact free r inReqs (Or.inr own)
  have issued := generate_request_issued _ _ p sys.client sys.issued
  have numbered := (generate_request_inv _ _ p sys.client).numbered
  obtain ⟨r, named⟩ := numbered_exists _ i numbered low (by omega)
  exact (Tables.mem_iff_lookup _ _).mpr ⟨r, (issued.waiting i r).mpr ⟨named, unknown⟩⟩

theorem window_generate (w : Nat) (s : Sys) (p : Payload) (sys : SysInv s) (inv : WindowInv w s)
    (room : s.client.outstanding.length < w) :
    WindowInv w { s with
      client := (s.client.generateRequest p).2
      requests := s.requests ++ [(s.client.generateRequest p).1] } := by
  have size : s.client.inflight.size < w := by
    rw [← Std.ExtTreeMap.length_keys]
    exact room
  have grown : ((s.client.generateRequest p).2.inflight).size ≤ s.client.inflight.size + 1 :=
    Std.ExtTreeMap.size_insert_le
  refine ⟨?_, ?_, ?_, ?_, ?_, inv.released⟩
  · change 0 + (s.client.generateRequest p).2.inflight.size ≤ w
    omega
  · intro i received
    rw [generate_request_listed]
    exact inv.listed i received
  · intro r member
    cases List.mem_append.mp member with
    | inl old => exact inv.short r old
    | inr new =>
        rw [List.mem_singleton.mp new]
        have window := inv.window
        change s.client.pendingNew.length ≤ w
        omega
  · intro x bound
    have length : (s.requests ++ [(s.client.generateRequest p).1]).length = s.requests.length + 1 := by simp
    change x ≤ (s.requests ++ [(s.client.generateRequest p).1]).length at bound
    by_cases old : x ≤ s.requests.length
    · rw [unacked, take_issued _ _ x old]
      exact inv.open_ x old
    · have last : x = s.requests.length + 1 := by omega
      have card := Tables.card_le_size _ _ (unacked_outstanding w s p sys inv)
      rw [last]
      change (unacked (s.requests ++ [(s.client.generateRequest p).1]) (s.requests.length + 1)).card ≤ w
      omega
  · intro r member within
    cases List.mem_append.mp member with
    | inl old => exact inv.accepted r old within
    | inr new =>
        have bound := sys.server.bound
        have next := sys.client.next
        rw [List.mem_singleton.mp new] at within
        have seq : s.client.nextSeq ≤ s.server.committedUpto := within
        omega

theorem window_deliver (w : Nat) (s : Sys) (inst : Nat) (resp : Response) (sys : SysInv s) (lost : NothingLost s)
    (inv : WindowInv w s) (sent : (inst, resp) ∈ s.responses) (normal : resp.recover = false) :
    WindowInv w (s.deliver resp) := by
  have logged : ∀ r, Obs.accepted s.inst r ∈ (s.deliver resp).log ↔ Obs.accepted s.inst r ∈ s.log := by
    intro r
    simp [deliver_log]
  have client : (s.deliver resp).client = (s.client.onResponse resp).2 := rfl
  have same : (s.deliver resp).inst = s.inst ∧ (s.deliver resp).requests = s.requests ∧ (s.deliver resp).server = s.server :=
    ⟨rfl, rfl, rfl⟩
  obtain ⟨instEq, requestsEq, serverEq⟩ := same
  refine ⟨?_, ?_, inv.short, inv.open_, ?_, ?_⟩
  · rw [client]
    by_cases duplicate : resp.seq ∈ s.client.received
    · rw [on_response_duplicate _ _ duplicate]
      exact inv.window
    · obtain ⟨⟨low, high⟩, _⟩ := sys.normal inst resp sent normal
      obtain ⟨r, named⟩ := numbered_exists _ resp.seq sys.client.numbered low high
      have waiting := (sys.issued.waiting resp.seq r).mpr ⟨named, duplicate⟩
      have erased := Tables.size_erase_of_mem _ _ ((Tables.mem_iff_lookup s.client.inflight resp.seq).mpr ⟨r, waiting⟩)
      have fields : (s.client.onResponse resp).2.inflight = s.client.inflight.erase resp.seq ∧
          (s.client.onResponse resp).2.pendingNew.length ≤ s.client.pendingNew.length + 1 := by
        rw [Client.onResponse, if_neg duplicate]
        refine ⟨rfl, ?_⟩
        cases kind : resp.noOp <;> simp
      have window := inv.window
      rw [fields.1]
      omega
  · rw [client, requestsEq]
    intro i received
    rw [on_response_received] at received
    by_cases duplicate : resp.seq ∈ s.client.received
    · rw [on_response_duplicate _ _ duplicate]
      rw [Finset.insert_eq_of_mem duplicate] at received
      exact inv.listed i received
    · have plain : resp.noOp = false := by
        by_contra empty
        exact duplicate (lost.noOps inst resp sent normal (by simpa using empty))
      have pending : (s.client.onResponse resp).2.pendingNew = s.client.pendingNew ++ [resp.seq] := by
        rw [Client.onResponse, if_neg duplicate]
        simp [plain]
      rw [pending, ← List.append_assoc]
      cases Finset.mem_insert.mp received with
      | inl new => exact List.mem_append_right _ (List.mem_singleton.mpr new)
      | inr old => exact List.mem_append_left _ (inv.listed i old)
  · intro r member within
    exact (logged r).mpr (inv.accepted r member within)
  · intro r accepted
    exact inv.released r ((logged r).mp accepted)

theorem window_answer (w : Nat) (s : Sys) (req : Request) (app : AppFn) (sys : SysInv s) (inst : InstanceInv s)
    (free : FailureFree s) (inv : WindowInv w s) (member : req ∈ s.requests) :
    WindowInv w (s.answer req (s.server.onRequest app req)) := by
  have issued := client_inv_issued _ _ sys.client sys.issued
  have notRefused := failure_free_accepts s req sys free member
  have effect := on_request_effect s.requests app s.server req issued sys.server member
  have progress := on_request_progress s.requests app s.server req issued sys.server member notRefused
  refine ⟨inv.window, inv.listed, inv.short, inv.open_, ?_, ?_⟩
  · intro r inReqs within
    by_cases old : r.seq ≤ s.server.committedUpto
    · exact List.mem_append_left _ (inv.accepted r inReqs old)
    · -- It was committed just now, so it was parked or is the request itself.
      obtain ⟨_, source⟩ := effect.committed r.seq (by omega) within
      cases source with
      | inl same =>
          rw [numbered_seq_unique _ r req sys.client.numbered inReqs member same]
          exact accepted_logged s s.server req app notRefused
      | inr parked =>
          obtain ⟨q, found⟩ := (Tables.mem_iff_lookup _ _).mp parked
          obtain ⟨inReqs', seq⟩ := sys.server.holds.parked r.seq q found
          rw [numbered_seq_unique _ q r sys.client.numbered inReqs' inReqs seq] at found
          exact List.mem_append_left _ (inst.parked r.seq r found)
  · intro r logged i inside acks
    cases List.mem_append.mp logged with
    | inl old =>
        have bound := inst.acked r old i acks
        obtain ⟨p, found⟩ := (Tables.mem_iff_lookup _ _).mp inside
        rcases effect.buffer i p found with before | ⟨c, called, seq, _⟩
        · exact inv.released r old i ((Tables.mem_iff_lookup _ _).mpr ⟨p, before⟩) acks
        · cases due_fresh _ _ _ (effect.due c called).2 with
          | inl owed =>
              rw [free.idle] at owed
              exact Finset.notMem_empty _ owed
          | inr above => omega
    | inr new =>
        obtain ⟨⟨_, same⟩, _⟩ := (accepted_mem_observed _ _ _ _ _).mp new
        rw [same] at acks
        exact progress.released i inside acks

theorem window_step (w : Nat) (s s' : Sys) (a : Action) (sys : SysInv s) (inst : InstanceInv s) (free : FailureFree s)
    (lost : NothingLost s) (inv : WindowInv w s) (allowed : windowed w s a) (taken : s.step a = some s') :
    WindowInv w s' := by
  cases step_effect s s' a taken with
  | generated p kind =>
      subst kind
      exact window_generate w s p sys inv allowed
  | answered req app rounds member =>
      rw [settle_accepted s.client req rounds s.server (failure_free_accepts s req sys free member)]
      exact window_answer w s req app sys inst free inv member
  | delivered index inst resp _ sent normal => exact window_deliver w s inst resp sys lost inv (List.mem_of_getElem? sent) normal
  | built | saved => exact ⟨inv.window, inv.listed, inv.short, inv.open_, inv.accepted, inv.released⟩
  | ingested _ rp _ sent =>
      rw [free.replays] at sent
      cases sent
  | restored index setHash cp kind =>
      subst kind
      exact absurd allowed id

theorem reachable_window (w : Nat) (clientHash serverHash : Bool) (s : Sys)
    (run : Reachable (windowed w) clientHash serverHash s) : WindowInv w s := by
  apply run.invariant_with (fun s => (SysInv s ∧ InstanceInv s) ∧ FailureFree s ∧ NothingLost s) (WindowInv w)
  · intro s before
    have noCrashes : Reachable noCrash clientHash serverHash s := before.mono (windowed_no_crash w)
    exact ⟨⟨reachable_sys_inv _ _ _ s before, reachable_instance _ _ _ s before⟩,
      reachable_failure_free _ _ s noCrashes, (reachable_answers _ _ s (noCrashes.mono no_crash_covered)).lost⟩
  · constructor <;> simp [Sys.init, Client.fresh, Server.start, unacked]
  · intro s a s' known inv allowed taken
    exact window_step w s s' a known.1.1 known.1.2 known.2.1 known.2.2 inv allowed taken

-- ---- the sizes that follow ----

theorem buffer_size (w : Nat) (s : Sys) (sys : SysInv s) (inv : WindowInv w s) : s.server.respBuffer.size ≤ w := by
  refine Nat.le_trans (Tables.size_le_card _ (unacked s.requests s.server.committedUpto) ?_) (inv.open_ _ sys.server.bound)
  intro i inside
  obtain ⟨low, high⟩ := buffered_committed _ _ i sys.server inside
  refine Finset.mem_filter.mpr ⟨Finset.mem_Icc.mpr ⟨low, high⟩, fun r early => ?_⟩
  have inReqs := List.mem_of_mem_take early
  have within := (numbered_mem_take _ r _ sys.client.numbered inReqs).mp early
  exact inv.released r (inv.accepted r inReqs within) i inside

-- What is parked is outstanding, and so is the next id, which is not parked.
theorem parked_size (w : Nat) (s : Sys) (sys : SysInv s) (free : FailureFree s) (inv : WindowInv w s) :
    s.server.pendingReqs.size ≤ w - 1 := by
  by_cases none : s.server.pendingReqs = ∅
  · rw [none]
    exact Nat.zero_le _
  · have outstanding : ∀ r ∈ s.requests, s.server.committedUpto < r.seq → r.seq ∈ s.client.inflight := by
      intro r member above
      have unknown : r.seq ∉ s.client.received := fun received => by
        have bound := free.upto _ received
        omega
      exact (Tables.mem_iff_lookup _ _).mpr ⟨r, (sys.issued.waiting r.seq r).mpr ⟨⟨member, rfl⟩, unknown⟩⟩
    have parked : ∀ k ∈ s.server.pendingReqs, k ∈ s.client.inflight ∧ s.server.committedUpto + 1 < k ∧ k ≤ s.requests.length := by
      intro k inside
      obtain ⟨r, found⟩ := (Tables.mem_iff_lookup _ _).mp inside
      obtain ⟨member, seq⟩ := sys.server.holds.parked k r found
      have beyond := free.parked k inside
      have high := (numbered_seq_index _ r sys.client.numbered member).2.2
      exact ⟨seq ▸ outstanding r member (by omega), beyond, by omega⟩
    obtain ⟨k, some⟩ : ∃ k, k ∈ s.server.pendingReqs := by
      by_contra empty
      exact none (Std.ExtTreeMap.eq_empty_iff_forall_not_mem.mpr (fun k inside => empty ⟨k, inside⟩))
    have next : s.server.committedUpto + 1 ∈ s.client.inflight := by
      obtain ⟨_, beyond, high⟩ := parked k some
      obtain ⟨r, inReqs, seq⟩ := numbered_exists _ (s.server.committedUpto + 1) sys.client.numbered (by omega) (by omega)
      exact seq ▸ outstanding r inReqs (by omega)
    have keys : s.client.inflight.keys.toFinset.card = s.client.inflight.size := by
      rw [List.toFinset_card_of_nodup Std.ExtTreeMap.nodup_keys, Std.ExtTreeMap.length_keys]
    have within : s.server.pendingReqs.size ≤ (s.client.inflight.keys.toFinset.erase (s.server.committedUpto + 1)).card := by
      apply Tables.size_le_card
      intro j inside
      obtain ⟨waiting, beyond, _⟩ := parked j inside
      refine Finset.mem_erase_of_ne_of_mem (by omega) ?_
      rw [List.mem_toFinset, Std.ExtTreeMap.mem_keys]
      exact waiting
    have member : s.server.committedUpto + 1 ∈ s.client.inflight.keys.toFinset := by
      rw [List.mem_toFinset, Std.ExtTreeMap.mem_keys]
      exact next
    rw [Finset.card_erase_of_mem member, keys] at within
    have window := inv.window
    omega

theorem on_request_marks (app : AppFn) (sv : Server) (req : Request) :
    (sv.onRequest app req).1.maxRespBuffer ≤ max sv.maxRespBuffer (sv.onRequest app req).1.respBuffer.size ∧
      (sv.onRequest app req).1.maxPending ≤ max sv.maxPending (sv.onRequest app req).1.pendingReqs.size := by
  have tracked : ∀ next : Server, next.maxRespBuffer = sv.maxRespBuffer → next.maxPending = sv.maxPending →
      next.trackBounds.maxRespBuffer ≤ max sv.maxRespBuffer next.trackBounds.respBuffer.size ∧
        next.trackBounds.maxPending ≤ max sv.maxPending next.trackBounds.pendingReqs.size := by
    intro next buffer pending
    simp only [Server.trackBounds, buffer, pending]
    split <;> split <;> omega
  apply on_request_rule (fun next _ => next.maxRespBuffer ≤ max sv.maxRespBuffer next.respBuffer.size ∧
    next.maxPending ≤ max sv.maxPending next.pendingReqs.size)
  · exact fun _ => ⟨Nat.le_max_left _ _, Nat.le_max_left _ _⟩
  · intro _ _
    apply answer_committed_rule (fun next _ => next.trackBounds.maxRespBuffer ≤ max sv.maxRespBuffer next.trackBounds.respBuffer.size ∧
      next.trackBounds.maxPending ≤ max sv.maxPending next.trackBounds.pendingReqs.size)
    · exact fun _ _ => tracked _ rfl rfl
    · exact fun _ _ => tracked _ rfl rfl
    · exact fun _ _ => tracked _ rfl rfl
  · intro _ _
    have same := stage_and_advance_rule (fun next _ => next.maxRespBuffer = sv.maxRespBuffer ∧ next.maxPending = sv.maxPending)
      app (sv.releaseAcked req) req ⟨rfl, rfl⟩ (fun _ _ _ before _ => before)
    exact tracked _ same.1 same.2

structure Marks (w : Nat) (s : Sys) : Prop where
  buffer : s.server.maxRespBuffer ≤ w
  pending : s.server.maxPending ≤ w - 1
  ackNew : s.client.maxAckNew ≤ w

theorem marks_step (w : Nat) (s s' : Sys) (a : Action) (sys : SysInv s) (free : FailureFree s) (inv : WindowInv w s)
    (marks : Marks w s) (after : s'.server.respBuffer.size ≤ w ∧ s'.server.pendingReqs.size ≤ w - 1)
    (allowed : windowed w s a) (taken : s.step a = some s') : Marks w s' := by
  cases step_effect s s' a taken with
  | generated p =>
      refine ⟨marks.buffer, marks.pending, ?_⟩
      have window := inv.window
      have before := marks.ackNew
      change (if s.client.pendingNew.length > s.client.maxAckNew then s.client.pendingNew.length
        else s.client.maxAckNew) ≤ w
      split <;> omega
  | answered req app rounds member =>
      rw [settle_accepted s.client req rounds s.server (failure_free_accepts s req sys free member)] at after ⊢
      obtain ⟨buffer, pending⟩ := on_request_marks app s.server req
      exact ⟨Nat.le_trans buffer (Nat.max_le.mpr ⟨marks.buffer, after.1⟩),
        Nat.le_trans pending (Nat.max_le.mpr ⟨marks.pending, after.2⟩), marks.ackNew⟩
  | delivered _ _ resp =>
      refine ⟨marks.buffer, marks.pending, ?_⟩
      change (s.client.onResponse resp).2.maxAckNew ≤ w
      rw [Client.onResponse]
      split <;> exact marks.ackNew
  | built | saved => exact ⟨marks.buffer, marks.pending, marks.ackNew⟩
  | ingested _ rp _ sent =>
      rw [free.replays] at sent
      cases sent
  | restored index setHash cp kind =>
      subst kind
      exact absurd allowed id

theorem reachable_sizes (w : Nat) (clientHash serverHash : Bool) (s : Sys)
    (run : Reachable (windowed w) clientHash serverHash s) :
    s.server.respBuffer.size ≤ w ∧ s.server.pendingReqs.size ≤ w - 1 := by
  have sys := reachable_sys_inv _ _ _ s run
  have free := reachable_failure_free _ _ s (run.mono (windowed_no_crash w))
  have inv := reachable_window w _ _ s run
  exact ⟨buffer_size w s sys inv, parked_size w s sys free inv⟩

theorem reachable_marks (w : Nat) (clientHash serverHash : Bool) (s : Sys)
    (run : Reachable (windowed w) clientHash serverHash s) : Marks w s := by
  induction run with
  | refl => exact ⟨Nat.zero_le _, Nat.zero_le _, Nat.zero_le _⟩
  | next before allowed taken ih =>
      exact marks_step w _ _ _ (reachable_sys_inv _ _ _ _ before)
        (reachable_failure_free _ _ _ (before.mono (windowed_no_crash w))) (reachable_window w _ _ _ before) ih
        (reachable_sizes w _ _ _ (.next before allowed taken)) allowed taken

-- With at most w requests outstanding at a time, all retransmission state stays
-- within the window, now and at every earlier point of the run.
theorem window_bounds_state (w : Nat) (clientHash serverHash : Bool) (s : Sys)
    (run : Reachable (windowed w) clientHash serverHash s) :
    (s.server.respBuffer.size ≤ w ∧ s.server.pendingReqs.size ≤ w - 1 ∧ ∀ r ∈ s.requests, r.ackNew.length ≤ w) ∧
      s.server.maxRespBuffer ≤ w ∧ s.server.maxPending ≤ w - 1 ∧ s.client.maxAckNew ≤ w := by
  obtain ⟨buffer, pending⟩ := reachable_sizes w _ _ s run
  have marks := reachable_marks w _ _ s run
  exact ⟨⟨buffer, pending, (reachable_window w _ _ s run).short⟩, marks.buffer, marks.pending, marks.ackNew⟩

-- Both bounds are met: two responses are buffered and one request is parked at a window of 2.
def fullWindowRun : List Action :=
  [.generate [1], .generate [2], .request 1 (fun _ _ _ => [12]), .request 0 (fun _ _ _ => [11])]

theorem window_bounds_state_full :
    ((Sys.after (windowed 2) true true fullWindowRun).server.maxRespBuffer = 2 ∧
      (Sys.after (windowed 2) true true fullWindowRun).server.maxPending = 1) ∧
    (((Sys.after (windowed 2) true true fullWindowRun).server.respBuffer.size ≤ 2 ∧
      (Sys.after (windowed 2) true true fullWindowRun).server.pendingReqs.size ≤ 2 - 1 ∧
      ∀ r ∈ (Sys.after (windowed 2) true true fullWindowRun).requests, r.ackNew.length ≤ 2) ∧
    (Sys.after (windowed 2) true true fullWindowRun).server.maxRespBuffer ≤ 2 ∧
    (Sys.after (windowed 2) true true fullWindowRun).server.maxPending ≤ 2 - 1 ∧
    (Sys.after (windowed 2) true true fullWindowRun).client.maxAckNew ≤ 2) :=
  ⟨by decide +kernel, window_bounds_state 2 true true _ (reachable_after (windowed 2) true true fullWindowRun)⟩

end Color
