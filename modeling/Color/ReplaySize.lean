import Color.TotalOrder

set_option autoImplicit false

namespace Color

-- Runs with crashes that generate only while fewer than w requests are outstanding.
def paced (w : Nat) (s : Sys) : Action → Prop
  | .generate _ => s.client.outstanding.length < w
  | _ => True

instance (w : Nat) (s : Sys) : (a : Action) → Decidable (paced w s a)
  | .generate _ => inferInstanceAs (Decidable (_ < _))
  | .crash _ _ | .request _ _ | .exchange _ _ | .response _ | .buildReplay _ | .replay _ | .checkpoint _ => isTrue trivial

def acks (reqs : List Request) : List Nat := reqs.flatMap Request.ackNew

-- The ids up to k that none of the first k requests lists, and whose response,
-- where it has arrived by now, a later request lists or will list.
def late (reqs : List Request) (c : Client) (k : Nat) : Finset Nat :=
  (Finset.Icc 1 k).filter (fun i =>
    i ∉ acks (reqs.take k) ∧ (i ∈ c.received → i ∈ acks (reqs.drop k) ∨ i ∈ c.pendingNew))

def LateInv (w : Nat) (s : Sys) : Prop := ∀ k ≤ s.requests.length, (late s.requests s.client k).card ≤ w

theorem acks_split (reqs : List Request) (k : Nat) : acks reqs = acks (reqs.take k) ++ acks (reqs.drop k) := by
  rw [acks, acks, acks, ← List.flatMap_append, List.take_append_drop]

-- A new request takes over what the client had pending, so no earlier set grows.
theorem generate_late (reqs : List Request) (c : Client) (p : Payload) (k : Nat) (old : k ≤ reqs.length) :
    late (reqs ++ [(c.generateRequest p).1]) (c.generateRequest p).2 k ⊆ late reqs c k := by
  intro i member
  obtain ⟨range, unlisted, arrived⟩ := Finset.mem_filter.mp member
  rw [take_issued reqs _ k old] at unlisted
  rw [List.drop_append_of_le_length old] at arrived
  refine Finset.mem_filter.mpr ⟨range, unlisted, fun received => ?_⟩
  cases arrived received with
  | inl listed =>
      rw [acks, List.flatMap_append, List.mem_append] at listed
      cases listed with
      | inl before => exact Or.inl before
      | inr new =>
          have pending : i ∈ c.pendingNew := by simpa [Client.generateRequest] using new
          exact Or.inr pending
  | inr pending => exact absurd pending List.not_mem_nil

-- Where the request is the last one, the set is what was outstanding when it was built.
theorem generate_late_last (reqs : List Request) (c : Client) (p : Payload) (inv : ClientInv reqs c)
    (issued : ClientIssued reqs c) (i : Nat)
    (member : i ∈ late (reqs ++ [(c.generateRequest p).1]) (c.generateRequest p).2 (reqs.length + 1)) :
    i ∈ (c.generateRequest p).2.inflight := by
  have all : reqs.length + 1 = (reqs ++ [(c.generateRequest p).1]).length := by simp
  obtain ⟨range, _, arrived⟩ := Finset.mem_filter.mp member
  obtain ⟨low, high⟩ := Finset.mem_Icc.mp range
  rw [all, List.drop_length] at arrived
  have unknown : i ∉ (c.generateRequest p).2.received := by
    intro received
    cases arrived received with
    | inl listed => exact absurd listed List.not_mem_nil
    | inr pending => exact absurd pending List.not_mem_nil
  have after := generate_request_inv reqs c p inv
  obtain ⟨r, inside, seq⟩ := numbered_exists _ i after.numbered low (by omega)
  have waiting := (generate_request_issued reqs c p inv issued).waiting i r
  exact (Tables.mem_iff_lookup _ _).mpr ⟨r, waiting.mpr ⟨⟨inside, seq⟩, unknown⟩⟩

theorem respond_late (reqs : List Request) (c : Client) (resp : Response) (k : Nat) :
    late reqs (c.onResponse resp).2 k ⊆ late reqs c k := by
  by_cases duplicate : resp.seq ∈ c.received
  · rw [on_response_duplicate c resp duplicate]
  · intro i member
    obtain ⟨range, unlisted, arrived⟩ := Finset.mem_filter.mp member
    refine Finset.mem_filter.mpr ⟨range, unlisted, fun received => ?_⟩
    rw [on_response_received] at arrived
    cases arrived (Finset.mem_insert_of_mem received) with
    | inl listed => exact Or.inl listed
    | inr pending =>
        rw [Client.onResponse, if_neg duplicate] at pending
        simp only at pending
        split at pending
        · exact Or.inr pending
        · cases List.mem_append.mp pending with
          | inl before => exact Or.inr before
          | inr new => exact absurd (List.mem_singleton.mp new ▸ received) duplicate

theorem late_inv_generate (w : Nat) (s : Sys) (p : Payload) (sys : SysInv s) (inv : LateInv w s)
    (room : s.client.outstanding.length < w) :
    LateInv w { s with
      client := (s.client.generateRequest p).2
      requests := s.requests ++ [(s.client.generateRequest p).1] } := by
  intro k bound
  change k ≤ (s.requests ++ [(s.client.generateRequest p).1]).length at bound
  rw [List.length_append, List.length_singleton] at bound
  by_cases old : k ≤ s.requests.length
  · exact Nat.le_trans (Finset.card_le_card (generate_late s.requests s.client p k old)) (inv k old)
  · have last : k = s.requests.length + 1 := by omega
    have counted := Tables.card_le_size _ _ (generate_late_last s.requests s.client p sys.client sys.issued)
    have grown : ((s.client.generateRequest p).2.inflight).size ≤ s.client.inflight.size + 1 :=
      Std.ExtTreeMap.size_insert_le
    have size : s.client.inflight.size < w := by
      rw [← Std.ExtTreeMap.length_keys]
      exact room
    rw [last]
    change (late (s.requests ++ [(s.client.generateRequest p).1]) (s.client.generateRequest p).2 (s.requests.length + 1)).card ≤ w
    omega

theorem late_inv_step (w : Nat) (s s' : Sys) (a : Action) (sys : SysInv s) (inv : LateInv w s) (allowed : paced w s a)
    (taken : s.step a = some s') : LateInv w s' := by
  cases step_effect s s' a taken with
  | generated p kind =>
      subst kind
      exact late_inv_generate w s p sys inv allowed
  | delivered index inst resp =>
      exact fun k bound => Nat.le_trans (Finset.card_le_card (respond_late s.requests s.client resp k)) (inv k bound)
  | answered | built | ingested | saved | restored => exact inv

theorem reachable_late (w : Nat) (clientHash serverHash : Bool) (s : Sys)
    (run : Reachable (paced w) clientHash serverHash s) : LateInv w s := by
  apply run.invariant_with SysInv (LateInv w)
  · exact fun s run => reachable_sys_inv _ _ _ s run
  · intro k bound
    have zero : k = 0 := Nat.le_zero.mp bound
    rw [zero]
    exact Nat.zero_le _
  · exact fun s a s' sys inv allowed taken => late_inv_step w s s' a sys inv allowed taken

-- What the requests after the k-th list: ids above k, each once, and late ones.
theorem acks_after (reqs : List Request) (c : Client) (k : Nat) (inv : ClientInv reqs c) (issued : ClientIssued reqs c) :
    (acks (reqs.drop k)).length ≤ (late reqs c k).card + (reqs.length - k) := by
  have once : (acks (reqs.take k) ++ acks (reqs.drop k)).Nodup := by
    rw [← acks_split]
    exact (List.nodup_append.mp inv.acked).1
  obtain ⟨_, distinct, apart⟩ := List.nodup_append.mp once
  have covered : (acks (reqs.drop k)).toFinset ⊆ late reqs c k ∪ Finset.Ioc k reqs.length := by
    intro i member
    have listed := List.mem_toFinset.mp member
    obtain ⟨r, later, own⟩ := List.mem_flatMap.mp listed
    have inside : r ∈ reqs := List.mem_of_mem_drop later
    have low := issued.positive r inside i own
    have below := issued.below r inside i (Or.inr own)
    have within := (numbered_seq_index reqs r inv.numbered inside).2.2
    rw [Finset.mem_union]
    by_cases early : i ≤ k
    · have unlisted : i ∉ acks (reqs.take k) := fun before => apart i before i listed rfl
      exact Or.inl (Finset.mem_filter.mpr ⟨Finset.mem_Icc.mpr ⟨low, early⟩, unlisted, fun _ => Or.inl listed⟩)
    · exact Or.inr (Finset.mem_Ioc.mpr ⟨by omega, by omega⟩)
  have counted := Nat.le_trans (Finset.card_le_card covered) (Finset.card_union_le _ _)
  rw [List.toFinset_card_of_nodup distinct, Nat.card_Ioc] at counted
  exact counted

theorem canonical_length (reqs : List Request) : (canonical reqs).length = reqs.length + (acks reqs).length := by
  induction reqs with
  | nil => rfl
  | cons r rest ih =>
      have split : canonical (r :: rest) = commitEvents r.ackNew r.seq ++ canonical rest := rfl
      have listed : acks (r :: rest) = r.ackNew ++ acks rest := rfl
      rw [split, listed, commitEvents, List.length_append, List.length_append, List.length_append, ih, List.length_map,
        List.length_singleton, List.length_cons]
      omega

theorem replay_length (reqs : List Request) (c : Client) (k : Nat) (inv : ClientInv reqs c) :
    (c.buildReplay (canonical (reqs.take k)).length).events.length = (canonical (reqs.drop k)).length := by
  have whole : canonical reqs = canonical (reqs.take k) ++ canonical (reqs.drop k) := by
    rw [← canonical_append, List.take_append_drop]
  rw [Client.buildReplay, List.length_map, inv.events, whole, List.drop_left]

-- Lagged checkpoints, crashes and delays of any kind: only the window and the
-- distance between server and client count, not how long the conversation is.
theorem replay_size_bounded (w : Nat) (clientHash serverHash : Bool) (s : Sys)
    (run : Reachable (paced w) clientHash serverHash s) (app : AppFn) (req : Request) (signal : Response)
    (given : signal ∈ (s.server.onRequest app req).2.responses) (refused : signal.recover = true) :
    (s.client.buildReplay signal.recoverFrom).events.length ≤
      2 * (s.client.nextSeq - 1 - s.server.committedUpto) + w := by
  have inv := reachable_sys_inv _ clientHash serverHash s run
  have recover : s.server.needsRecover req :=
    (on_request_recover_iff app s.server req).mp (List.any_eq_true.mpr ⟨signal, given, refused⟩)
  have position : signal.recoverFrom = (canonical (s.requests.take s.server.committedUpto)).length := by
    rw [on_request_signal app s.server req signal given refused, on_request_refused app s.server req recover]
    exact inv.server.holds.count
  have listed := acks_after s.requests s.client s.server.committedUpto inv.client inv.issued
  have bounded := reachable_late w clientHash serverHash s run s.server.committedUpto inv.server.bound
  have next := inv.client.next
  rw [position, replay_length s.requests s.client _ inv.client, canonical_length, List.length_drop]
  omega

-- Window one: request 3 acknowledges request 2, which the restored server never saw.
def pacedRun : List Action := failoverRun.take 9

theorem replay_size_bounded_failover :
    let s := Sys.after (paced 1) true true pacedRun
    ((s.client.buildReplay (s.server.recoverySignal (s.requests[2]?.getD ({} : Request))).recoverFrom).events.length ≤
      2 * (s.client.nextSeq - 1 - s.server.committedUpto) + 1) := by
  apply replay_size_bounded 1 true true (Sys.after (paced 1) true true pacedRun)
    (reachable_after (paced 1) true true pacedRun) (fun _ p _ => p)
    ((Sys.after (paced 1) true true pacedRun).requests[2]?.getD ({} : Request))
  case given => decide +kernel
  case refused => rfl

end Color
