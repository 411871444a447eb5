import Color.Canonical
import Color.Client
import Color.Library.Tables

set_option autoImplicit false

namespace Color

def Client.fresh (setHash : Bool) : Client := { setHash := setHash }

-- The six pieces of client state in terms of the frozen requests issued so
-- far. Nothing here depends on what the responses were.
structure ClientInv (reqs : List Request) (c : Client) : Prop where
  next : c.nextSeq = reqs.length + 1
  numbered : Numbered reqs
  events : c.history.events = canonical reqs
  whole : c.history.baseCount = 0
  hash : c.history.curHash = rolling (canonical reqs)
  carried : ∀ i r h, reqs[i]? = some r → r.hash = some h → h = rolling (canonical (reqs.take (i + 1)))
  reqHash : ∀ s h, c.reqHash[s]? = some h ↔ (1 ≤ s ∧ s ≤ reqs.length) ∧ h = rolling (canonical (reqs.take s))
  acked : (reqs.flatMap Request.ackNew ++ c.pendingNew).Nodup
  known : ∀ i ∈ reqs.flatMap Request.ackNew ++ c.pendingNew, i ∈ c.received
  baseUnknown : c.base ∉ c.received
  basePositive : 1 ≤ c.base
  baseKnown : ∀ i, 1 ≤ i → i < c.base → i ∈ c.received
  ackBase : ∀ r ∈ reqs, 1 ≤ r.ackBase ∧ ∀ i, 1 ≤ i → i < r.ackBase → i ∈ c.received

theorem client_fresh (setHash : Bool) : ClientInv [] (Client.fresh setHash) := by
  constructor <;> simp [Client.fresh, Numbered, canonical, rolling, rollingFrom] <;> omega

theorem generate_request_fields (c : Client) (p : Payload) :
    (c.generateRequest p).1.seq = c.nextSeq ∧ (c.generateRequest p).1.ackBase = c.base ∧
      (c.generateRequest p).1.ackNew = c.pendingNew := ⟨rfl, rfl, rfl⟩

theorem generate_request_listed (reqs : List Request) (c : Client) (p : Payload) :
    (reqs ++ [(c.generateRequest p).1]).flatMap Request.ackNew ++ (c.generateRequest p).2.pendingNew =
      reqs.flatMap Request.ackNew ++ c.pendingNew := by
  simp [Client.generateRequest]

theorem generate_request_inv (reqs : List Request) (c : Client) (p : Payload) (inv : ClientInv reqs c) :
    ClientInv (reqs ++ [(c.generateRequest p).1]) (c.generateRequest p).2 := by
  have whole : canonical (reqs ++ [(c.generateRequest p).1]) = canonical reqs ++ commitEvents c.pendingNew c.nextSeq :=
    canonical_concat reqs _
  have running : (c.history.commitRequest c.pendingNew c.nextSeq).curHash =
      rolling (canonical (reqs ++ [(c.generateRequest p).1])) := by
    rw [commit_request_append_all, append_all_hash, inv.hash, whole, rolling_append]
  -- Earlier prefixes are not touched by the new request.
  have earlier : ∀ k, k ≤ reqs.length → (reqs ++ [(c.generateRequest p).1]).take k = reqs.take k :=
    fun k bound => List.take_append_of_le_length bound
  refine { inv with
    next := ?next, numbered := ?numbered, events := ?events, whole := ?whole, hash := running,
    carried := ?carried, reqHash := ?reqHash, acked := ?acked, known := ?known, ackBase := ?ackBase }
  case next =>
    have step : (c.generateRequest p).2.nextSeq = c.nextSeq + 1 := rfl
    rw [step, inv.next, List.length_append, List.length_singleton]
  case numbered => exact numbered_concat reqs _ inv.numbered inv.next
  case events =>
    change (c.history.commitRequest c.pendingNew c.nextSeq).events = _
    rw [commit_request_append_all, append_all_events, inv.events, whole]
  case whole =>
    change (c.history.commitRequest c.pendingNew c.nextSeq).baseCount = 0
    rw [commit_request_append_all, append_all_base, inv.whole]
  case carried =>
    intro i r h found frozen
    rw [List.getElem?_append] at found
    split at found
    · rename_i old
      rw [earlier (i + 1) old]
      exact inv.carried i r h found frozen
    · rename_i new
      have last : i - reqs.length = 0 ∧ (c.generateRequest p).1 = r := by
        simpa [List.getElem?_singleton] using found
      have hashed : (if c.setHash then some (c.history.commitRequest c.pendingNew c.nextSeq).curHash else none) = some h := by
        rw [← frozen, ← last.2]
        rfl
      have all : (reqs ++ [(c.generateRequest p).1]).take (i + 1) = reqs ++ [(c.generateRequest p).1] :=
        List.take_of_length_le (by rw [List.length_append, List.length_singleton]; omega)
      rw [all, ← running]
      split at hashed
      · exact (Option.some.inj hashed).symm
      · cases hashed
  case reqHash =>
    intro s h
    change (c.reqHash.insert c.nextSeq (c.history.commitRequest c.pendingNew c.nextSeq).curHash)[s]? = some h ↔ _
    rw [Tables.lookup_insert, List.length_append, List.length_singleton]
    have next := inv.next
    by_cases new : s = c.nextSeq
    · have all : (reqs ++ [(c.generateRequest p).1]).take s = reqs ++ [(c.generateRequest p).1] :=
        List.take_of_length_le (by rw [List.length_append, List.length_singleton]; omega)
      rw [if_pos new, all, ← running, Option.some.injEq]
      exact ⟨fun eq => ⟨by omega, eq.symm⟩, fun both => both.2.symm⟩
    · rw [if_neg new, inv.reqHash s h]
      constructor
      · rintro ⟨bounds, eq⟩
        exact ⟨by omega, by rw [earlier s bounds.2]; exact eq⟩
      · rintro ⟨bounds, eq⟩
        have old : s ≤ reqs.length := by omega
        exact ⟨⟨bounds.1, old⟩, by rw [← earlier s old]; exact eq⟩
  case acked =>
    rw [generate_request_listed]
    exact inv.acked
  case known =>
    rw [generate_request_listed]
    exact inv.known
  case ackBase =>
    intro r member
    cases List.mem_append.mp member with
    | inl old => exact inv.ackBase r old
    | inr new =>
        have eq := List.mem_singleton.mp new
        subst eq
        exact ⟨inv.basePositive, inv.baseKnown⟩

theorem on_response_received (c : Client) (resp : Response) :
    (c.onResponse resp).2.received = insert resp.seq c.received := by
  rw [Client.onResponse]
  split
  · rename_i member
    exact (Finset.insert_eq_of_mem member).symm
  · rfl

theorem on_response_duplicate (c : Client) (resp : Response) (member : resp.seq ∈ c.received) :
    c.onResponse resp = ({ first := false }, c) := by
  rw [Client.onResponse, if_pos member]

theorem on_response_inv (reqs : List Request) (c : Client) (resp : Response) (inv : ClientInv reqs c) :
    ClientInv reqs (c.onResponse resp).2 := by
  by_cases duplicate : resp.seq ∈ c.received
  · rw [on_response_duplicate c resp duplicate]
    exact inv
  · have kept : ∀ i, i ∈ c.received → i ∈ (c.onResponse resp).2.received := by
      intro i member
      rw [on_response_received]
      exact Finset.mem_insert_of_mem member
    have pending : (c.onResponse resp).2.pendingNew =
        if resp.noOp then c.pendingNew else c.pendingNew ++ [resp.seq] := by
      rw [Client.onResponse, if_neg duplicate]
    have newBase : (c.onResponse resp).2.base = advanceBase (c.onResponse resp).2.received c.base := by
      rw [Client.onResponse, if_neg duplicate]
    have same : (c.onResponse resp).2.nextSeq = c.nextSeq ∧ (c.onResponse resp).2.history = c.history ∧
        (c.onResponse resp).2.reqHash = c.reqHash := by
      rw [Client.onResponse, if_neg duplicate]
      exact ⟨rfl, rfl, rfl⟩
    have passed := advance_base_passed (c.onResponse resp).2.received c.base
    obtain ⟨nextEq, historyEq, reqHashEq⟩ := same
    refine {
      next := nextEq ▸ inv.next, numbered := inv.numbered, events := historyEq ▸ inv.events,
      whole := historyEq ▸ inv.whole, hash := historyEq ▸ inv.hash, carried := inv.carried,
      reqHash := reqHashEq ▸ inv.reqHash, acked := ?acked, known := ?known,
      baseUnknown := newBase ▸ advance_base_stops _ _, basePositive := ?basePositive, baseKnown := ?baseKnown,
      ackBase := fun r member => ⟨(inv.ackBase r member).1, fun i low high => kept i ((inv.ackBase r member).2 i low high)⟩ }
    case acked =>
      rw [pending]
      split
      · exact inv.acked
      · rw [← List.append_assoc]
        exact inv.acked.append (List.nodup_singleton _)
          (fun i left right => duplicate (List.mem_singleton.mp right ▸ inv.known i left))
    case known =>
      intro i member
      rw [pending] at member
      split at member
      · exact kept i (inv.known i member)
      · rw [← List.append_assoc] at member
        cases List.mem_append.mp member with
        | inl old => exact kept i (inv.known i old)
        | inr new =>
            rw [on_response_received, List.mem_singleton.mp new]
            exact Finset.mem_insert_self _ _
    case basePositive =>
      have positive := inv.basePositive
      rw [newBase]
      omega
    case baseKnown =>
      intro i low high
      rw [newBase] at high
      by_cases before : i < c.base
      · exact kept i (inv.baseKnown i low before)
      · exact passed.2 i (by omega) high

-- What also holds when every response names an issued request.
structure ClientIssued (reqs : List Request) (c : Client) : Prop where
  issued : ∀ s ∈ c.received, 1 ≤ s ∧ s ≤ reqs.length
  waiting : ∀ s r, c.inflight[s]? = some r ↔ (r ∈ reqs ∧ r.seq = s) ∧ s ∉ c.received
  below : ∀ r ∈ reqs, ∀ i, r.Acknowledges i → i < r.seq
  positive : ∀ r ∈ reqs, ∀ i ∈ r.ackNew, 1 ≤ i

theorem client_fresh_issued (setHash : Bool) : ClientIssued [] (Client.fresh setHash) := by
  constructor <;> simp [Client.fresh]

theorem base_within (reqs : List Request) (c : Client) (inv : ClientInv reqs c) (issued : ClientIssued reqs c) :
    c.base ≤ reqs.length + 1 := by
  by_contra above
  have bound := (issued.issued _ (inv.baseKnown (reqs.length + 1) (by omega) (by omega))).2
  omega

theorem generate_request_issued (reqs : List Request) (c : Client) (p : Payload) (inv : ClientInv reqs c)
    (issued : ClientIssued reqs c) : ClientIssued (reqs ++ [(c.generateRequest p).1]) (c.generateRequest p).2 := by
  have fields := generate_request_fields c p
  have length : (reqs ++ [(c.generateRequest p).1]).length = reqs.length + 1 := by simp
  refine ⟨?_, ?_, ?_, ?_⟩
  · intro s member
    have bounds := issued.issued s member
    omega
  · intro s r
    change (c.inflight.insert c.nextSeq (c.generateRequest p).1)[s]? = some r ↔ _ ∧ s ∉ c.received
    rw [Tables.lookup_insert, inv.next]
    by_cases new : s = reqs.length + 1
    · rw [if_pos new, Option.some.injEq]
      have fresh : s ∉ c.received := fun member => by have := issued.issued s member; omega
      constructor
      · intro eq
        subst eq
        exact ⟨⟨by simp, by rw [fields.1, inv.next, new]⟩, fresh⟩
      · rintro ⟨⟨member, seq⟩, _⟩
        cases List.mem_append.mp member with
        | inl old =>
            have bound := (numbered_seq_index reqs r inv.numbered old).2.2
            omega
        | inr last => exact (List.mem_singleton.mp last).symm
    · rw [if_neg new, issued.waiting s r]
      constructor
      · rintro ⟨⟨member, seq⟩, unknown⟩
        exact ⟨⟨List.mem_append_left _ member, seq⟩, unknown⟩
      · rintro ⟨⟨member, seq⟩, unknown⟩
        cases List.mem_append.mp member with
        | inl old => exact ⟨⟨old, seq⟩, unknown⟩
        | inr last =>
            rw [List.mem_singleton.mp last, fields.1, inv.next] at seq
            omega
  · intro r member i acks
    cases List.mem_append.mp member with
    | inl old => exact issued.below r old i acks
    | inr last =>
        rw [List.mem_singleton.mp last] at acks ⊢
        have base := base_within reqs c inv issued
        rw [fields.1, inv.next]
        cases acks with
        | inl low =>
            rw [fields.2.1] at low
            omega
        | inr listed =>
            rw [fields.2.2] at listed
            have bounds := issued.issued i (inv.known i (List.mem_append_right _ listed))
            omega
  · intro r member i listed
    cases List.mem_append.mp member with
    | inl old => exact issued.positive r old i listed
    | inr last =>
        rw [List.mem_singleton.mp last, fields.2.2] at listed
        exact (issued.issued i (inv.known i (List.mem_append_right _ listed))).1

theorem on_response_issued (reqs : List Request) (c : Client) (resp : Response) (issued : ClientIssued reqs c)
    (names : 1 ≤ resp.seq ∧ resp.seq ≤ reqs.length) : ClientIssued reqs (c.onResponse resp).2 := by
  refine ⟨?_, ?_, issued.below, issued.positive⟩
  · intro s member
    rw [on_response_received] at member
    cases Finset.mem_insert.mp member with
    | inl new => exact new ▸ names
    | inr old => exact issued.issued s old
  · intro s r
    by_cases duplicate : resp.seq ∈ c.received
    · rw [on_response_duplicate c resp duplicate]
      exact issued.waiting s r
    · have erased : (c.onResponse resp).2.inflight = c.inflight.erase resp.seq := by
        rw [Client.onResponse, if_neg duplicate]
      rw [erased, on_response_received, Tables.lookup_erase, Finset.mem_insert]
      by_cases here : s = resp.seq
      · simp [here]
      · rw [if_neg here, issued.waiting s r]
        simp [here]

theorem resend_iff (reqs : List Request) (c : Client) (r : Request) (issued : ClientIssued reqs c) :
    r ∈ c.resend ↔ r ∈ reqs ∧ r.seq ∉ c.received := by
  rw [Client.resend, List.mem_filterMap]
  constructor
  · rintro ⟨s, _, found⟩
    obtain ⟨⟨member, seq⟩, unknown⟩ := (issued.waiting s r).mp found
    exact ⟨member, seq ▸ unknown⟩
  · rintro ⟨member, unknown⟩
    have found := (issued.waiting r.seq r).mpr ⟨⟨member, rfl⟩, unknown⟩
    exact ⟨r.seq, Std.ExtTreeMap.mem_keys.mpr ((Tables.mem_iff_lookup _ _).mpr ⟨r, found⟩), found⟩

theorem outstanding_iff (reqs : List Request) (c : Client) (i : Nat) (issued : ClientIssued reqs c) :
    i ∈ c.outstanding ↔ (∃ r ∈ reqs, r.seq = i) ∧ i ∉ c.received := by
  rw [Client.outstanding, Std.ExtTreeMap.mem_keys, Tables.mem_iff_lookup]
  simp only [issued.waiting]
  constructor
  · rintro ⟨r, ⟨member, seq⟩, unknown⟩
    exact ⟨⟨r, member, seq⟩, unknown⟩
  · rintro ⟨⟨r, member, seq⟩, unknown⟩
    exact ⟨r, ⟨member, seq⟩, unknown⟩

theorem receive_received (c : Client) (responses : List Response) (i : Nat) :
    i ∈ (c.receive responses).received ↔ i ∈ c.received ∨ ∃ resp ∈ responses, resp.seq = i := by
  induction responses generalizing c with
  | nil => simp [Client.receive]
  | cons resp rest ih =>
      have first : c.receive (resp :: rest) = (c.onResponse resp).2.receive rest := rfl
      rw [first, ih, on_response_received, Finset.mem_insert, List.exists_mem_cons_iff]
      constructor
      · rintro ((here | old) | later)
        · exact Or.inr (Or.inl here.symm)
        · exact Or.inl old
        · exact Or.inr (Or.inr later)
      · rintro (old | here | later)
        · exact Or.inl (Or.inr old)
        · exact Or.inl (Or.inl here.symm)
        · exact Or.inr later

theorem receive_inv (reqs : List Request) (c : Client) (responses : List Response) (inv : ClientInv reqs c)
    (issued : ClientIssued reqs c) (names : ∀ resp ∈ responses, 1 ≤ resp.seq ∧ resp.seq ≤ reqs.length) :
    ClientInv reqs (c.receive responses) ∧ ClientIssued reqs (c.receive responses) := by
  induction responses generalizing c with
  | nil => exact ⟨inv, issued⟩
  | cons resp rest ih =>
      exact ih (c.onResponse resp).2 (on_response_inv reqs c resp inv)
        (on_response_issued reqs c resp issued (names resp List.mem_cons_self))
        (fun other member => names other (List.mem_cons_of_mem resp member))

-- A request the client built acknowledges only what it had received, below itself.
theorem acknowledged_received (reqs : List Request) (c : Client) (inv : ClientInv reqs c) (r : Request)
    (member : r ∈ reqs) (i : Nat) (positive : 1 ≤ i) (acks : r.Acknowledges i) : i ∈ c.received := by
  cases acks with
  | inl low => exact (inv.ackBase r member).2 i positive low
  | inr listed => exact inv.known i (List.mem_append_left _ (List.mem_flatMap.mpr ⟨r, member, listed⟩))

end Color
