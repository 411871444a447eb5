import Color.Prefix

set_option autoImplicit false

namespace Color

structure Issued (reqs : List Request) : Prop where
  numbered : Numbered reqs
  nodup : (canonical reqs).Nodup
  carried : ∀ r ∈ reqs, ∀ h, r.hash = some h → h = rolling (canonical (reqs.take r.seq))
  below : ∀ r ∈ reqs, ∀ i, r.Acknowledges i → i < r.seq

theorem client_inv_issued (reqs : List Request) (c : Client) (inv : ClientInv reqs c) (issued : ClientIssued reqs c) :
    Issued reqs := by
  refine ⟨inv.numbered, canonical_nodup reqs inv.numbered (List.nodup_append.mp inv.acked).1, ?_, issued.below⟩
  intro r member h frozen
  obtain ⟨found, low, _⟩ := numbered_seq_index reqs r inv.numbered member
  have eq := inv.carried _ r h found frozen
  rwa [Nat.sub_add_cancel low] at eq

-- The server holds exactly the prefix pre of the agreed order, and every entry
-- of its tables belongs to that prefix.
structure Holds (reqs : List Request) (pre : List Event) (sv : Server) : Prop where
  ordered : pre <+: canonical reqs
  count : sv.history.eventCount = pre.length
  events : sv.history.events = pre.drop sv.history.baseCount
  hash : sv.history.curHash = rolling pre
  upto : sv.committedUpto = lastRequest pre
  parked : ∀ k r, sv.pendingReqs[k]? = some r → r ∈ reqs ∧ r.seq = k
  reqHash : ∀ s h, sv.reqHash[s]? = some h → (1 ≤ s ∧ s ≤ sv.committedUpto) ∧ h = rolling (canonical (reqs.take s))
  buffered : ∀ s, s ∈ sv.respBuffer → s ∈ sv.reqHash
  owed : ∀ s ∈ sv.awaiting, s ∈ sv.reqHash ∧ s ∉ sv.respBuffer ∧ Event.request s ∈ sv.history.events

structure Agrees (reqs : List Request) (sv : Server) : Prop where
  holds : Holds reqs (canonical (reqs.take sv.committedUpto)) sv
  bound : sv.committedUpto ≤ reqs.length

theorem last_request_canonical (reqs : List Request) (m : Nat) (numbered : Numbered reqs) (bound : m ≤ reqs.length) :
    lastRequest (canonical (reqs.take m)) = m := by
  cases m with
  | zero => simp [canonical, lastRequest, requestIds]
  | succ m =>
      have found := List.getElem?_eq_getElem (l := reqs) (i := m) (by omega)
      rw [canonical_take_succ reqs m _ found, commitEvents, ← List.append_assoc, last_request_request]
      exact numbered m _ found

theorem agrees_follows (reqs : List Request) (sv : Server) (agrees : Agrees reqs sv) : Follows (canonical reqs) sv := by
  have holds := agrees.holds
  have taken : (canonical reqs).take sv.history.eventCount = canonical (reqs.take sv.committedUpto) := by
    rw [holds.count, canonical_take_length]
  refine ⟨?_, ?_, ?_, ?_⟩
  · rw [holds.count]
    exact holds.ordered.length_le
  · rw [taken, holds.events]
  · rw [taken, holds.hash]
  · rw [taken]
    exact holds.upto

-- R<s> occurs once, so only one prefix ends with it.
theorem prefix_ending_request (reqs : List Request) (before : List Event) (s : Nat) (issued : Issued reqs)
    (pre : before ++ [Event.request s] <+: canonical reqs) :
    before ++ [Event.request s] = canonical (reqs.take s) ∧ 1 ≤ s ∧ s ≤ reqs.length := by
  have member : Event.request s ∈ canonical reqs := pre.subset (by simp)
  obtain ⟨r, inReqs, seq⟩ := (request_mem_canonical reqs s).mp member
  obtain ⟨found, low, high⟩ := numbered_seq_index reqs r issued.numbered inReqs
  rw [seq] at found low high
  refine ⟨?_, low, high⟩
  have shape : canonical (reqs.take s) = canonical (reqs.take (s - 1)) ++ r.ackNew.map Event.response ++ [Event.request s] := by
    have split := canonical_take_succ reqs (s - 1) r found
    rw [Nat.sub_add_cancel low] at split
    rw [split, commitEvents, seq, List.append_assoc]
  have other := canonical_take_initial reqs s
  rw [shape] at other ⊢
  congr 1
  -- Both prefixes place R<s> in the same list, hence at the same index.
  have left : (canonical reqs)[before.length]? = some (Event.request s) := by
    obtain ⟨rest, whole⟩ := pre
    simp [← whole]
  have right : (canonical reqs)[(canonical (reqs.take (s - 1)) ++ r.ackNew.map Event.response).length]? =
      some (Event.request s) := by
    obtain ⟨rest, whole⟩ := other
    rw [← whole, List.append_assoc _ [Event.request s] rest]
    simp
  have bound := (List.getElem?_eq_some_iff.mp left).1
  have sameLength := (List.getElem?_inj bound issued.nodup).mp (left.trans right.symm)
  have leftPrefix : before <+: canonical reqs := (List.prefix_append before _).trans pre
  have rightPrefix := (List.prefix_append (canonical (reqs.take (s - 1)) ++ r.ackNew.map Event.response) _).trans other
  exact (List.prefix_of_prefix_length_le leftPrefix rightPrefix (Nat.le_of_eq sameLength)).eq_of_length sameLength

section Operations

variable (reqs : List Request) (issued : Issued reqs)
include issued

-- A replayed request is the next one, and the prefix holds no answer to it yet.
theorem ingest_request_next (pre : List Event) (sv : Server) (s : Nat) (holds : Holds reqs pre sv)
    (next : pre ++ [Event.request s] <+: canonical reqs) : s = sv.committedUpto + 1 ∧ Event.response s ∉ pre := by
  obtain ⟨place, low, high⟩ := prefix_ending_request reqs pre s issued next
  have found := List.getElem?_eq_getElem (l := reqs) (i := s - 1) (by omega)
  have split := canonical_take_succ reqs (s - 1) _ found
  rw [Nat.sub_add_cancel low, ← place, commitEvents, ← List.append_assoc] at split
  have earlier := (List.append_inj' split rfl).1
  refine ⟨?_, fun answered => ?_⟩
  · rw [holds.upto, earlier, last_request_responses, last_request_canonical reqs _ issued.numbered (by omega)]
    omega
  · have member : Event.response s ∈ canonical (reqs.take s) := by
      rw [← place]
      exact List.mem_append_left _ answered
    obtain ⟨r, early, listed⟩ := (response_mem_canonical _ s).mp member
    have inReqs := List.mem_of_mem_take early
    have above := issued.below r inReqs s (Or.inr listed)
    have bound := (numbered_mem_take reqs r s issued.numbered inReqs).mp early
    omega

omit issued in
theorem hashes_insert (table : SeqMap Hash) (upto seq : Nat) (hash : Hash)
    (before : ∀ s h, table[s]? = some h → (1 ≤ s ∧ s ≤ upto) ∧ h = rolling (canonical (reqs.take s)))
    (low : 1 ≤ seq) (above : upto ≤ seq) (running : hash = rolling (canonical (reqs.take seq))) (s : Nat) (h : Hash)
    (stored : (table.insert seq hash)[s]? = some h) : (1 ≤ s ∧ s ≤ seq) ∧ h = rolling (canonical (reqs.take s)) := by
  rcases Tables.insert_found _ _ _ _ _ stored with ⟨rfl, rfl⟩ | old
  · exact ⟨⟨low, Nat.le_refl _⟩, running⟩
  · obtain ⟨bounds, eq⟩ := before s h old
    exact ⟨⟨bounds.1, Nat.le_trans bounds.2 above⟩, eq⟩

omit issued in
theorem ingest_event_history (sv : Server) (e : ReplayEvent) :
    (sv.ingestEvent e).history = sv.history.append e.event := by
  rw [Server.ingestEvent]
  split <;> rfl

-- Only the rows and sets about responses depend on the kind of the event.
theorem holds_ingest_rows (pre : List Event) (sv : Server) (e : ReplayEvent) (holds : Holds reqs pre sv)
    (next : pre ++ [e.event] <+: canonical reqs)
    (pending : (sv.ingestEvent e).pendingReqs = sv.pendingReqs)
    (reqHash : ∀ s h, (sv.ingestEvent e).reqHash[s]? = some h →
      (1 ≤ s ∧ s ≤ (sv.ingestEvent e).committedUpto) ∧ h = rolling (canonical (reqs.take s)))
    (buffered : ∀ s, s ∈ (sv.ingestEvent e).respBuffer → s ∈ (sv.ingestEvent e).reqHash)
    (owed : ∀ s ∈ (sv.ingestEvent e).awaiting, s ∈ (sv.ingestEvent e).reqHash ∧
      s ∉ (sv.ingestEvent e).respBuffer ∧ Event.request s ∈ sv.history.events ++ [e.event]) :
    Holds reqs (pre ++ [e.event]) (sv.ingestEvent e) := by
  have base : sv.history.baseCount ≤ pre.length := holds.count ▸ Nat.le_add_right _ _
  have history := ingest_event_history sv e
  have ascending : Ascending (pre ++ [e.event]) :=
    List.Pairwise.sublist (List.Sublist.cons_cons 0 ((next.sublist.filter _).map _))
      (canonical_ascending reqs issued.numbered)
  refine ⟨next, ?_, ?_, ?_, ingest_fold_upto pre [e] sv holds.upto ascending, pending ▸ holds.parked, reqHash, buffered,
    history ▸ owed⟩
  · rw [history, List.length_append, ← holds.count]
    simp [History.eventCount, History.append, Nat.add_assoc]
  · rw [history]
    change sv.history.events ++ [e.event] = (pre ++ [e.event]).drop sv.history.baseCount
    rw [holds.events, List.drop_append_of_le_length base]
  · rw [history, rolling_append, ← holds.hash]
    rfl

theorem holds_ingest_response (pre : List Event) (sv : Server) (e : ReplayEvent) (kind : e.isResponse = true)
    (holds : Holds reqs pre sv) (next : pre ++ [e.event] <+: canonical reqs) :
    Holds reqs (pre ++ [e.event]) (sv.ingestEvent e) := by
  have pendingEq : (sv.ingestEvent e).pendingReqs = sv.pendingReqs := by simp [Server.ingestEvent, kind]
  have reqHashEq : (sv.ingestEvent e).reqHash = sv.reqHash := by simp [Server.ingestEvent, kind]
  have uptoEq : (sv.ingestEvent e).committedUpto = sv.committedUpto := by simp [Server.ingestEvent, kind]
  have awaitingEq : (sv.ingestEvent e).awaiting = sv.awaiting.erase e.seq := by simp [Server.ingestEvent, kind]
  have bufferEq : (sv.ingestEvent e).respBuffer = sv.respBuffer.erase e.seq := by simp [Server.ingestEvent, kind]
  apply holds_ingest_rows reqs issued pre sv e holds next pendingEq
  · rw [reqHashEq, uptoEq]
    exact holds.reqHash
  · rw [reqHashEq, bufferEq]
    exact fun s member => holds.buffered s (Std.ExtTreeMap.mem_of_mem_erase member)
  · rw [awaitingEq, reqHashEq, bufferEq]
    intro s member
    obtain ⟨hashed, absent, retained⟩ := holds.owed s (Finset.mem_of_mem_erase member)
    exact ⟨hashed, fun inside => absent (Std.ExtTreeMap.mem_of_mem_erase inside), List.mem_append_left _ retained⟩

theorem holds_ingest_request (pre : List Event) (sv : Server) (e : ReplayEvent) (kind : e.isResponse = false)
    (holds : Holds reqs pre sv) (next : pre ++ [e.event] <+: canonical reqs) :
    Holds reqs (pre ++ [e.event]) (sv.ingestEvent e) := by
  have event : e.event = Event.request e.seq := by simp [ReplayEvent.event, kind]
  obtain ⟨nextSeq, _⟩ := ingest_request_next reqs issued pre sv e.seq holds (event ▸ next)
  obtain ⟨place, low, _⟩ := prefix_ending_request reqs pre e.seq issued (event ▸ next)
  have running : (sv.history.append e.event).curHash = rolling (canonical (reqs.take e.seq)) := by
    rw [← place, ← event, rolling_append, ← holds.hash]
    rfl
  have uptoEq : (sv.ingestEvent e).committedUpto = e.seq := by simp [Server.ingestEvent, kind]; omega
  have pendingEq : (sv.ingestEvent e).pendingReqs = sv.pendingReqs := by simp [Server.ingestEvent, kind]
  have reqHashEq : (sv.ingestEvent e).reqHash = sv.reqHash.insert e.seq (sv.history.append e.event).curHash := by
    simp [Server.ingestEvent, kind]
  have awaitingEq : (sv.ingestEvent e).awaiting = insert e.seq sv.awaiting := by simp [Server.ingestEvent, kind]
  have bufferEq : (sv.ingestEvent e).respBuffer = sv.respBuffer := by simp [Server.ingestEvent, kind]
  apply holds_ingest_rows reqs issued pre sv e holds next pendingEq
  · rw [reqHashEq, uptoEq]
    exact hashes_insert reqs sv.reqHash sv.committedUpto e.seq _ holds.reqHash low (by omega) running
  · rw [bufferEq, reqHashEq]
    exact fun s member => Std.ExtTreeMap.mem_insert.mpr (Or.inr (holds.buffered s member))
  · rw [awaitingEq, bufferEq, reqHashEq]
    intro s member
    cases Finset.mem_insert.mp member with
    | inl here =>
        subst here
        refine ⟨Std.ExtTreeMap.mem_insert_self, fun inside => ?_, by simp [event]⟩
        obtain ⟨h, found⟩ := (Tables.mem_iff_lookup _ _).mp (holds.buffered e.seq inside)
        have bound := (holds.reqHash e.seq h found).1.2
        omega
    | inr old =>
        obtain ⟨hashed, absent, retained⟩ := holds.owed s old
        exact ⟨Std.ExtTreeMap.mem_insert.mpr (Or.inr hashed), absent, List.mem_append_left _ retained⟩

theorem holds_ingest_event (pre : List Event) (sv : Server) (e : ReplayEvent) (holds : Holds reqs pre sv)
    (next : pre ++ [e.event] <+: canonical reqs) : Holds reqs (pre ++ [e.event]) (sv.ingestEvent e) := by
  cases kind : e.isResponse with
  | true => exact holds_ingest_response reqs issued pre sv e kind holds next
  | false => exact holds_ingest_request reqs issued pre sv e kind holds next

theorem ingest_fold_rule (P : List Event → Server → Prop)
    (keep : ∀ pre sv e, Holds reqs pre sv → P pre sv → pre ++ [e.event] <+: canonical reqs →
      P (pre ++ [e.event]) (sv.ingestEvent e))
    (events : List ReplayEvent) (pre : List Event) (sv : Server) (holds : Holds reqs pre sv) (before : P pre sv)
    (next : pre ++ events.map ReplayEvent.event <+: canonical reqs) :
    Holds reqs (pre ++ events.map ReplayEvent.event) (events.foldl Server.ingestEvent sv) ∧
      P (pre ++ events.map ReplayEvent.event) (events.foldl Server.ingestEvent sv) := by
  induction events generalizing pre sv with
  | nil => simpa using ⟨holds, before⟩
  | cons e rest ih =>
      have shift : pre ++ (e :: rest).map ReplayEvent.event = (pre ++ [e.event]) ++ rest.map ReplayEvent.event := by simp
      rw [shift] at next ⊢
      have first := (List.prefix_append _ _).trans next
      exact ih _ _ (holds_ingest_event reqs issued pre sv e holds first) (keep pre sv e holds before first) next

-- A replay of the first m requests, from an index the server has reached.
theorem ingest_replay_rule (P : List Event → Server → Prop)
    (keep : ∀ pre sv e, Holds reqs pre sv → P pre sv → pre ++ [e.event] <+: canonical reqs →
      P (pre ++ [e.event]) (sv.ingestEvent e))
    (sv : Server) (rp : Replay) (m : Nat) (agrees : Agrees reqs sv) (bound : m ≤ reqs.length)
    (fits : rp.fromIndex ≤ sv.history.eventCount)
    (built : rp.events.map ReplayEvent.event = (canonical (reqs.take m)).drop rp.fromIndex)
    (before : P (canonical (reqs.take sv.committedUpto)) sv) :
    Agrees reqs (sv.ingestReplay rp) ∧ (sv.ingestReplay rp).committedUpto = max sv.committedUpto m ∧
      P (canonical (reqs.take (max sv.committedUpto m))) (sv.ingestReplay rp) := by
  have suffix : (rp.events.drop (sv.history.eventCount - rp.fromIndex)).map ReplayEvent.event =
      (canonical (reqs.take m)).drop (canonical (reqs.take sv.committedUpto)).length := by
    rw [List.map_drop, built, List.drop_drop, ← agrees.holds.count]
    congr 1
    omega
  have joined : canonical (reqs.take sv.committedUpto) ++
      (canonical (reqs.take m)).drop (canonical (reqs.take sv.committedUpto)).length =
      canonical (reqs.take (max sv.committedUpto m)) := by
    cases Nat.le_total sv.committedUpto m with
    | inl le =>
        rw [Nat.max_eq_right le]
        exact List.prefix_iff_eq_append.mp (canonical_take_mono reqs _ _ le)
    | inr le =>
        rw [Nat.max_eq_left le, List.drop_of_length_le (canonical_take_mono reqs _ _ le).length_le, List.append_nil]
  have folded := ingest_fold_rule reqs issued P keep _ _ sv agrees.holds before
    (by rw [suffix, joined]; exact canonical_take_initial reqs _)
  rw [suffix, joined, ← ingest_replay_eq] at folded
  have within : max sv.committedUpto m ≤ reqs.length := Nat.max_le.mpr ⟨agrees.bound, bound⟩
  have upto : (sv.ingestReplay rp).committedUpto = max sv.committedUpto m := by
    rw [folded.1.upto, last_request_canonical reqs _ issued.numbered within]
  exact ⟨⟨upto ▸ folded.1, upto ▸ within⟩, upto, folded.2⟩

omit issued in
theorem agrees_release (sv : Server) (req : Request) (agrees : Agrees reqs sv) : Agrees reqs (sv.releaseAcked req) := by
  have holds := agrees.holds
  have kept : ∀ s, s ∈ (sv.releaseAcked req).respBuffer → s ∈ sv.respBuffer := by
    intro s member
    exact ((release_member sv req s).mp member).1
  exact ⟨⟨holds.ordered, holds.count, holds.events, holds.hash, holds.upto, holds.parked, holds.reqHash,
    fun s member => holds.buffered s (kept s member),
    fun s member =>
      ⟨(holds.owed s member).1, fun inside => (holds.owed s member).2.1 (kept s inside), (holds.owed s member).2.2⟩⟩,
    agrees.bound⟩

omit issued in
theorem agrees_stage (sv : Server) (req : Request) (agrees : Agrees reqs sv) (member : req ∈ reqs) :
    Agrees reqs (sv.stage req) := by
  have holds := agrees.holds
  refine ⟨⟨holds.ordered, holds.count, holds.events, holds.hash, holds.upto, ?_, holds.reqHash,
    holds.buffered, holds.owed⟩, agrees.bound⟩
  intro k r parked
  rcases Tables.insert_found sv.pendingReqs req.seq k req r parked with ⟨rfl, rfl⟩ | old
  · exact ⟨member, rfl⟩
  · exact holds.parked k r old

omit issued in
theorem agrees_track (sv : Server) (agrees : Agrees reqs sv) : Agrees reqs sv.trackBounds := by
  have holds := agrees.holds
  exact ⟨⟨holds.ordered, holds.count, holds.events, holds.hash, holds.upto, holds.parked, holds.reqHash,
    holds.buffered, holds.owed⟩, agrees.bound⟩

omit issued in
theorem agrees_process (app : AppFn) (sv : Server) (req : Request) (agrees : Agrees reqs sv)
    (owed : req.seq ∈ sv.awaiting) : Agrees reqs (sv.process app req).1 := by
  have holds := agrees.holds
  refine ⟨⟨holds.ordered, holds.count, holds.events, holds.hash, holds.upto, holds.parked, holds.reqHash, ?_, ?_⟩,
    agrees.bound⟩
  · intro s member
    cases (Tables.mem_insert_iff _ _ _ _).mp member with
    | inl here =>
        rw [here]
        exact (holds.owed req.seq owed).1
    | inr old => exact holds.buffered s old
  · intro s member
    have different : s ≠ req.seq := Finset.ne_of_mem_erase member
    obtain ⟨hashed, absent, retained⟩ := holds.owed s (Finset.mem_of_mem_erase member)
    refine ⟨hashed, fun inside => ?_, retained⟩
    cases (Tables.mem_insert_iff _ _ _ _).mp inside with
    | inl here => exact different here
    | inr old => exact absent old

theorem agrees_commit (app : AppFn) (sv : Server) (r : Request) (agrees : Agrees reqs sv)
    (found : sv.pendingReqs[sv.committedUpto + 1]? = some r) :
    Agrees reqs (sv.commit app r).1 ∧ (sv.commit app r).1.committedUpto = sv.committedUpto + 1 ∧
      (sv.commit app r).2.mismatches = [] := by
  have holds := agrees.holds
  obtain ⟨member, seq⟩ := holds.parked _ r found
  obtain ⟨index, _, high⟩ := numbered_seq_index reqs r issued.numbered member
  rw [seq, Nat.add_sub_cancel] at index
  have upto : (sv.commit app r).1.committedUpto = sv.committedUpto + 1 := seq
  have history : (sv.commit app r).1.history = sv.history.appendAll (commitEvents r.ackNew r.seq) :=
    commit_request_append_all _ _ _
  have next := canonical_take_succ reqs sv.committedUpto r index
  have base : sv.history.baseCount ≤ (canonical (reqs.take sv.committedUpto)).length :=
    holds.count ▸ Nat.le_add_right _ _
  have hash : (sv.commit app r).1.history.curHash = rolling (canonical (reqs.take (sv.committedUpto + 1))) := by
    rw [history, append_all_hash, holds.hash, next, rolling_append]
  have reqHashEq : (sv.commit app r).1.reqHash = sv.reqHash.insert r.seq (sv.commit app r).1.history.curHash := rfl
  have bufferEq : ∃ resp, (sv.commit app r).1.respBuffer = sv.respBuffer.insert r.seq resp := ⟨_, rfl⟩
  refine ⟨⟨?_, by omega⟩, upto, ?_⟩
  · rw [upto]
    refine ⟨canonical_take_initial reqs _, ?_, ?_, hash, ?_, ?_, ?_, ?_, ?_⟩
    · rw [history, next, List.length_append, ← holds.count]
      simp [History.eventCount, Nat.add_assoc]
    · rw [history, append_all_events, append_all_base, next, holds.events, List.drop_append_of_le_length base]
    · rw [upto, last_request_canonical reqs _ issued.numbered (by omega)]
    · intro k q parked
      exact holds.parked k q (Tables.erase_found sv.pendingReqs (sv.committedUpto + 1) k q parked).2
    · rw [reqHashEq, upto, ← seq]
      exact hashes_insert reqs sv.reqHash sv.committedUpto r.seq _ holds.reqHash (by omega) (by omega) (seq ▸ hash)
    · intro s inside
      obtain ⟨resp, bufferEq⟩ := bufferEq
      rw [bufferEq] at inside
      rw [reqHashEq]
      rw [Tables.mem_insert_iff] at inside ⊢
      exact inside.imp_right (holds.buffered s)
    · intro s member
      obtain ⟨hashed, absent, retained⟩ := holds.owed s member
      obtain ⟨resp, bufferEq⟩ := bufferEq
      rw [reqHashEq, bufferEq, history, append_all_events]
      refine ⟨Std.ExtTreeMap.mem_insert.mpr (Or.inr hashed), fun inside => ?_, List.mem_append_left _ retained⟩
      cases (Tables.mem_insert_iff _ _ _ _).mp inside with
      | inl here =>
          obtain ⟨h, stored⟩ := (Tables.mem_iff_lookup _ _).mp hashed
          have bound := (holds.reqHash s h stored).1.2
          omega
      | inr old => exact absent old
  · have silent : hashMismatch r.seq r.hash (some (sv.commit app r).1.history.curHash) = none := by
      apply hash_mismatch_none
      intro g e sent expected
      rw [issued.carried r member g sent, ← Option.some.inj expected, hash, seq]
    change (if sv.setHash then hashMismatch r.seq r.hash (some (sv.commit app r).1.history.curHash) else none).toList = []
    rw [silent]
    split <;> rfl

end Operations

-- A normal response names an issued request and carries that request's hash.
def RespOk (reqs : List Request) (resp : Response) : Prop :=
  (1 ≤ resp.seq ∧ resp.seq ≤ reqs.length) ∧ ∀ h, resp.hash = some h → h = rolling (canonical (reqs.take resp.seq))

theorem make_response_ok (reqs : List Request) (sv : Server) (req : Request) (payload : Payload) (noOp : Bool)
    (issued : Issued reqs) (member : req ∈ reqs) (agrees : Agrees reqs sv) :
    RespOk reqs (sv.makeResponse req.seq payload noOp) := by
  obtain ⟨_, low, high⟩ := numbered_seq_index reqs req issued.numbered member
  refine ⟨⟨low, high⟩, fun h carried => ?_⟩
  have stored : (if sv.setHash then sv.reqHash[req.seq]? else none) = some h := carried
  split at stored
  · exact (agrees.holds.reqHash _ h stored).2
  · cases stored

-- on_request on a frozen request keeps the server on the agreed order, moves
-- it forward only, and never reports a mismatch.
theorem on_request_agrees (reqs : List Request) (app : AppFn) (sv : Server) (req : Request) (issued : Issued reqs)
    (agrees : Agrees reqs sv) (member : req ∈ reqs) :
    Agrees reqs (sv.onRequest app req).1 ∧ sv.committedUpto ≤ (sv.onRequest app req).1.committedUpto ∧
      (∀ resp ∈ (sv.onRequest app req).2.responses, resp.recover = false → RespOk reqs resp) ∧
      (sv.onRequest app req).2.mismatches = [] := by
  have released := agrees_release reqs sv req agrees
  let Good (next : Server) (out : Outcome) : Prop :=
    Agrees reqs next ∧ sv.committedUpto ≤ next.committedUpto ∧
      (∀ resp ∈ out.responses, resp.recover = false → RespOk reqs resp) ∧ out.mismatches = []
  have single : ∀ (next : Server) (payload : Payload) (noOp : Bool), Agrees reqs next →
      ∀ resp ∈ [next.makeResponse req.seq payload noOp], resp.recover = false → RespOk reqs resp := by
    intro next payload noOp ok resp only _
    rw [List.mem_singleton.mp only]
    exact make_response_ok reqs next req payload noOp issued member ok
  apply on_request_rule Good
  · exact fun _ => ⟨agrees, Nat.le_refl _, by simp [Server.recoverySignal], rfl⟩
  · intro _ _
    apply answer_committed_rule (fun next out => Good next.trackBounds out)
    · exact fun payload _ => ⟨agrees_track reqs _ released, Nat.le_refl _, single _ payload false released, rfl⟩
    · intro _ owed
      have processed := agrees_process reqs app _ req released owed
      refine ⟨agrees_track reqs _ processed, Nat.le_refl _, ?_, rfl⟩
      rw [process_responses]
      exact single _ _ false processed
    · exact fun _ _ => ⟨agrees_track reqs _ released, Nat.le_refl _, single _ [] true released, rfl⟩
  · intro _ _
    have drained : Good _ _ := stage_and_advance_rule Good app (sv.releaseAcked req) req
      ⟨agrees_stage reqs _ req released member, Nat.le_refl _, by simp, rfl⟩
      (fun next out r before found => by
        obtain ⟨ok, forward, responses, silent⟩ := before
        obtain ⟨after, upto, still⟩ := agrees_commit reqs issued app next r ok found
        obtain ⟨inReqs, _⟩ := ok.holds.parked _ r found
        refine ⟨after, by omega, ?_, by rw [outcome_append_mismatches, silent, still]; rfl⟩
        intro resp inside normal
        cases List.mem_append.mp inside with
        | inl old => exact responses resp old normal
        | inr new =>
            rw [commit_responses] at new
            rw [List.mem_singleton.mp new]
            exact make_response_ok reqs _ r _ false issued inReqs after)
    exact ⟨agrees_track reqs _ drained.1, drained.2.1, drained.2.2.1, drained.2.2.2⟩

end Color
