import Color.System

set_option autoImplicit false

namespace Color

-- One application, a pure function of its arguments, for every call.
def Server.serveAll (app : AppFn) (requests : List Request) (sv : Server) : Server × Outcome :=
  sv.serve (requests.map (fun req => ⟨req, app⟩))

-- The requests of a run that are not refused with a recovery signal, as they come.
def Server.accepted (app : AppFn) : List Request → Server → List Request
  | [], _ => []
  | req :: rest, sv =>
      if (sv.onRequest app req).2.responses.any Response.recover
      then Server.accepted app rest (sv.onRequest app req).1
      else req :: Server.accepted app rest (sv.onRequest app req).1

theorem accepted_within (app : AppFn) (requests : List Request) (sv : Server) :
    ∀ r ∈ sv.accepted app requests, r ∈ requests := by
  induction requests generalizing sv with
  | nil => exact fun r member => member
  | cons req rest ih =>
      intro r member
      rw [Server.accepted] at member
      split at member
      · exact List.mem_cons_of_mem req (ih _ r member)
      · cases List.mem_cons.mp member with
        | inl here => exact here ▸ List.mem_cons_self
        | inr later => exact List.mem_cons_of_mem req (ih _ r later)

-- The abstract server: requests committed one after another, nothing lost,
-- repeated or out of place. Answers are kept for good.
structure Ledger where
  history : History
  answers : SeqMap Payload

def Ledger.commit (app : AppFn) (ledger : Ledger) (r : Request) : Ledger :=
  let history := ledger.history.commitRequest r.ackNew r.seq
  { history := history, answers := ledger.answers.insert r.seq (app r.seq r.payload history) }

def Server.ledger (sv : Server) : Ledger := { history := sv.history, answers := sv.respBuffer }

-- A server in terms of the requests it accepted: it committed those whose ids
-- follow the start without a gap, parks the others, and buffers the answers
-- that no accepted request acknowledges.
structure Absorbed (app : AppFn) (start : Server) (accepted : List Request) (sv : Server) : Prop where
  idle : sv.awaiting = ∅
  upto : start.committedUpto ≤ sv.committedUpto
  acked : ∀ r ∈ accepted, ∀ i, r.Acknowledges i → i ≤ sv.committedUpto
  parked : ∀ k r, sv.pendingReqs[k]? = some r ↔ (r ∈ accepted ∧ r.seq = k) ∧ sv.committedUpto < k
  committed : ∃ reqs : List Request, (∀ r ∈ reqs, r ∈ accepted) ∧
    reqs.map Request.seq = List.range' (start.committedUpto + 1) (sv.committedUpto - start.committedUpto) ∧
    sv.history = (reqs.foldl (Ledger.commit app) start.ledger).history ∧
    ∀ i, sv.respBuffer[i]? = if ∃ r ∈ accepted, r.Acknowledges i then none
      else (reqs.foldl (Ledger.commit app) start.ledger).answers[i]?

theorem absorbed_start (app : AppFn) (origin : Option Checkpoint) (setHash : Bool) :
    Absorbed app (Server.start origin setHash) [] (Server.start origin setHash) := by
  have settled : ∀ start : Server, start.awaiting = ∅ → start.pendingReqs = ∅ → Absorbed app start [] start := by
    intro start idle empty
    refine ⟨idle, Nat.le_refl _, by simp, by simp [empty], [], by simp, by simp, rfl, ?_⟩
    intro i
    simp [Server.ledger]
  cases origin with
  | none => exact settled _ rfl rfl
  | some cp => exact settled _ rfl rfl

theorem absorbed_commit (app : AppFn) (start : Server) (accepted : List Request) (sv : Server) (r : Request)
    (inv : Absorbed app start accepted sv) (found : sv.pendingReqs[sv.committedUpto + 1]? = some r) :
    Absorbed app start accepted (sv.commit app r).1 := by
  obtain ⟨⟨member, seq⟩, _⟩ := (inv.parked _ _).mp found
  have advance : (sv.commit app r).1.committedUpto = sv.committedUpto + 1 := seq
  have upto := inv.upto
  obtain ⟨reqs, within, seqs, history, buffer⟩ := inv.committed
  have answer : (sv.commit app r).1.respBuffer =
      sv.respBuffer.insert r.seq (app r.seq r.payload (sv.history.commitRequest r.ackNew r.seq)) := rfl
  refine ⟨inv.idle, by omega, ?acked, ?parked, reqs ++ [r], ?within, ?seqs, ?history, ?buffer⟩
  case acked =>
    intro q old i acks
    have below := inv.acked q old i acks
    omega
  case parked =>
    intro k q
    change (sv.pendingReqs.erase (sv.committedUpto + 1))[k]? = some q ↔ _
    rw [Tables.lookup_erase, advance]
    by_cases here : k = sv.committedUpto + 1
    · simp [here]
    · rw [if_neg here, inv.parked]
      exact and_congr_right (fun _ => by omega)
  case within =>
    intro q listed
    cases List.mem_append.mp listed with
    | inl old => exact within q old
    | inr new => exact List.mem_singleton.mp new ▸ member
  case seqs =>
    have edge : start.committedUpto + 1 + (sv.committedUpto - start.committedUpto) = r.seq := by omega
    have span : sv.committedUpto + 1 - start.committedUpto = (sv.committedUpto - start.committedUpto) + 1 := by omega
    rw [List.map_append, seqs, advance, span, List.range'_1_concat, edge]
    rfl
  case history =>
    rw [List.foldl_append, List.foldl_cons, List.foldl_nil, Ledger.commit, ← history]
    rfl
  case buffer =>
    intro i
    rw [answer, Tables.lookup_insert, buffer, List.foldl_append, List.foldl_cons, List.foldl_nil, Ledger.commit,
      Tables.lookup_insert, ← history]
    by_cases own : i = r.seq
    · -- Nothing accepted so far acknowledges an id above the committed ones.
      have unacked : ¬ ∃ q ∈ accepted, q.Acknowledges i := by
        intro acks
        obtain ⟨q, old, acks⟩ := acks
        have below := inv.acked q old i acks
        omega
      rw [if_pos own, if_neg unacked, if_pos own]
    · rw [if_neg own, if_neg own]

-- Accepting a request applies its acknowledgements, whichever branch follows.
theorem absorbed_accept (app : AppFn) (start : Server) (accepted : List Request) (sv next : Server) (req : Request)
    (inv : Absorbed app start accepted sv) (admitted : ¬ sv.needsRecover req) (idle : next.awaiting = sv.awaiting)
    (upto : next.committedUpto = sv.committedUpto) (history : next.history = sv.history)
    (buffer : next.respBuffer = (sv.releaseAcked req).respBuffer)
    (parked : ∀ k r, next.pendingReqs[k]? = some r ↔
      (r ∈ accepted ++ [req] ∧ r.seq = k) ∧ sv.committedUpto < k) :
    Absorbed app start (accepted ++ [req]) next := by
  obtain ⟨reqs, within, seqs, ledger, answers⟩ := inv.committed
  refine ⟨idle ▸ inv.idle, upto ▸ inv.upto, ?acked, upto ▸ parked, reqs, ?within, upto ▸ seqs, history ▸ ledger, ?buffer⟩
  case acked =>
    intro r member i acks
    rw [upto]
    cases List.mem_append.mp member with
    | inl old => exact inv.acked r old i acks
    | inr new =>
        rw [List.mem_singleton.mp new] at acks
        exact accepted_acks sv req i admitted acks
  case within => exact fun r member => List.mem_append_left _ (within r member)
  case buffer =>
    intro i
    have split : (∃ r ∈ accepted ++ [req], r.Acknowledges i) ↔
        (∃ r ∈ accepted, r.Acknowledges i) ∨ req.Acknowledges i := by
      simp [List.mem_append, or_and_right, exists_or]
    rw [buffer, release_lookup, answers]
    by_cases own : req.Acknowledges i
    · rw [if_pos own, if_pos (split.mpr (Or.inr own))]
    · by_cases old : ∃ r ∈ accepted, r.Acknowledges i
      · rw [if_neg own, if_pos old, if_pos (split.mpr (Or.inl old))]
      · rw [if_neg own, if_neg old, if_neg (fun either => (split.mp either).elim old own)]

-- A committed id is not parked again.
theorem parked_known (app : AppFn) (start : Server) (accepted : List Request) (sv : Server) (req : Request)
    (inv : Absorbed app start accepted sv) (known : req.seq ≤ sv.committedUpto) (k : Nat) (r : Request) :
    sv.pendingReqs[k]? = some r ↔ (r ∈ accepted ++ [req] ∧ r.seq = k) ∧ sv.committedUpto < k := by
  rw [inv.parked, List.mem_append, List.mem_singleton]
  constructor
  · exact fun holds => ⟨⟨Or.inl holds.1.1, holds.1.2⟩, holds.2⟩
  · intro holds
    obtain ⟨⟨member, seq⟩, above⟩ := holds
    cases member with
    | inl old => exact ⟨⟨old, seq⟩, above⟩
    | inr new =>
        rw [new] at seq
        omega

theorem parked_staged (app : AppFn) (start : Server) (accepted : List Request) (sv : Server) (req : Request)
    (inv : Absorbed app start accepted sv) (single : ∀ r ∈ accepted, r.seq = req.seq → r = req)
    (above : sv.committedUpto < req.seq) (k : Nat) (r : Request) :
    (sv.pendingReqs.insert req.seq req)[k]? = some r ↔
      (r ∈ accepted ++ [req] ∧ r.seq = k) ∧ sv.committedUpto < k := by
  rw [Tables.lookup_insert, List.mem_append, List.mem_singleton]
  by_cases here : k = req.seq
  · rw [if_pos here, Option.some.injEq]
    constructor
    · exact fun same => ⟨⟨Or.inr same.symm, same ▸ here.symm⟩, here ▸ above⟩
    · intro holds
      obtain ⟨⟨member, seq⟩, _⟩ := holds
      cases member with
      | inl old => exact (single r old (seq.trans here)).symm
      | inr new => exact new.symm
  · rw [if_neg here, inv.parked]
    constructor
    · exact fun holds => ⟨⟨Or.inl holds.1.1, holds.1.2⟩, holds.2⟩
    · intro holds
      obtain ⟨⟨member, seq⟩, beyond⟩ := holds
      cases member with
      | inl old => exact ⟨⟨old, seq⟩, beyond⟩
      | inr new =>
          rw [new] at seq
          exact absurd seq.symm here

theorem absorbed_on_request (app : AppFn) (start : Server) (accepted : List Request) (sv : Server) (req : Request)
    (inv : Absorbed app start accepted sv) (single : ∀ r ∈ accepted, r.seq = req.seq → r = req)
    (admitted : ¬ sv.needsRecover req) : Absorbed app start (accepted ++ [req]) (sv.onRequest app req).1 := by
  apply on_request_rule (fun next _ => Absorbed app start (accepted ++ [req]) next)
  · exact fun refused => absurd refused admitted
  · intro _ known
    have kept : Absorbed app start (accepted ++ [req]) (sv.releaseAcked req).trackBounds :=
      absorbed_accept app start accepted sv _ req inv admitted rfl rfl rfl rfl
        (parked_known app start accepted sv req inv known)
    apply answer_committed_rule (fun next _ => Absorbed app start (accepted ++ [req]) next.trackBounds)
    · exact fun _ _ => kept
    · intro _ owed
      have none : req.seq ∈ sv.awaiting := owed
      simp [inv.idle] at none
    · exact fun _ _ => kept
  · intro _ above
    have staged : Absorbed app start (accepted ++ [req]) ((sv.releaseAcked req).stage req) :=
      absorbed_accept app start accepted sv _ req inv admitted rfl rfl rfl rfl
        (parked_staged app start accepted sv req inv single above)
    have drained := stage_and_advance_rule (fun next _ => Absorbed app start (accepted ++ [req]) next) app
      (sv.releaseAcked req) req staged
      (fun next _ r before found => absorbed_commit app start (accepted ++ [req]) next r before found)
    exact ⟨drained.idle, drained.upto, drained.acked, drained.parked, drained.committed⟩

theorem absorbed_run (app : AppFn) (start : Server) (pool : Set Request)
    (single : ∀ a ∈ pool, ∀ b ∈ pool, a.seq = b.seq → a = b) (requests accepted : List Request) (sv : Server)
    (within : ∀ r ∈ requests, r ∈ pool) (known : ∀ r ∈ accepted, r ∈ pool)
    (inv : Absorbed app start accepted sv) :
    Absorbed app start (accepted ++ sv.accepted app requests) (sv.serveAll app requests).1 := by
  induction requests generalizing accepted sv with
  | nil => simpa [Server.accepted, Server.serveAll, Server.serve, Server.handleAll] using inv
  | cons req rest ih =>
      have later : ∀ r ∈ rest, r ∈ pool := fun r member => within r (List.mem_cons_of_mem req member)
      have own : req ∈ pool := within req List.mem_cons_self
      have step : (sv.serveAll app (req :: rest)).1 = ((sv.onRequest app req).1.serveAll app rest).1 := rfl
      rw [step, Server.accepted]
      split
      · rename_i refused
        have recover := (on_request_recover_iff app sv req).mp refused
        have kept : (sv.onRequest app req).1 = sv := by rw [on_request_refused app sv req recover]
        rw [kept]
        exact ih accepted sv later known inv
      · rename_i admitted
        have through : ¬ sv.needsRecover req := fun recover => admitted ((on_request_recover_iff app sv req).mpr recover)
        have next := absorbed_on_request app start accepted sv req inv
          (fun r member same => single r (known r member) req own same) through
        have listed : ∀ r ∈ accepted ++ [req], r ∈ pool := by
          intro r member
          cases List.mem_append.mp member with
          | inl old => exact known r old
          | inr new => exact List.mem_singleton.mp new ▸ own
        have whole := ih (accepted ++ [req]) _ later listed next
        rwa [List.append_assoc] at whole

theorem same_seqs (pool : Set Request) (single : ∀ a ∈ pool, ∀ b ∈ pool, a.seq = b.seq → a = b)
    (first second : List Request) (left : ∀ r ∈ first, r ∈ pool) (right : ∀ r ∈ second, r ∈ pool)
    (seqs : first.map Request.seq = second.map Request.seq) : first = second := by
  induction first generalizing second with
  | nil =>
      cases second with
      | nil => rfl
      | cons b rest => simp at seqs
  | cons a rest ih =>
      cases second with
      | nil => simp at seqs
      | cons b rest' =>
          rw [List.map_cons, List.map_cons, List.cons.injEq] at seqs
          have head : a = b := single a (left a List.mem_cons_self) b (right b List.mem_cons_self) seqs.1
          have tail := ih rest' (fun r member => left r (List.mem_cons_of_mem a member))
            (fun r member => right r (List.mem_cons_of_mem b member)) seqs.2
          rw [head, tail]

-- What a server committed is a run of accepted ids that it never has parked.
theorem absorbed_upto_le (app : AppFn) (start one two : Server) (first second : List Request)
    (same : ∀ r, r ∈ first ↔ r ∈ second) (left : Absorbed app start first one) (right : Absorbed app start second two)
    (clear : one.pendingReqs[one.committedUpto + 1]? = none) : two.committedUpto ≤ one.committedUpto := by
  by_contra short
  obtain ⟨reqs, within, seqs, _⟩ := right.committed
  have from_ := left.upto
  have next : one.committedUpto + 1 ∈ reqs.map Request.seq := by
    rw [seqs]
    exact List.mem_range'_1.mpr (by omega)
  obtain ⟨r, listed, seq⟩ := List.mem_map.mp next
  have parked := (left.parked (one.committedUpto + 1) r).mpr ⟨⟨(same r).mpr (within r listed), seq⟩, by omega⟩
  rw [clear] at parked
  cases parked

-- The accepted requests determine the server.
theorem absorbed_unique (app : AppFn) (start one two : Server) (pool : Set Request)
    (single : ∀ a ∈ pool, ∀ b ∈ pool, a.seq = b.seq → a = b) (first second : List Request)
    (known : ∀ r ∈ first, r ∈ pool) (same : ∀ r, r ∈ first ↔ r ∈ second)
    (left : Absorbed app start first one) (right : Absorbed app start second two)
    (oneClear : one.pendingReqs[one.committedUpto + 1]? = none)
    (twoClear : two.pendingReqs[two.committedUpto + 1]? = none) :
    one.committedUpto = two.committedUpto ∧ one.history = two.history ∧ one.pendingReqs = two.pendingReqs ∧
      one.respBuffer = two.respBuffer := by
  have upto : one.committedUpto = two.committedUpto :=
    Nat.le_antisymm (absorbed_upto_le app start two one second first (fun r => (same r).symm) right left twoClear)
      (absorbed_upto_le app start one two first second same left right oneClear)
  obtain ⟨reqs, within, seqs, history, buffer⟩ := left.committed
  obtain ⟨reqs', within', seqs', history', buffer'⟩ := right.committed
  have runs : reqs = reqs' := by
    apply same_seqs pool single reqs reqs' (fun r member => known r (within r member))
    · exact fun r member => known r ((same r).mpr (within' r member))
    · rw [seqs, seqs', upto]
  refine ⟨upto, ?_, ?_, ?_⟩
  · rw [history, history', runs]
  · apply Std.ExtTreeMap.ext_getElem?
    intro k
    apply Option.ext
    intro r
    rw [left.parked, right.parked, same, upto]
  · apply Std.ExtTreeMap.ext_getElem?
    intro i
    have acked : (∃ r ∈ first, r.Acknowledges i) ↔ ∃ r ∈ second, r.Acknowledges i := by simp only [same]
    rw [buffer, buffer', runs]
    simp only [acked]

-- Requests with one content per id, in any order and number: only which of
-- them are accepted matters, and a refused one changes nothing.
theorem delivery_order_irrelevant (app : AppFn) (origin : Option Checkpoint) (setHash : Bool) (pool : Set Request)
    (single : ∀ a ∈ pool, ∀ b ∈ pool, a.seq = b.seq → a = b) (first second : List Request)
    (left : ∀ r ∈ first, r ∈ pool) (right : ∀ r ∈ second, r ∈ pool)
    (same : ∀ r, r ∈ (Server.start origin setHash).accepted app first ↔
      r ∈ (Server.start origin setHash).accepted app second) :
    let one := ((Server.start origin setHash).serveAll app first).1
    let two := ((Server.start origin setHash).serveAll app second).1
    (one.committedUpto = two.committedUpto ∧ one.history = two.history ∧ one.pendingReqs = two.pendingReqs ∧
      one.respBuffer = two.respBuffer ∧ ∀ s : Nat, one.appCalls[s]?.getD 0 = two.appCalls[s]?.getD 0) ∧
    ∀ (sv : Server) (req : Request), (∃ resp ∈ (sv.onRequest app req).2.responses, resp.recover = true) →
      (sv.onRequest app req).1 = sv := by
  intro one two
  have ran : ∀ requests : List Request, (∀ r ∈ requests, r ∈ pool) →
      Absorbed app (Server.start origin setHash) ((Server.start origin setHash).accepted app requests)
        ((Server.start origin setHash).serveAll app requests).1 :=
    fun requests within => absorbed_run app _ pool single requests [] _ within (by simp) (absorbed_start app origin setHash)
  have clear : ∀ requests : List Request,
      let sv := ((Server.start origin setHash).serveAll app requests).1
      sv.pendingReqs[sv.committedUpto + 1]? = none := by
    intro requests
    apply serve_clear
    cases origin <;> simp [Server.start, Server.ofCheckpoint]
  have known : ∀ r ∈ (Server.start origin setHash).accepted app first, r ∈ pool :=
    fun r member => left r (accepted_within app first _ r member)
  obtain ⟨upto, history, parked, buffer⟩ := absorbed_unique app _ one two pool single _ _ known same
    (ran first left) (ran second right) (clear first) (clear second)
  refine ⟨⟨upto, history, parked, buffer, ?_⟩, ?_⟩
  · -- Each side runs the application once for every id it committed.
    intro s
    have counts : ∀ requests : List Request,
        let sv := ((Server.start origin setHash).serveAll app requests).1
        sv.appCalls[s]?.getD 0 = (List.range' ((Server.start origin setHash).committedUpto + 1)
          (sv.committedUpto - (Server.start origin setHash).committedUpto)).count s := by
      intro requests
      have stream := serve_stream origin setHash (requests.map (fun req => ⟨req, app⟩))
      exact (stream.counted s).trans (congrArg (List.count s) stream.calls)
    rw [counts first, counts second, upto]
  · intro sv req refused
    have recover := (on_request_recover_iff app sv req).mp (List.any_eq_true.mpr refused)
    rw [on_request_refused app sv req recover]

-- The second request first and parked, or after the first one and repeated.
theorem delivery_order_irrelevant_two :
    let one := ((Server.start none true).serveAll (fun _ p _ => p) [{ seq := 2 }, { seq := 1 }]).1
    let two := ((Server.start none true).serveAll (fun _ p _ => p) [{ seq := 1 }, { seq := 2 }, { seq := 1 }]).1
    (one.committedUpto = two.committedUpto ∧ one.history = two.history ∧ one.pendingReqs = two.pendingReqs ∧
      one.respBuffer = two.respBuffer ∧ ∀ s : Nat, one.appCalls[s]?.getD 0 = two.appCalls[s]?.getD 0) ∧
    ∀ (sv : Server) (req : Request),
      (∃ resp ∈ (sv.onRequest (fun _ p _ => p) req).2.responses, resp.recover = true) →
        (sv.onRequest (fun _ p _ => p) req).1 = sv := by
  have first : (Server.start none true).accepted (fun _ p _ => p) [{ seq := 2 }, { seq := 1 }] =
      [{ seq := 2 }, { seq := 1 }] := by decide +kernel
  have second : (Server.start none true).accepted (fun _ p _ => p) [{ seq := 1 }, { seq := 2 }, { seq := 1 }] =
      [{ seq := 1 }, { seq := 2 }, { seq := 1 }] := by decide +kernel
  exact delivery_order_irrelevant (fun _ p _ => p) none true { r | r = { seq := r.seq } }
    (fun a left b right same => by
      rw [left, right, same])
    [{ seq := 2 }, { seq := 1 }] [{ seq := 1 }, { seq := 2 }, { seq := 1 }] (by simp) (by simp)
    (by
      rw [first, second]
      intro r
      simp
      tauto)

end Color
