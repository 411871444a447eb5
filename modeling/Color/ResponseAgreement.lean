import Color.Instance

set_option autoImplicit false

namespace Color

def resultsOf (i : Nat) (log : List Obs) : List Payload :=
  log.filterMap (fun o => match o with
    | .invoked _ c => if c.seq = i then some c.result else none
    | _ => none)

def lastResult (log : List Obs) (i : Nat) : Option Payload := (resultsOf i log).getLast?

theorem results_of_observed (i inst : Nat) (req : Request) (out : Outcome) :
    resultsOf i (observed inst req out) = (out.calls.filter (fun c => c.seq = i)).map Call.result := by
  have calls : resultsOf i (out.calls.map (Obs.invoked inst)) = (out.calls.filter (fun c => c.seq = i)).map Call.result := by
    induction out.calls with
    | nil => rfl
    | cons c rest ih =>
        rw [resultsOf] at ih
        by_cases here : c.seq = i <;> simp [resultsOf, here, ih]
  rw [resultsOf] at calls
  by_cases refused : out.responses.any Response.recover <;>
    simp [resultsOf, observed, refused, List.filterMap_append, List.filterMap_map, calls]

theorem last_result_kept (log : List Obs) (i inst : Nat) (req : Request) (out : Outcome)
    (quiet : ∀ c ∈ out.calls, c.seq ≠ i) : lastResult (log ++ observed inst req out) i = lastResult log i := by
  have none : out.calls.filter (fun c => c.seq = i) = [] := by simpa using quiet
  have split : resultsOf i (log ++ observed inst req out) = resultsOf i log ++ resultsOf i (observed inst req out) :=
    List.filterMap_append
  rw [lastResult, lastResult, split, results_of_observed, none, List.map_nil, List.append_nil]

-- One call of on_request processes an id once, so its result is the last one.
theorem last_result_called (log : List Obs) (inst : Nat) (req : Request) (out : Outcome) (c : Call)
    (order : (out.calls.map Call.seq).Pairwise (· < ·)) (called : c ∈ out.calls) :
    lastResult (log ++ observed inst req out) c.seq = some c.result := by
  have split : resultsOf c.seq (log ++ observed inst req out) =
      resultsOf c.seq log ++ resultsOf c.seq (observed inst req out) := List.filterMap_append
  have only : ∀ d ∈ out.calls.filter (fun d => d.seq = c.seq), d.result = c.result := by
    intro d member
    obtain ⟨inside, same⟩ := List.mem_filter.mp member
    have distinct : (out.calls.map Call.seq).Nodup := order.imp Nat.ne_of_lt
    rw [List.inj_on_of_nodup_map distinct inside called (by simpa using same)]
  have nonempty : resultsOf c.seq (observed inst req out) ≠ [] := by
    rw [results_of_observed]
    exact List.ne_nil_of_mem (List.mem_map_of_mem (List.mem_filter.mpr ⟨called, by simp⟩))
  obtain ⟨p, last⟩ := Option.isSome_iff_exists.mp (List.getLast?_isSome.mpr nonempty)
  have found := List.mem_of_getLast? last
  rw [results_of_observed] at found
  obtain ⟨d, member, eq⟩ := List.mem_map.mp found
  rw [lastResult, split, List.getLast?_append, last, ← eq, only d member]
  rfl

theorem last_result_deliver (s : Sys) (resp : Response) (i : Nat) :
    lastResult (s.deliver resp).log i = lastResult s.log i := by
  change (resultsOf i (s.log ++ (if (s.client.onResponse resp).1.first then [Obs.received resp] else []) ++
    ((s.client.onResponse resp).1.mismatch.map Obs.mismatch).toList)).getLast? = _
  rw [lastResult]
  congr 1
  cases (s.client.onResponse resp).1.first <;> cases (s.client.onResponse resp).1.mismatch <;>
    simp [resultsOf, List.filterMap_append]

-- The current instance has generated, restored or buffered this payload for the id.
def Known (s : Sys) (i : Nat) (q : Payload) : Prop :=
  (∃ c, Obs.invoked s.inst c ∈ s.log ∧ c.seq = i ∧ c.result = q) ∨
  (∃ b ∈ s.restored.buffer, b.seq = i ∧ b.payload = q) ∨ s.server.respBuffer[i]? = some q

def ResponsesAgree (s : Sys) : Prop :=
  ∀ (i : Nat) (p q : Payload), s.client.receivedPayload[i]? = some p → Known s i q → p = q

-- Crashes restore the latest checkpoint, the client takes the latest answer
-- first, and no request is processed again once the client has an answer to it.
def latestAnswer (s : Sys) (a : Action) : Prop :=
  match a with
  | .crash index _ => index = 0
  | .response index => ∀ sent ∈ s.responses[index]?, sent.2.seq ∉ s.client.received → sent.2.noOp = false →
      lastResult s.log sent.2.seq = some sent.2.payload
  | _ => ∀ p ∈ s.accepting a, ¬ p.1.needsRecover p.2 → ∀ i ∈ s.client.received, ¬ p.1.Due p.2 i

instance (s : Sys) : (a : Action) → Decidable (latestAnswer s a)
  | .crash index _ => inferInstanceAs (Decidable (index = 0))
  | .response index => inferInstanceAs (Decidable (∀ sent ∈ s.responses[index]?, _))
  | .request index app => inferInstanceAs (Decidable (∀ p ∈ s.accepting (.request index app), _))
  | .exchange index app => inferInstanceAs (Decidable (∀ p ∈ s.accepting (.exchange index app), _))
  | .generate _ | .buildReplay _ | .replay _ | .checkpoint _ => isTrue (fun _ found => nomatch found)

-- Rows of a checkpoint that the current server took or came from.
def Settled (s : Sys) (rows : List BufferedResponse) : Prop :=
  ∀ b ∈ rows, lastResult s.log b.seq = some b.payload ∧ b.seq ≤ s.server.committedUpto ∧ b.seq ∉ s.server.awaiting

structure PayloadInv (s : Sys) : Prop where
  delivered : ∀ (i : Nat) (p : Payload), s.client.receivedPayload[i]? = some p →
    i ∈ s.client.received ∧ lastResult s.log i = some p
  generated : ∀ c, Obs.invoked s.inst c ∈ s.log → lastResult s.log c.seq = some c.result
  buffered : ∀ (i : Nat) (p : Payload), s.server.respBuffer[i]? = some p → lastResult s.log i = some p
  restored : Settled s s.restored.buffer
  latest : ∀ cp ∈ s.checkpoints.head?, Settled s cp.buffer

theorem payload_inv_init (clientHash serverHash : Bool) : PayloadInv (Sys.init clientHash serverHash) := by
  refine ⟨?_, ?_, ?_, ?_, ?_⟩ <;> simp [Sys.init, Client.fresh, Server.start, Settled, Server.checkpoint, Walk.ascending]

theorem buffered_settled (reqs : List Request) (sv : Server) (i : Nat) (agrees : Agrees reqs sv) (buffered : i ∈ sv.respBuffer) :
    i ≤ sv.committedUpto ∧ i ∉ sv.awaiting :=
  ⟨(buffered_committed reqs sv i agrees buffered).2, fun owed => (agrees.holds.owed i owed).2.1 buffered⟩

theorem answer_step_payload (s : Sys) (sv : Server) (req : Request) (app : AppFn) (inst : InstanceInv s)
    (inv : PayloadInv s) (allowed : ¬ sv.needsRecover req → ∀ i ∈ s.client.received, ¬ sv.Due req i)
    (replayed : ReplayEffect s.requests s.server sv)
    (effect : RequestEffect s.requests sv req (sv.onRequest app req).1 (sv.onRequest app req).2) :
    PayloadInv (s.answer req (sv.onRequest app req)) := by
  -- What was committed and not owed before the call is not processed by it.
  have quiet : ∀ i, i ≤ sv.committedUpto ∧ i ∉ sv.awaiting →
      lastResult (s.answer req (sv.onRequest app req)).log i = lastResult s.log i := by
    rintro i ⟨within, settled⟩
    apply last_result_kept
    rintro c called rfl
    cases due_fresh sv req c.seq (effect.due c called).2 with
    | inl owed => exact settled owed
    | inr above => omega
  have result : ∀ c ∈ (sv.onRequest app req).2.calls,
      lastResult (s.answer req (sv.onRequest app req)).log c.seq = some c.result :=
    fun c called => last_result_called s.log s.inst req _ c effect.order called
  have rows : ∀ bs, Settled s bs → Settled (s.answer req (sv.onRequest app req)) bs := by
    intro bs settled b member
    obtain ⟨last, within⟩ := settled b member
    have still := replay_keeps_called _ _ _ b.seq replayed within
    exact ⟨(quiet b.seq still).trans last, request_keeps_called _ _ _ req _ b.seq effect still⟩
  refine ⟨?_, ?_, ?_, rows _ inv.restored, fun cp head => rows _ (inv.latest cp head)⟩
  · intro i p found
    obtain ⟨received, last⟩ := inv.delivered i p found
    refine ⟨received, ?_⟩
    rw [← last]
    apply last_result_kept
    rintro c called rfl
    obtain ⟨accepted, due⟩ := effect.due c called
    exact allowed accepted c.seq received due
  · intro c logged
    cases List.mem_append.mp logged with
    | inl old =>
        rw [quiet c.seq (replay_keeps_called _ _ _ c.seq replayed (inst.called c old))]
        exact inv.generated c old
    | inr new => exact result c ((invoked_mem_observed _ _ _ _ _).mp new).2
  · intro i p stored
    rcases effect.buffer i p stored with old | ⟨c, called, seq, eq⟩
    · have member := (Tables.mem_iff_lookup _ _).mpr ⟨p, old⟩
      rw [quiet i (buffered_settled _ sv i replayed.agrees member)]
      exact inv.buffered i p (replayed.buffer i p old)
    · rw [← seq, ← eq]
      exact result c called

theorem deliver_step_payload (s : Sys) (index inst : Nat) (resp : Response) (inv : PayloadInv s)
    (sent : s.responses[index]? = some (inst, resp)) (allowed : latestAnswer s (.response index)) :
    PayloadInv (s.deliver resp) := by
  refine ⟨?_, ?_, ?_, ?_, ?_⟩
  · intro i p found
    rw [last_result_deliver]
    change (s.client.onResponse resp).2.receivedPayload[i]? = some p at found
    change i ∈ (s.client.onResponse resp).2.received ∧ _
    rw [on_response_received]
    by_cases duplicate : resp.seq ∈ s.client.received
    · rw [on_response_duplicate _ _ duplicate] at found
      exact (inv.delivered i p found).imp_left Finset.mem_insert_of_mem
    · have stored : (if resp.noOp then s.client.receivedPayload
          else s.client.receivedPayload.insert resp.seq resp.payload)[i]? = some p := by
        rw [Client.onResponse, if_neg duplicate] at found
        exact found
      cases empty : resp.noOp with
      | true =>
          rw [empty, if_pos rfl] at stored
          exact (inv.delivered i p stored).imp_left Finset.mem_insert_of_mem
      | false =>
          rw [empty, if_neg Bool.false_ne_true] at stored
          rcases Tables.insert_found _ _ _ _ _ stored with ⟨rfl, rfl⟩ | old
          · exact ⟨Finset.mem_insert_self _ _, allowed (inst, resp) sent duplicate empty⟩
          · exact (inv.delivered i p old).imp_left Finset.mem_insert_of_mem
  · intro c logged
    rw [last_result_deliver]
    have old : Obs.invoked s.inst c ∈ s.log := by simpa using (deliver_log s resp (.invoked s.inst c)).mp logged
    exact inv.generated c old
  · intro i p stored
    rw [last_result_deliver]
    exact inv.buffered i p stored
  · intro b member
    rw [last_result_deliver]
    exact inv.restored b member
  · intro cp head b member
    rw [last_result_deliver]
    exact inv.latest cp head b member

theorem payload_step (s s' : Sys) (a : Action) (sys : SysInv s) (inst : InstanceInv s) (inv : PayloadInv s)
    (allowed : latestAnswer s a) (taken : s.step a = some s') : PayloadInv s' := by
  cases step_effect s s' a taken with
  | generated | built => exact ⟨inv.delivered, inv.generated, inv.buffered, inv.restored, inv.latest⟩
  | answered req app rounds member accepting =>
      obtain ⟨replayed, effect⟩ := exchange_effects s req app rounds sys member
      have undelivered : ¬ (s.client.settle req rounds s.server).needsRecover req →
          ∀ i ∈ s.client.received, ¬ (s.client.settle req rounds s.server).Due req i := by
        cases a with
        | request index app' => exact allowed _ accepting
        | exchange index app' => exact allowed _ accepting
        | generate | response | buildReplay | replay | checkpoint | crash => cases accepting
      exact answer_step_payload s _ req app inst inv undelivered replayed effect
  | delivered index g resp kind sent =>
      subst kind
      exact deliver_step_payload s index g resp inv sent allowed
  | ingested _ rp _ sent =>
      have effect := ingest_effect s rp sys sent
      have rows : ∀ bs, Settled s bs → Settled { s with server := s.server.ingestReplay rp } bs :=
        fun bs settled b member => (settled b member).imp_right (replay_keeps_called _ _ _ b.seq effect)
      exact ⟨inv.delivered, inv.generated, fun i p stored => inv.buffered i p (effect.buffer i p stored),
        rows _ inv.restored, fun cp head => rows _ (inv.latest cp head)⟩
  | saved walk =>
      refine ⟨inv.delivered, inv.generated, inv.buffered, inv.restored, ?_⟩
      intro cp head b row
      cases head
      have stored := (checkpoint_row s.server walk b row).1
      exact ⟨inv.buffered _ _ stored,
        buffered_settled _ _ _ sys.server ((Tables.mem_iff_lookup _ _).mpr ⟨_, stored⟩)⟩
  | restored index setHash cp kind found =>
      subst kind
      have first : index = 0 := allowed
      subst first
      have head : cp ∈ s.checkpoints.head? := by rw [List.head?_eq_getElem?]; exact found
      have rows : Settled { s with server := .ofCheckpoint cp setHash, inst := s.inst + 1, restored := cp } cp.buffer := by
        intro b row
        have ok := (sys.checkpoints cp (List.mem_of_getElem? found)).rows b row
        exact ⟨(inv.latest cp head b row).1, ok.1.2, by simp [Server.ofCheckpoint]⟩
      refine ⟨inv.delivered, ?_, ?_, rows, fun old taken => Option.mem_unique head taken ▸ rows⟩
      · intro c logged
        have bound := inst.calledBy _ c logged
        exact absurd bound (by simp only; omega)
      · intro i p stored
        obtain ⟨b, row, seq, payload⟩ :=
          Tables.lookup_insert_all_some BufferedResponse.seq BufferedResponse.payload cp.buffer i p stored
        rw [← seq, ← payload]
        exact (inv.latest cp head b row).1

-- Under these conditions every answer the current instance has is the latest one
-- there is, and so is every answer the client was given.
theorem latest_answers_agree (clientHash serverHash : Bool) (s : Sys)
    (run : Reachable latestAnswer clientHash serverHash s) : ResponsesAgree s := by
  have inv : PayloadInv s := run.invariant_with (fun s => SysInv s ∧ InstanceInv s) PayloadInv
    (fun s before => ⟨reachable_sys_inv _ _ _ s before, reachable_instance _ _ _ s before⟩)
    (payload_inv_init clientHash serverHash)
    (fun s a s' known inv allowed taken => payload_step s s' a known.1 known.2 inv allowed taken)
  intro i p q found known
  have last := (inv.delivered i p found).2
  rcases known with ⟨c, logged, rfl, rfl⟩ | ⟨b, row, rfl, rfl⟩ | stored
  · exact Option.some.inj (last.symm.trans (inv.generated c logged))
  · exact Option.some.inj (last.symm.trans (inv.restored b row).1)
  · exact Option.some.inj (last.symm.trans (inv.buffered i q stored))

-- The second instance restores the answer to 1 and processes 2 for the first time.
def agreedRun : List Action :=
  [.generate [1], .exchange 0 (fun _ _ _ => [11]), .checkpoint .ascending, .crash 0 true, .generate [2], .exchange 1 (fun _ _ _ => [12]),
    .exchange 0 (fun _ _ _ => [13]), .response 0, .response 1]

theorem latest_answers_agree_restored :
    (Sys.after latestAnswer true true agreedRun).client.received = {1, 2} ∧
      ResponsesAgree (Sys.after latestAnswer true true agreedRun) :=
  ⟨by decide +kernel, latest_answers_agree true true _ (reachable_after latestAnswer true true agreedRun)⟩

-- The client has the first instance's answer; a late copy of the request makes
-- the second instance process it again, with another result.
def disagreedRun : List Action :=
  [.generate [1], .exchange 0 (fun _ _ _ => [11]), .response 0, .crash 0 true, .exchange 0 (fun _ _ _ => [21])]

theorem answers_disagree_after_crash :
    ¬ ∀ (clientHash serverHash : Bool) (s : Sys), Reachable harnessAction clientHash serverHash s → ResponsesAgree s := by
  intro agree
  have same := agree true true _ (reachable_after harnessAction true true disagreedRun) 1 [11] [21]
    (by decide +kernel) (Or.inr (Or.inr (by decide +kernel)))
  revert same
  decide

end Color
