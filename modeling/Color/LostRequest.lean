import Color.TotalOrder

set_option autoImplicit false

namespace Color

def Produced (log : List Obs) (seq : Nat) (payload : Payload) : Prop :=
  ∃ inst c, Obs.invoked inst c ∈ log ∧ c.seq = seq ∧ c.result = payload

theorem produced_mono (log more : List Obs) (seq : Nat) (payload : Payload) (produced : Produced log seq payload) :
    Produced (log ++ more) seq payload := by
  obtain ⟨inst, c, member, facts⟩ := produced
  exact ⟨inst, c, List.mem_append_left _ member, facts⟩

-- Every answer the client has accepted carries an application result, and a
-- no-op is only ever sent for a request that has been answered.
structure NothingLost (s : Sys) : Prop where
  logged : ∀ i ∈ s.client.received, ∃ resp, Obs.received resp ∈ s.log ∧ resp.seq = i
  receipts : ∀ resp, Obs.received resp ∈ s.log → resp.noOp = false ∧ Produced s.log resp.seq resp.payload
  noOps : ∀ inst resp, (inst, resp) ∈ s.responses → resp.recover = false → resp.noOp = true →
    resp.seq ∈ s.client.received

-- What a crash may forget: an id the checkpoint counts as committed, but keeps
-- no response for, has been answered. checkpoint() does not save awaiting_.
def coveredCrash (s : Sys) : Action → Prop
  | .crash index _ => ∀ cp ∈ s.checkpoints[index]?,
      ∀ i ∈ Finset.Icc 1 cp.committedUpto, (∀ b ∈ cp.buffer, b.seq ≠ i) → i ∈ s.client.received
  | _ => True

instance (s : Sys) : (a : Action) → Decidable (coveredCrash s a)
  | .crash _ _ => inferInstanceAs (Decidable (∀ cp ∈ _, _))
  | .generate _ | .request _ _ | .exchange _ _ | .response _ | .buildReplay _ | .replay _ | .checkpoint _ => isTrue trivial

-- Each committed id is buffered, owed, or answered already.
def Covered (received : Finset Nat) (sv : Server) : Prop :=
  ∀ i, 1 ≤ i → i ≤ sv.committedUpto → i ∈ sv.respBuffer ∨ i ∈ sv.awaiting ∨ i ∈ received

structure AnswerInv (s : Sys) : Prop where
  lost : NothingLost s
  covered : Covered s.client.received s.server
  buffered : ∀ (i : Nat) (p : Payload), s.server.respBuffer[i]? = some p → Produced s.log i p
  saved : ∀ cp ∈ s.checkpoints, ∀ b ∈ cp.buffer, Produced s.log b.seq b.payload
  plain : ∀ inst resp, (inst, resp) ∈ s.responses → resp.recover = false → resp.noOp = false →
    Produced s.log resp.seq resp.payload

theorem answer_inv_init (clientHash serverHash : Bool) : AnswerInv (Sys.init clientHash serverHash) := by
  refine ⟨⟨?_, ?_, ?_⟩, ?_, ?_, ?_, ?_⟩
  · simp [Sys.init, Client.fresh]
  · simp [Sys.init]
  · simp [Sys.init]
  · intro i low high
    exact absurd high (by simp only [Sys.init, Server.start]; omega)
  · simp [Sys.init, Server.start]
  · simp [Sys.init, Server.start, Server.checkpoint, Walk.ascending]
  · simp [Sys.init]

theorem answered_by_received (s : Sys) (inv : SysInv s) (k i : Nat) (answered : AnsweredBy s.requests k i) :
    i ∈ s.client.received := by
  obtain ⟨r, early, listed⟩ := (response_mem_canonical _ i).mp answered
  exact inv.client.known i (List.mem_append_left _ (List.mem_flatMap.mpr ⟨r, List.mem_of_mem_take early, listed⟩))

theorem covered_replay (s : Sys) (sv : Server) (inv : SysInv s) (covered : Covered s.client.received s.server)
    (effect : ReplayEffect s.requests s.server sv) : Covered s.client.received sv := by
  intro i low high
  have answered := answered_by_received s inv sv.committedUpto i
  by_cases old : i ≤ s.server.committedUpto
  · rcases covered i low old with buffered | owed | received
    · exact (effect.kept i buffered).imp_right (fun event => Or.inr (answered event))
    · exact Or.inr ((effect.cleared i (Or.inl owed)).imp_right answered)
    · exact Or.inr (Or.inr received)
  · exact Or.inr ((effect.cleared i (Or.inr ⟨by omega, high⟩)).imp_right answered)

theorem covered_request (s : Sys) (sv next : Server) (req : Request) (out : Outcome) (inv : SysInv s)
    (member : req ∈ s.requests) (covered : Covered s.client.received sv)
    (effect : RequestEffect s.requests sv req next out) : Covered s.client.received next := by
  intro i low high
  have source : (i ∈ sv.respBuffer ∨ i ∈ sv.awaiting ∨ sv.committedUpto < i ∧ i ≤ next.committedUpto) ∨
      i ∈ s.client.received := by
    by_cases old : i ≤ sv.committedUpto
    · rcases covered i low old with buffered | owed | received
      · exact Or.inl (Or.inl buffered)
      · exact Or.inl (Or.inr (Or.inl owed))
      · exact Or.inr received
    · exact Or.inl (Or.inr (Or.inr ⟨by omega, high⟩))
  cases source with
  | inl known =>
      refine (effect.kept i known).imp_right (Or.imp_right (fun acked => ?_))
      exact acknowledged_received _ _ inv.client req member i low acked.2
  | inr received => exact Or.inr (Or.inr received)

theorem answer_step_answered (s : Sys) (sv : Server) (req : Request) (app : AppFn) (sys : SysInv s) (inv : AnswerInv s)
    (member : req ∈ s.requests) (replayed : ReplayEffect s.requests s.server sv)
    (effect : RequestEffect s.requests sv req (sv.onRequest app req).1 (sv.onRequest app req).2) :
    AnswerInv (s.answer req (sv.onRequest app req)) := by
  have covered := covered_replay s sv sys inv.covered replayed
  have older : ∀ seq payload, Produced s.log seq payload → Produced (s.answer req (sv.onRequest app req)).log seq payload :=
    fun seq payload => produced_mono s.log _ seq payload
  have called : ∀ c ∈ (sv.onRequest app req).2.calls, Produced (s.answer req (sv.onRequest app req)).log c.seq c.result :=
    fun c inside => ⟨s.inst, c, List.mem_append_right _ (by simp [inside]), rfl, rfl⟩
  have buffered : ∀ (i : Nat) (p : Payload), sv.respBuffer[i]? = some p →
      Produced (s.answer req (sv.onRequest app req)).log i p :=
    fun i p found => older i p (inv.buffered i p (replayed.buffer i p found))
  refine ⟨⟨?_, ?_, ?_⟩, covered_request s sv _ req _ sys member covered effect, ?_, ?_, ?_⟩
  · intro i received
    obtain ⟨resp, logged, seq⟩ := inv.lost.logged i received
    exact ⟨resp, List.mem_append_left _ logged, seq⟩
  · intro resp logged
    cases List.mem_append.mp logged with
    | inl old => exact (inv.lost.receipts resp old).imp_right (older _ _)
    | inr new => exact absurd new (received_mem_observed _ _ _ _)
  · intro inst resp inside normal empty
    rcases (answer_sent s req _ inst resp).mp inside with old | ⟨_, emitted⟩
    · exact inv.lost.noOps inst resp old normal empty
    · obtain ⟨seq, within, settled, missing⟩ := effect.noOps resp emitted normal empty
      have positive := (numbered_seq_index _ req sys.client.numbered member).2.1
      rcases covered resp.seq (by omega) within with inBuffer | owed | received
      · exact absurd inBuffer missing
      · exact absurd owed settled
      · exact received
  · intro i p stored
    rcases effect.buffer i p stored with old | ⟨c, inside, seq, result⟩
    · exact buffered i p old
    · exact seq ▸ result ▸ called c inside
  · exact fun cp taken b row => older _ _ (inv.saved cp taken b row)
  · intro inst resp inside normal plain
    rcases (answer_sent s req _ inst resp).mp inside with old | ⟨_, emitted⟩
    · exact older _ _ (inv.plain inst resp old normal plain)
    · rcases effect.answers resp emitted normal plain with stored | ⟨c, callInside, seq, result⟩
      · exact buffered _ _ stored
      · exact seq ▸ result ▸ called c callInside

theorem answer_step_delivered (s : Sys) (inst : Nat) (resp : Response) (inv : AnswerInv s)
    (sent : (inst, resp) ∈ s.responses) (normal : resp.recover = false) : AnswerInv (s.deliver resp) := by
  have received : (s.deliver resp).client.received = insert resp.seq s.client.received := on_response_received s.client resp
  have older : ∀ seq payload, Produced s.log seq payload → Produced (s.deliver resp).log seq payload := by
    rintro seq payload ⟨g, c, member, facts⟩
    exact ⟨g, c, (deliver_log s resp _).mpr (Or.inl member), facts⟩
  refine ⟨⟨?_, ?_, ?_⟩, ?_, ?_, ?_, ?_⟩
  · intro i member
    rw [received] at member
    by_cases known : i ∈ s.client.received
    · obtain ⟨first, logged, seq⟩ := inv.lost.logged i known
      exact ⟨first, (deliver_log s resp _).mpr (Or.inl logged), seq⟩
    · have here : i = resp.seq := (Finset.mem_insert.mp member).resolve_right known
      exact ⟨resp, (deliver_log s resp _).mpr (Or.inr (Or.inl ⟨here ▸ known, rfl⟩)), here.symm⟩
  · intro first logged
    rcases (deliver_log s resp _).mp logged with old | ⟨unknown, eq⟩ | ⟨_, _, eq⟩
    · exact (inv.lost.receipts first old).imp_right (older _ _)
    · cases eq
      have plain : resp.noOp = false := by
        by_contra empty
        exact unknown (inv.lost.noOps inst resp sent normal (by simpa using empty))
      exact ⟨plain, older _ _ (inv.plain inst resp sent normal plain)⟩
    · cases eq
  · intro g other inside ok empty
    rw [received]
    exact Finset.mem_insert_of_mem (inv.lost.noOps g other inside ok empty)
  · intro i low high
    rw [received]
    exact (inv.covered i low high).imp_right (Or.imp_right Finset.mem_insert_of_mem)
  · exact fun i p found => older i p (inv.buffered i p found)
  · exact fun cp taken b row => older _ _ (inv.saved cp taken b row)
  · exact fun g other inside ok plain => older _ _ (inv.plain g other inside ok plain)

theorem answer_step (s s' : Sys) (a : Action) (sys : SysInv s) (inv : AnswerInv s) (allowed : coveredCrash s a)
    (taken : s.step a = some s') : AnswerInv s' := by
  cases step_effect s s' a taken with
  | generated | built => exact ⟨⟨inv.lost.logged, inv.lost.receipts, inv.lost.noOps⟩, inv.covered, inv.buffered, inv.saved, inv.plain⟩
  | answered req app rounds member =>
      obtain ⟨replayed, effect⟩ := exchange_effects s req app rounds sys member
      exact answer_step_answered s _ req app sys inv member replayed effect
  | delivered _ inst resp _ sent normal => exact answer_step_delivered s inst resp inv (List.mem_of_getElem? sent) normal
  | ingested _ rp _ sent =>
      have effect := ingest_effect s rp sys sent
      exact ⟨⟨inv.lost.logged, inv.lost.receipts, inv.lost.noOps⟩, covered_replay s _ sys inv.covered effect,
        fun i p found => inv.buffered i p (effect.buffer i p found), inv.saved, inv.plain⟩
  | saved walk =>
      refine ⟨⟨inv.lost.logged, inv.lost.receipts, inv.lost.noOps⟩, inv.covered, inv.buffered, ?_, inv.plain⟩
      intro cp member b row
      cases List.mem_cons.mp member with
      | inl new =>
          rw [new] at row
          exact inv.buffered _ _ (checkpoint_row s.server walk b row).1
      | inr old => exact inv.saved cp old b row
  | restored index setHash cp kind found =>
      subst kind
      refine ⟨⟨inv.lost.logged, inv.lost.receipts, inv.lost.noOps⟩, ?_, ?_, inv.saved, inv.plain⟩
      · intro i low high
        by_cases kept : ∃ b ∈ cp.buffer, b.seq = i
        · exact Or.inl ((Tables.mem_insert_all BufferedResponse.seq BufferedResponse.payload cp.buffer i).mpr kept)
        · exact Or.inr (Or.inr (allowed cp found i (Finset.mem_Icc.mpr ⟨low, high⟩) (by simpa using kept)))
      · intro i p stored
        obtain ⟨b, row, seq, payload⟩ :=
          Tables.lookup_insert_all_some BufferedResponse.seq BufferedResponse.payload cp.buffer i p stored
        exact seq ▸ payload ▸ inv.saved cp (List.mem_of_getElem? found) b row

theorem reachable_answers (clientHash serverHash : Bool) (s : Sys) (run : Reachable coveredCrash clientHash serverHash s) :
    AnswerInv s :=
  run.invariant_with SysInv AnswerInv (reachable_sys_inv coveredCrash clientHash serverHash)
    (answer_inv_init clientHash serverHash) (fun s a s' sys inv allowed taken => answer_step s s' a sys inv allowed taken)

-- With every crash covered, no request is lost: whatever is dropped, repeated
-- or reordered, and wherever replays and checkpoints fall.
theorem covered_crashes_lose_nothing (clientHash serverHash : Bool) (s : Sys)
    (run : Reachable coveredCrash clientHash serverHash s) : NothingLost s :=
  (reachable_answers clientHash serverHash s run).lost

-- The checkpoint keeps the response to request 1, the only one the client may lack.
def coveredRun : List Action :=
  [.generate [1], .exchange 0 (fun _ _ _ => [11]), .checkpoint .ascending, .crash 0 true, .exchange 0 (fun _ _ _ => [12]), .response 1]

theorem covered_crashes_lose_nothing_covered :
    (Sys.after coveredCrash true true coveredRun).client.received = {1} ∧
      NothingLost (Sys.after coveredCrash true true coveredRun) :=
  ⟨by decide +kernel, covered_crashes_lose_nothing true true _ (reachable_after coveredCrash true true coveredRun)⟩

-- Two crashes, the second right after a checkpoint taken while request 2 was
-- still owed an answer: the third instance believes it was answered.
def forgottenRun : List Action :=
  [.generate [1], .generate [2], .exchange 0 (fun _ _ _ => [11]), .response 0, .generate [3], .crash 0 true,
    .exchange 2 (fun _ _ _ => [13]), .checkpoint .ascending, .crash 0 true, .exchange 1 (fun _ _ _ => [12]), .response 2]

theorem request_lost_after_two_crashes :
    ¬ ∀ (clientHash serverHash : Bool) (s : Sys), Reachable harnessAction clientHash serverHash s → NothingLost s := by
  intro safe
  have lost := safe true true (Sys.after harnessAction true true forgottenRun)
    (reachable_after harnessAction true true forgottenRun)
  have empty : ∃ o ∈ (Sys.after harnessAction true true forgottenRun).log,
      (match o with | .received resp => resp.noOp | _ => false) = true := by decide +kernel
  obtain ⟨o, logged, noOp⟩ := empty
  cases o with
  | received resp => exact absurd noOp (by simp [(lost.receipts resp logged).1])
  | accepted | invoked | mismatch => cases noOp

end Color
