import Color.System

set_option autoImplicit false

namespace Color

-- ---- a run with its hash fields left out ----
-- Left out: the set_hash options, the optional hashes of messages and the
-- mismatch callbacks. Both histories keep their running hash.

def Request.unhashed (r : Request) : Request := { r with hash := none }

def Response.unhashed (resp : Response) : Response := { resp with hash := none }

def Client.unhashed (c : Client) : Client :=
  { c with setHash := false, inflight := c.inflight.map (fun _ r => r.unhashed) }

def Server.unhashed (sv : Server) : Server :=
  { sv with setHash := false, pendingReqs := sv.pendingReqs.map (fun _ r => r.unhashed) }

def Outcome.unhashed (out : Outcome) : Outcome :=
  { responses := out.responses.map Response.unhashed, calls := out.calls }

def Obs.unhashed : Obs → Option Obs
  | .accepted inst req => some (.accepted inst req.unhashed)
  | .invoked inst call => some (.invoked inst call)
  | .received resp => some (.received resp.unhashed)
  | .mismatch _ => none

def Sys.unhashed (s : Sys) : Sys :=
  { s with
    client := s.client.unhashed
    server := s.server.unhashed
    requests := s.requests.map Request.unhashed
    responses := s.responses.map (fun sent => (sent.1, sent.2.unhashed))
    log := s.log.filterMap Obs.unhashed }

def Action.unhashed : Action → Action
  | .crash index _ => .crash index false
  | action => action

theorem generate_request_unhashed (c : Client) (p : Payload) :
    c.unhashed.generateRequest p = ((c.generateRequest p).1.unhashed, (c.generateRequest p).2.unhashed) := by
  simp [Client.generateRequest, Client.unhashed, Request.unhashed, Tables.map_insert]

theorem on_response_unhashed (c : Client) (resp : Response) :
    (c.onResponse resp).2.unhashed = (c.unhashed.onResponse resp.unhashed).2 ∧
      (c.onResponse resp).1.first = (c.unhashed.onResponse resp.unhashed).1.first ∧
      (c.unhashed.onResponse resp.unhashed).1.mismatch = none := by
  have known : resp.unhashed.seq ∈ c.unhashed.received ↔ resp.seq ∈ c.received := Iff.rfl
  by_cases duplicate : resp.seq ∈ c.received
  · rw [on_response_duplicate c resp duplicate, on_response_duplicate _ _ (known.mpr duplicate)]
    exact ⟨rfl, rfl, rfl⟩
  · rw [Client.onResponse, if_neg duplicate, Client.onResponse, if_neg (fun member => duplicate (known.mp member))]
    refine ⟨?_, rfl, rfl⟩
    simp only [Client.unhashed, Tables.map_erase]
    rfl

theorem outcome_unhashed_append (a b : Outcome) : (a ++ b).unhashed = a.unhashed ++ b.unhashed := by
  apply Outcome.ext
  · exact List.map_append
  · rfl
  · rfl

theorem process_unhashed (app : AppFn) (sv : Server) (req : Request) :
    sv.unhashed.process app req.unhashed = ((sv.process app req).1.unhashed, (sv.process app req).2.unhashed) := rfl

theorem commit_unhashed (app : AppFn) (sv : Server) (r : Request) :
    sv.unhashed.commit app r.unhashed = ((sv.commit app r).1.unhashed, (sv.commit app r).2.unhashed) := by
  simp [Server.commit, Server.unhashed, Server.countCall, Request.unhashed, Outcome.unhashed, Server.makeResponse,
    Response.unhashed, Tables.map_erase]

theorem drain_unhashed (app : AppFn) (fuel : Nat) (sv : Server) :
    sv.unhashed.drain app fuel = ((sv.drain app fuel).1.unhashed, (sv.drain app fuel).2.unhashed) := by
  induction fuel generalizing sv with
  | zero => rfl
  | succ fuel ih =>
      have parked : sv.unhashed.pendingReqs[sv.unhashed.committedUpto + 1]? =
          sv.pendingReqs[sv.committedUpto + 1]?.map Request.unhashed := Std.ExtTreeMap.getElem?_map
      rw [Server.drain, Server.drain, parked]
      cases sv.pendingReqs[sv.committedUpto + 1]? with
      | none => rfl
      | some r =>
          simp only [Option.map_some, commit_unhashed, ih, outcome_unhashed_append]

theorem stage_and_advance_unhashed (app : AppFn) (sv : Server) (req : Request) :
    sv.unhashed.stageAndAdvance app req.unhashed =
      ((sv.stageAndAdvance app req).1.unhashed, (sv.stageAndAdvance app req).2.unhashed) := by
  have staged : sv.unhashed.stage req.unhashed = (sv.stage req).unhashed := by
    simp [Server.stage, Server.unhashed, Tables.map_insert, Request.unhashed]
  have size : (sv.stage req).unhashed.pendingReqs.size = (sv.stage req).pendingReqs.size := Std.ExtTreeMap.size_map
  rw [Server.stageAndAdvance, staged, size]
  exact drain_unhashed app _ _

theorem answer_committed_unhashed (app : AppFn) (sv : Server) (req : Request) :
    sv.unhashed.answerCommitted app req.unhashed =
      ((sv.answerCommitted app req).1.unhashed, (sv.answerCommitted app req).2.unhashed) := by
  have buffered : sv.unhashed.respBuffer[req.unhashed.seq]? = sv.respBuffer[req.seq]? := rfl
  have owed : req.unhashed.seq ∈ sv.unhashed.awaiting ↔ req.seq ∈ sv.awaiting := Iff.rfl
  rw [Server.answerCommitted, Server.answerCommitted, buffered]
  cases sv.respBuffer[req.seq]? with
  | some payload => rfl
  | none =>
      by_cases late : req.seq ∈ sv.awaiting
      · simp only [owed, late, if_true, process_unhashed]
      · simp only [owed, late, if_false]
        rfl

theorem track_bounds_unhashed (sv : Server) : sv.trackBounds.unhashed = sv.unhashed.trackBounds := by
  simp [Server.trackBounds, Server.unhashed]

theorem on_request_unhashed (app : AppFn) (sv : Server) (req : Request) :
    sv.unhashed.onRequest app req.unhashed = ((sv.onRequest app req).1.unhashed, (sv.onRequest app req).2.unhashed) := by
  have recover : sv.unhashed.needsRecover req.unhashed ↔ sv.needsRecover req := Iff.rfl
  have released : sv.unhashed.releaseAcked req.unhashed = (sv.releaseAcked req).unhashed := rfl
  have known : req.unhashed.seq ≤ (sv.releaseAcked req).unhashed.committedUpto ↔
      req.seq ≤ (sv.releaseAcked req).committedUpto := Iff.rfl
  rw [Server.onRequest, Server.onRequest]
  simp only [recover, released, known]
  by_cases refused : sv.needsRecover req
  · simp only [refused, if_true]
    rfl
  · by_cases committed : req.seq ≤ (sv.releaseAcked req).committedUpto
    · simp only [refused, committed, if_true, if_false, answer_committed_unhashed, track_bounds_unhashed]
    · simp only [refused, committed, if_false, stage_and_advance_unhashed, track_bounds_unhashed]

theorem ingest_event_unhashed (sv : Server) (e : ReplayEvent) :
    (sv.ingestEvent e).unhashed = sv.unhashed.ingestEvent e := by
  cases kind : e.isResponse <;> simp [Server.ingestEvent, Server.unhashed, kind]

theorem ingest_replay_unhashed (sv : Server) (rp : Replay) :
    (sv.ingestReplay rp).unhashed = sv.unhashed.ingestReplay rp := by
  have fold : ∀ (events : List ReplayEvent) (sv : Server),
      (events.foldl Server.ingestEvent sv).unhashed = events.foldl Server.ingestEvent sv.unhashed := by
    intro events
    induction events with
    | nil => exact fun sv => rfl
    | cons e rest ih =>
        intro sv
        rw [List.foldl_cons, ih, ingest_event_unhashed]
        rfl
  exact fold _ sv

theorem settle_unhashed (client : Client) (req : Request) (rounds : Nat) (sv : Server) :
    (client.settle req rounds sv).unhashed = client.unhashed.settle req.unhashed rounds sv.unhashed := by
  induction rounds generalizing sv with
  | zero => rfl
  | succ rounds ih =>
      have recover : sv.unhashed.needsRecover req.unhashed ↔ sv.needsRecover req := Iff.rfl
      rw [Client.settle, Client.settle]
      by_cases refused : sv.needsRecover req
      · simp only [recover, refused, if_true, ih, ingest_replay_unhashed]
        rfl
      · simp only [recover, refused, if_false]

theorem harness_exchange_unhashed (client : Client) (app : AppFn) (req : Request) (sv : Server) :
    harnessExchange client.unhashed app req.unhashed sv.unhashed =
      ((harnessExchange client app req sv).1.unhashed, (harnessExchange client app req sv).2.unhashed) := by
  rw [harness_exchange_settle, harness_exchange_settle, ← settle_unhashed]
  exact on_request_unhashed app _ req

theorem observed_unhashed (inst : Nat) (req : Request) (out : Outcome) :
    (observed inst req out).filterMap Obs.unhashed = observed inst req.unhashed out.unhashed := by
  have refused : out.unhashed.responses.any Response.recover = out.responses.any Response.recover := by
    simp [Outcome.unhashed, Response.unhashed, List.any_map, Function.comp_def]
  have calls : (out.calls.map (Obs.invoked inst)).filterMap Obs.unhashed = out.calls.map (Obs.invoked inst) := by
    simp [List.filterMap_map, Function.comp_def, Obs.unhashed]
  have silent : (out.mismatches.map Obs.mismatch).filterMap Obs.unhashed = [] := by
    simp [List.filterMap_map, Obs.unhashed]
  rw [observed, observed, refused, List.filterMap_append, List.filterMap_append, calls, silent]
  cases out.responses.any Response.recover <;> simp [Obs.unhashed, Outcome.unhashed]

theorem answer_unhashed (s : Sys) (req : Request) (result : Server × Outcome) :
    (s.answer req result).unhashed = s.unhashed.answer req.unhashed (result.1.unhashed, result.2.unhashed) := by
  simp only [Sys.answer, Sys.unhashed, List.filterMap_append, observed_unhashed, List.map_append, List.map_map]
  simp [Outcome.unhashed, Function.comp_def]

theorem deliver_unhashed (s : Sys) (resp : Response) : (s.deliver resp).unhashed = s.unhashed.deliver resp.unhashed := by
  obtain ⟨client, first, silent⟩ := on_response_unhashed s.client resp
  have dropped : ∀ mismatch : Option Mismatch, (mismatch.map Obs.mismatch).toList.filterMap Obs.unhashed = [] := by
    intro mismatch
    cases mismatch <;> simp [Obs.unhashed]
  have received : ∀ first : Bool, (if first then [Obs.received resp] else []).filterMap Obs.unhashed =
      if first then [Obs.received resp.unhashed] else [] := by
    intro first
    cases first <;> simp [Obs.unhashed]
  simp only [Sys.deliver, Sys.unhashed, List.filterMap_append, dropped, received, client, first, silent]
  rfl

-- Either way of handing a stored request to the server.
theorem answer_at_unhashed (s : Sys) (index : Nat) (full bare : Request → Server × Outcome)
    (same : ∀ req, bare req.unhashed = ((full req).1.unhashed, (full req).2.unhashed)) :
    (s.requests[index]?.map (fun req => s.answer req (full req))).map Sys.unhashed =
      s.unhashed.requests[index]?.map (fun req => s.unhashed.answer req (bare req)) := by
  have sent : s.unhashed.requests[index]? = s.requests[index]?.map Request.unhashed := List.getElem?_map
  rw [sent]
  cases s.requests[index]? with
  | none => rfl
  | some req => simp only [Option.map_some, answer_unhashed, same]

theorem sent_response_unhashed (s : Sys) (index : Nat) :
    s.unhashed.responses[index]? = s.responses[index]?.map (fun sent => (sent.1, sent.2.unhashed)) :=
  List.getElem?_map

theorem step_unhashed (s : Sys) (a : Action) : (s.step a).map Sys.unhashed = s.unhashed.step a.unhashed := by
  cases a with
  | generate p =>
      simp only [Sys.step, Action.unhashed, Option.map_some, Sys.unhashed, generate_request_unhashed, List.map_append]
      rfl
  | request index app => exact answer_at_unhashed s index _ _ (fun req => on_request_unhashed app s.server req)
  | exchange index app => exact answer_at_unhashed s index _ _ (fun req => harness_exchange_unhashed s.client app req s.server)
  | response index =>
      simp only [Sys.step, Action.unhashed, sent_response_unhashed]
      cases s.responses[index]? with
      | none => rfl
      | some row =>
          have same : row.2.unhashed.recover = row.2.recover := rfl
          simp only [Option.map_some, Option.bind_some, same]
          cases row.2.recover with
          | true => rfl
          | false => exact congrArg some (deliver_unhashed s row.2)
  | buildReplay index =>
      simp only [Sys.step, Action.unhashed, sent_response_unhashed]
      cases s.responses[index]? with
      | none => rfl
      | some row =>
          have same : row.2.unhashed.recover = row.2.recover := rfl
          simp only [Option.map_some, Option.bind_some, same]
          cases row.2.recover <;> rfl
  | replay index =>
      have sent : s.unhashed.replays[index]? = s.replays[index]? := rfl
      have inst : s.unhashed.inst = s.inst := rfl
      simp only [Sys.step, Action.unhashed, sent, inst]
      cases s.replays[index]? with
      | none => rfl
      | some row =>
          simp only [Option.bind_some]
          by_cases current : row.1 = s.inst
          · simp only [current, if_true, Option.map_some, Sys.unhashed, ingest_replay_unhashed]
          · simp only [current, if_false, Option.map_none]
  | checkpoint walk => rfl
  | crash index setHash =>
      have saved : s.unhashed.checkpoints[index]? = s.checkpoints[index]? := rfl
      simp only [Sys.step, Action.unhashed, saved]
      cases s.checkpoints[index]? with
      | none => rfl
      | some cp =>
          simp [Sys.unhashed, Server.unhashed, Server.ofCheckpoint]

theorem init_unhashed (clientHash serverHash : Bool) :
    (Sys.init clientHash serverHash).unhashed = Sys.init false false := by
  have empty : (∅ : SeqMap Request).map (fun _ r => r.unhashed) = ∅ := rfl
  have saved : ({ setHash := serverHash } : Server).checkpoint .ascending = ({ setHash := false } : Server).checkpoint .ascending := rfl
  simp only [Sys.unhashed, Sys.init, Client.unhashed, Client.fresh, Server.unhashed, Server.start, empty, saved,
    List.map_nil, List.filterMap_nil]

theorem run_unhashed (clientHash serverHash : Bool) (actions : List Action) :
    (actions.foldlM Sys.step (Sys.init clientHash serverHash)).map Sys.unhashed =
      (actions.map Action.unhashed).foldlM Sys.step (Sys.init false false) := by
  rw [Transition.run_project Sys.step Sys.step Sys.unhashed Action.unhashed step_unhashed, init_unhashed]

-- Two runs of one schedule, with any choices of set_hash at either side and
-- for each restored instance, differ after no step in anything but hash fields.
theorem hash_option_irrelevant (clientHash serverHash clientHash' serverHash' : Bool) (first second : List Action)
    (schedule : first.map Action.unhashed = second.map Action.unhashed) (steps : Nat) :
    ((first.take steps).foldlM Sys.step (Sys.init clientHash serverHash)).map Sys.unhashed =
      ((second.take steps).foldlM Sys.step (Sys.init clientHash' serverHash')).map Sys.unhashed := by
  rw [run_unhashed, run_unhashed, List.map_take, List.map_take, schedule]

-- A crash that restores the server with hashes in one run and without in the other.
theorem hash_option_irrelevant_crash :
    ([Action.generate [], .crash 0 true, .request 0 (fun _ p _ => p)].foldlM Sys.step (Sys.init true true)).map Sys.unhashed =
      ([Action.generate [], .crash 0 false, .request 0 (fun _ p _ => p)].foldlM Sys.step (Sys.init true false)).map
        Sys.unhashed :=
  hash_option_irrelevant true true true false [.generate [], .crash 0 true, .request 0 (fun _ p _ => p)]
    [.generate [], .crash 0 false, .request 0 (fun _ p _ => p)] rfl 3

end Color
