import Color.Deployment
import Color.JsonRoundTrip
import Color.PlainHttp
import Color.ReplaySize

set_option autoImplicit false

namespace Color

-- ---- numbers that fit ----

theorem acks_bound (reqs : List Request) (c : Client) (inv : ClientInv reqs c) (issued : ClientIssued reqs c) :
    (acks reqs).length ≤ reqs.length := by
  have distinct : (acks reqs).Nodup := (List.nodup_append.mp inv.acked).1
  have inside : (acks reqs).toFinset ⊆ Finset.Icc 1 reqs.length := by
    intro i member
    obtain ⟨r, known, listed⟩ := List.mem_flatMap.mp (List.mem_toFinset.mp member)
    have below := issued.below r known i (Or.inr listed)
    have within := (numbered_seq_index reqs r inv.numbered known).2.2
    exact Finset.mem_Icc.mpr ⟨issued.positive r known i listed, by omega⟩
  have counted := Finset.card_le_card inside
  rw [List.toFinset_card_of_nodup distinct, Nat.card_Icc] at counted
  omega

theorem position_bound (s : Sys) (sys : SysInv s) (k : Nat) :
    (canonical (s.requests.take k)).length ≤ 2 * (s.client.nextSeq - 1) := by
  have next := sys.client.next
  have listed := acks_bound s.requests s.client sys.client sys.issued
  have part := (canonical_append (s.requests.take k) (s.requests.drop k)).symm
  rw [List.take_append_drop] at part
  have whole := congrArg List.length part
  rw [List.length_append, canonical_length s.requests] at whole
  omega

theorem event_count_bound (s : Sys) (sys : SysInv s) : s.server.history.eventCount ≤ 2 * (s.client.nextSeq - 1) := by
  rw [sys.server.holds.count]
  exact position_bound s sys _

theorem issued_fits (s : Sys) (sys : SysInv s) (few : s.client.nextSeq ≤ 2 ^ 63) (r : Request) (issued : r ∈ s.requests) :
    r.Fits := by
  have next := sys.client.next
  have seq := (numbered_seq_index s.requests r sys.client.numbered issued).2.2
  have below := sys.issued.below r issued
  refine ⟨by omega, ?_, fun i listed => ?_⟩
  · have base := sys.client.ackBase r issued
    have last := below (r.ackBase - 1) (Or.inl (by omega))
    omega
  · have early := below i (Or.inr listed)
    omega

theorem checkpoint_fits (s : Sys) (walk : Walk) (sys : SysInv s) (few : s.client.nextSeq ≤ 2 ^ 63) :
    (s.server.checkpoint walk).Fits := by
  have next := sys.client.next
  have ok := checkpoint_ok s.requests s.server walk sys.server
  have bound := ok.bound
  have count := event_count_bound s sys
  refine ⟨by omega, ?_, fun b member => ?_⟩
  · change s.server.history.eventCount < 2 ^ 64
    omega
  · have row := (ok.rows b member).1
    omega

theorem replay_fits (s : Sys) (sys : SysInv s) (few : s.client.nextSeq ≤ 2 ^ 63) (fromIndex : Nat)
    (position : fromIndex < 2 ^ 64) : (s.client.buildReplay fromIndex).Fits := by
  refine ⟨position, fun e member => ?_⟩
  obtain ⟨event, listed, rfl⟩ := List.mem_map.mp member
  have inside := List.mem_of_mem_drop listed
  rw [sys.client.events] at inside
  have next := sys.client.next
  have seq : event.seq ≤ s.requests.length := by
    obtain ⟨kind, seq⟩ := event
    cases kind with
    | false =>
        obtain ⟨r, known, rfl⟩ := (request_mem_canonical s.requests seq).mp inside
        exact (numbered_seq_index s.requests r sys.client.numbered known).2.2
    | true =>
        obtain ⟨r, known, listed⟩ := (response_mem_canonical s.requests seq).mp inside
        have below := sys.issued.below r known seq (Or.inr listed)
        have within := (numbered_seq_index s.requests r sys.client.numbered known).2.2
        exact Nat.le_of_lt (Nat.lt_of_lt_of_le below within)
  change event.seq < 2 ^ 64
  omega

-- ---- responses that go through the headers unchanged ----

structure Response.Wire (setHash : Bool) (resp : Response) : Prop where
  fits : resp.Fits
  plain : resp.recover = false → resp.recoverFrom = 0 ∧ (setHash = false → resp.hash = none)

theorem on_request_plain (app : AppFn) (sv : Server) (req : Request) :
    (sv.onRequest app req).1.setHash = sv.setHash ∧ ∀ resp ∈ (sv.onRequest app req).2.responses,
      resp.recover = false → resp.recoverFrom = 0 ∧ (sv.setHash = false → resp.hash = none) := by
  have made (other : Server) (same : other.setHash = sv.setHash) (seq : Nat) (payload : Payload) (noOp : Bool) :
      ∀ resp ∈ [other.makeResponse seq payload noOp],
        resp.recover = false → resp.recoverFrom = 0 ∧ (sv.setHash = false → resp.hash = none) := by
    intro resp member _
    rw [List.mem_singleton.mp member]
    refine ⟨rfl, fun off => ?_⟩
    rw [Server.makeResponse, same, off]
    rfl
  apply on_request_rule (fun next out => next.setHash = sv.setHash ∧ ∀ resp ∈ out.responses,
    resp.recover = false → resp.recoverFrom = 0 ∧ (sv.setHash = false → resp.hash = none))
  · intro _
    refine ⟨rfl, fun resp member plain => ?_⟩
    rw [List.mem_singleton.mp member] at plain
    cases plain
  · intro _ _
    exact answer_committed_rule (fun next out => next.setHash = sv.setHash ∧ ∀ resp ∈ out.responses,
        resp.recover = false → resp.recoverFrom = 0 ∧ (sv.setHash = false → resp.hash = none)) app (sv.releaseAcked req) req
      (fun payload _ => ⟨rfl, made _ rfl _ _ _⟩) (fun _ _ => ⟨rfl, made _ rfl _ _ _⟩) (fun _ _ => ⟨rfl, made _ rfl _ _ _⟩)
  · intro _ _
    apply stage_and_advance_rule (fun next out => next.setHash = sv.setHash ∧ ∀ resp ∈ out.responses,
      resp.recover = false → resp.recoverFrom = 0 ∧ (sv.setHash = false → resp.hash = none))
    · exact ⟨rfl, fun _ none => absurd none List.not_mem_nil⟩
    · intro next out r before _
      have same : (next.commit app r).1.setHash = sv.setHash := before.1
      refine ⟨same, fun resp member => ?_⟩
      rcases List.mem_append.mp member with old | new
      · exact before.2 resp old
      · rw [commit_responses] at new
        exact made _ same _ _ _ resp new

theorem ingest_replay_hash (sv : Server) (rp : Replay) : (sv.ingestReplay rp).setHash = sv.setHash := by
  rw [Server.ingestReplay]
  generalize rp.events.drop _ = events
  induction events generalizing sv with
  | nil => rfl
  | cons e rest ih =>
      rw [List.foldl_cons, ih, Server.ingestEvent]
      split <;> rfl

-- ---- the system behind a deployment ----

-- What a request's connection may bring back.
def GenuineReply (setHash : Bool) (s : Sys) (server seq : Nat) (reply : ServerReply) : Prop :=
  ∃ resp, (server, resp) ∈ s.responses ∧
    ((resp.recover = false ∧ resp.seq = seq ∧ reply = complete setHash resp) ∨
      resp.recover = true ∧ reply = signalRecovery resp)

def wire (req : Request) : Posting → List (List UInt8) × List UInt8
  | .request => (headerLines req, req.payload)
  | .replay fromIndex rp => (recoverLines fromIndex, rp.toJson)

-- Some instance asked for this replay.
def Asked (s : Sys) : Posting → Prop
  | .request => True
  | .replay fromIndex rp => fromIndex = rp.fromIndex ∧ ∃ inst, (inst, rp) ∈ s.replays

-- Of an observation, the app_ call, the deliver_ call and the mismatch callback in it.
def Obs.called : Obs → Option Call
  | .invoked _ call => some call
  | _ => none

def Obs.handed : Obs → Option (Nat × Payload)
  | .received resp => if resp.noOp then none else some (resp.seq, resp.payload)
  | _ => none

def Obs.reported : Obs → Option Mismatch
  | .mismatch m => some m
  | _ => none

structure Mirrors (d : Deployment) (s : Sys) : Prop where
  client : s.client = d.client
  server : s.server = d.interceptor.core
  inst : s.inst = d.inst
  requests : s.requests = d.calls.map SendCall.req
  few : d.client.nextSeq ≤ 2 ^ 63
  hash : d.interceptor.core.setHash = d.interceptor.setHash
  responses : ∀ inst resp, (inst, resp) ∈ s.responses → resp.Wire d.interceptor.setHash
  replays : ∀ inst rp, (inst, rp) ∈ s.replays → rp.Fits ∧ ∀ e ∈ rp.events, e.Bare
  calls : ∀ (i : Nat) call, d.calls[i]? = some call → ∀ posting, call.posting = some posting → Asked s posting
  connections : ∀ (n : Nat) conn, d.connections[n]? = some conn → ∃ req, s.requests[conn.call]? = some req ∧
    (conn.lines, conn.body) = wire req conn.posting ∧ Asked s conn.posting ∧
    (conn.posting = .request → ∀ reply, conn.fate = .replied reply →
      GenuineReply d.interceptor.setHash s conn.server req.seq reply)
  attempts : ∀ (i : Nat) call n, d.calls[i]? = some call → call.attempt = some n →
    ∃ conn, d.connections[n]? = some conn ∧ conn.call = i ∧ call.posting = some conn.posting
  waited : ∀ (i : Nat) call n conn, d.calls[i]? = some call → call.attempt = some n → d.connections[n]? = some conn →
    conn.fate ≠ .aborted
  pending : ∀ (seq object : Nat), d.interceptor.pending[seq]? = some object → ∃ conn req,
    d.connections[object]? = some conn ∧ s.requests[conn.call]? = some req ∧ req.seq = seq ∧ conn.server = d.inst
  answers : ∀ (i : Nat) call, d.calls[i]? = some call → ∀ resp ∈ call.answers,
    (resp.recover = false ∧ resp.seq = call.req.seq) ∧ ∃ inst, (inst, resp) ∈ s.responses
  invoked : s.log.filterMap Obs.called = d.invoked
  delivered : s.log.filterMap Obs.handed = d.delivered
  mismatched : s.log.filterMap Obs.reported = d.mismatched
  named : ∀ (n : Nat) conn reply, d.connections[n]? = some conn → conn.fate = .replied reply → reply.Named

-- A restarted server would come up from the latest checkpoint.
def Saved (d : Deployment) (s : Sys) : Prop :=
  ∃ cp earlier, s.checkpoints = cp :: earlier ∧ d.restart.core = .ofCheckpoint cp d.interceptor.setHash

def Deployment.Simulated (clientHash serverHash : Bool) (d : Deployment) : Prop :=
  ∃ s, StackReach clientHash serverHash s ∧ Mirrors d s ∧ Saved d s

theorem start_of_checkpoint (setHash : Bool) :
    Server.start none setHash = .ofCheckpoint ((Server.start none setHash).checkpoint .ascending) setHash := by
  have empty : ((Server.start none setHash).checkpoint .ascending).buffer = [] := by
    simp [Server.start, Server.checkpoint, Walk.ascending]
  rw [Server.ofCheckpoint, empty]
  rfl

theorem deployed_create (clientHash serverHash : Bool) (checkpointPath : Path) (checkpointEvery : Nat) :
    (Deployment.create clientHash serverHash checkpointPath checkpointEvery).Simulated clientHash serverHash := by
  have fresh : Interceptor.create (fun _ => none) serverHash checkpointPath checkpointEvery =
      { core := .start none serverHash, setHash := serverHash, checkpointPath := checkpointPath,
        checkpointEvery := checkpointEvery } := by
    rw [Interceptor.create, loadCheckpoint]
    by_cases named : checkpointPath = []
    · rw [if_pos named]
      rfl
    · rw [if_neg named]
      rfl
  refine ⟨Sys.init clientHash serverHash, .refl, ?_, ?_⟩
  · rw [Deployment.create, fresh]
    refine ⟨rfl, rfl, rfl, rfl, by change (1 : Nat) ≤ 2 ^ 63; omega, rfl, ?_, ?_, ?_, ?_, ?_, ?_, ?_, ?_, rfl, rfl, rfl, ?_⟩
    · exact fun _ _ none => absurd none List.not_mem_nil
    · exact fun _ _ none => absurd none List.not_mem_nil
    · exact fun _ _ none => by cases none
    · exact fun _ _ none => by cases none
    · exact fun _ _ _ none => by cases none
    · exact fun _ _ _ _ none => by cases none
    · exact fun _ _ none => by simp at none
    · exact fun _ _ none => by cases none
    · exact fun _ _ _ none => by cases none
  · refine ⟨_, [], rfl, ?_⟩
    rw [Deployment.restart, Deployment.create, fresh]
    change (Interceptor.create (fun _ => none) serverHash checkpointPath checkpointEvery).core = _
    rw [fresh]
    exact start_of_checkpoint serverHash

-- Appending leaves every earlier row at its place.
theorem row_kept {α : Type} (rows more : List α) (i : Nat) (row : α) (found : rows[i]? = some row) :
    (rows ++ more)[i]? = some row := by
  rw [List.getElem?_append_left (List.getElem?_eq_some_iff.mp found).1]
  exact found

theorem row_set {α : Type} (rows : List α) (i j : Nat) (new row : α) (found : (rows.set i new)[j]? = some row) :
    (j = i ∧ row = new) ∨ (j ≠ i ∧ rows[j]? = some row) := by
  by_cases own : i = j
  · rw [List.getElem?_set, if_pos own] at found
    split at found
    · exact Or.inl ⟨own.symm, (Option.some.inj found).symm⟩
    · cases found
  · rw [List.getElem?_set_ne own] at found
    exact Or.inr ⟨fun same => own same.symm, found⟩

theorem row_pushed {α : Type} (rows : List α) (new row : α) (j : Nat) (found : (rows ++ [new])[j]? = some row) :
    (j = rows.length ∧ row = new) ∨ rows[j]? = some row := by
  have inside : j < rows.length + 1 := by
    have bound := (List.getElem?_eq_some_iff.mp found).1
    rwa [List.length_append, List.length_singleton] at bound
  by_cases last : j = rows.length
  · rw [last, List.getElem?_concat_length] at found
    exact Or.inl ⟨last, (Option.some.inj found).symm⟩
  · rw [List.getElem?_append_left (by omega)] at found
    exact Or.inr found

theorem set_requests (calls : List SendCall) (i : Nat) (call next : SendCall) (there : calls[i]? = some call)
    (same : next.req = call.req) : (calls.set i next).map SendCall.req = calls.map SendCall.req := by
  rw [List.map_set, same]
  apply List.ext_getElem?
  intro j
  by_cases own : i = j
  · subst own
    have bound := (List.getElem?_eq_some_iff.mp there).1
    rw [List.getElem?_set_self (by rwa [List.length_map]), List.getElem?_map, there]
    rfl
  · rw [List.getElem?_set_ne own]

theorem deployed_start (clientHash serverHash : Bool) (d : Deployment) (payload : Payload)
    (orderly : d.Orderly (.start payload)) (sim : d.Simulated clientHash serverHash) :
    (d.start payload).Simulated clientHash serverHash := by
  obtain ⟨s, reach, mirrors, saved⟩ := sim
  have few : d.client.nextSeq < 2 ^ 63 := orderly
  refine ⟨_, reach.next (a := StackAction.act (.generate payload)) trivial rfl, ?_, saved⟩
  refine ⟨?_, mirrors.server, mirrors.inst, ?_, few, mirrors.hash, mirrors.responses, mirrors.replays, ?_, ?_, ?_, ?_,
    ?_, ?_, mirrors.invoked, mirrors.delivered, mirrors.mismatched, mirrors.named⟩
  · change (s.client.generateRequest payload).2 = _
    rw [mirrors.client]
    rfl
  · change s.requests ++ [(s.client.generateRequest payload).1] = _
    have added : (d.start payload).calls.map SendCall.req =
        d.calls.map SendCall.req ++ [(d.client.generateRequest payload).1] := List.map_append
    rw [mirrors.requests, mirrors.client, added]
  · intro i call found posting posted
    rcases row_pushed d.calls _ call i found with ⟨_, rfl⟩ | old
    · cases posted
      trivial
    · exact mirrors.calls i call old posting posted
  · intro n conn found
    obtain ⟨req, there, rest⟩ := mirrors.connections n conn found
    exact ⟨req, row_kept s.requests _ conn.call req there, rest⟩
  · intro i call n found attempt
    rcases row_pushed d.calls _ call i found with ⟨_, rfl⟩ | old
    · cases attempt
    · exact mirrors.attempts i call n old attempt
  · intro i call n conn found attempt known
    rcases row_pushed d.calls _ call i found with ⟨_, rfl⟩ | old
    · cases attempt
    · exact mirrors.waited i call n conn old attempt known
  · intro seq object held
    obtain ⟨conn, req, there, named, own⟩ := mirrors.pending seq object held
    exact ⟨conn, req, there, row_kept s.requests _ conn.call req named, own⟩
  · intro i call found resp heard
    rcases row_pushed d.calls _ call i found with ⟨_, rfl⟩ | old
    · cases heard
    · exact mirrors.answers i call old resp heard

-- ---- steps the system does not see ----

theorem post_cases (d d' : Deployment) (i : Nat) (taken : d.post i = some d') :
    ∃ call posting, d.calls[i]? = some call ∧ call.posting = some posting ∧
      d' = { d with
        calls := d.calls.set i { call with attempt := some d.connections.length }
        connections := d.connections ++
          [⟨i, posting, (wire call.req posting).1, (wire call.req posting).2, 0, .sent⟩] } := by
  obtain ⟨call, there, rest⟩ := Option.bind_eq_some_iff.mp taken
  split at rest
  · rename_i posting lines body _ posted sent
    refine ⟨call, posting, there, posted, ?_⟩
    rw [Deployment.sender, Sender.post, posted] at sent
    have pieces : wire call.req posting = (lines, body) := by
      cases posting with
      | request => exact Option.some.inj sent
      | replay fromIndex rp => exact Option.some.inj sent
    rw [pieces]
    exact (Option.some.inj rest).symm
  · cases rest

theorem deployed_post (clientHash serverHash : Bool) (d d' : Deployment) (i : Nat) (taken : d.post i = some d')
    (sim : d.Simulated clientHash serverHash) : d'.Simulated clientHash serverHash := by
  obtain ⟨s, reach, mirrors, saved⟩ := sim
  obtain ⟨call, posting, there, posted, rfl⟩ := post_cases d d' i taken
  refine ⟨s, reach, ?_, saved⟩
  refine ⟨mirrors.client, mirrors.server, mirrors.inst, ?_, mirrors.few, mirrors.hash, mirrors.responses, mirrors.replays,
    ?_, ?_, ?_, ?_, ?_, ?_, mirrors.invoked, mirrors.delivered, mirrors.mismatched, ?_⟩
  · have next := set_requests d.calls i call { call with attempt := some d.connections.length } there rfl
    exact mirrors.requests.trans next.symm
  · intro j other found
    rcases row_set d.calls i j _ other found with ⟨_, rfl⟩ | ⟨_, old⟩
    · exact mirrors.calls i call there
    · exact mirrors.calls j other old
  · intro n conn found
    rcases row_pushed d.connections _ conn n found with ⟨_, rfl⟩ | old
    · refine ⟨call.req, ?_, rfl, mirrors.calls i call there posting posted, fun _ reply replied => ?_⟩
      · rw [mirrors.requests, List.getElem?_map, there]
        rfl
      · cases replied
    · exact mirrors.connections n conn old
  · intro j other n found attempt
    rcases row_set d.calls i j _ other found with ⟨rfl, rfl⟩ | ⟨_, old⟩
    · cases attempt
      exact ⟨_, List.getElem?_concat_length, rfl, posted⟩
    · obtain ⟨conn, known, rest⟩ := mirrors.attempts j other n old attempt
      exact ⟨conn, row_kept d.connections _ n conn known, rest⟩
  · intro j other n conn found attempt known
    rcases row_pushed d.connections _ conn n known with ⟨_, rfl⟩ | before
    · exact fun same => by cases same
    · rcases row_set d.calls i j _ other found with ⟨rfl, rfl⟩ | ⟨_, old⟩
      · cases attempt
        exact absurd (List.getElem?_eq_some_iff.mp before).1 (Nat.lt_irrefl _)
      · exact mirrors.waited j other n conn old attempt before
  · intro seq object held
    obtain ⟨conn, req, known, rest⟩ := mirrors.pending seq object held
    exact ⟨conn, req, row_kept d.connections _ object conn known, rest⟩
  · intro j other found
    rcases row_set d.calls i j _ other found with ⟨_, rfl⟩ | ⟨_, old⟩
    · exact mirrors.answers i call there
    · exact mirrors.answers j other old
  · intro n conn reply found replied
    rcases row_pushed d.connections _ conn n found with ⟨_, rfl⟩ | old
    · cases replied
    · exact mirrors.named n conn reply old replied

-- ---- transport results ----

theorem asked_mono (s s' : Sys) (posting : Posting)
    (grown : ∀ inst rp, (inst, rp) ∈ s.replays → (inst, rp) ∈ s'.replays) (asked : Asked s posting) : Asked s' posting := by
  cases posting with
  | request => trivial
  | replay fromIndex rp =>
      obtain ⟨position, inst, listed⟩ := asked
      exact ⟨position, inst, grown inst rp listed⟩

-- One call goes on; the server and the network see nothing of it.
theorem mirrors_see (d : Deployment) (s s' : Sys) (i : Nat) (call next : SendCall) (client : Client)
    (delivered : List (Nat × Payload)) (mismatched : List Mismatch) (mirrors : Mirrors d s)
    (there : d.calls[i]? = some call) (same : next.req = call.req) (idle : next.attempt = none)
    (asked : ∀ posting, next.posting = some posting → Asked s' posting)
    (heard : s'.client = client ∧ client.nextSeq = d.client.nextSeq)
    (rest : s'.server = s.server ∧ s'.inst = s.inst ∧ s'.requests = s.requests ∧ s'.responses = s.responses)
    (grown : ∀ inst rp, (inst, rp) ∈ s.replays → (inst, rp) ∈ s'.replays)
    (fits : ∀ inst rp, (inst, rp) ∈ s'.replays → rp.Fits ∧ ∀ e ∈ rp.events, e.Bare)
    (answers : ∀ resp ∈ next.answers, resp ∈ call.answers ∨
      (resp.recover = false ∧ resp.seq = call.req.seq) ∧ ∃ inst, (inst, resp) ∈ s.responses)
    (logged : s'.log.filterMap Obs.called = s.log.filterMap Obs.called)
    (handed : s'.log.filterMap Obs.handed = delivered) (reported : s'.log.filterMap Obs.reported = mismatched) :
    Mirrors { d with client, calls := d.calls.set i next, delivered, mismatched } s' := by
  obtain ⟨server, inst, requests, responses⟩ := rest
  refine ⟨heard.1, server.trans mirrors.server, inst.trans mirrors.inst, ?_, ?_, mirrors.hash, ?_, fits, ?_, ?_, ?_, ?_,
    ?_, ?_, logged.trans mirrors.invoked, handed, reported, mirrors.named⟩
  · exact (requests.trans mirrors.requests).trans (set_requests d.calls i call next there same).symm
  · exact heard.2 ▸ mirrors.few
  · rw [responses]
    exact mirrors.responses
  · intro j other found posting posted
    rcases row_set d.calls i j _ other found with ⟨_, rfl⟩ | ⟨_, old⟩
    · exact asked posting posted
    · exact asked_mono s s' posting grown (mirrors.calls j other old posting posted)
  · intro n conn found
    obtain ⟨req, known, sent, wanted, genuine⟩ := mirrors.connections n conn found
    rw [requests]
    refine ⟨req, known, sent, asked_mono s s' _ grown wanted, fun kind reply replied => ?_⟩
    obtain ⟨resp, member, shape⟩ := genuine kind reply replied
    exact ⟨resp, responses.symm ▸ member, shape⟩
  · intro j other n found attempt
    rcases row_set d.calls i j _ other found with ⟨_, rfl⟩ | ⟨_, old⟩
    · rw [idle] at attempt
      cases attempt
    · exact mirrors.attempts j other n old attempt
  · intro j other n conn found attempt known
    rcases row_set d.calls i j _ other found with ⟨_, rfl⟩ | ⟨_, old⟩
    · rw [idle] at attempt
      cases attempt
    · exact mirrors.waited j other n conn old attempt known
  · rw [requests]
    exact mirrors.pending
  · rw [responses]
    intro j other found resp heard
    rcases row_set d.calls i j _ other found with ⟨_, rfl⟩ | ⟨_, old⟩
    · rw [same]
      rcases answers resp heard with before | now
      · exact mirrors.answers i call there resp before
      · exact now
    · exact mirrors.answers j other old resp heard

theorem unheard (call : SendCall) (posting : Option Posting) {P : Response → Prop} :
    ∀ resp ∈ (call.turn posting none).answers, resp ∈ call.answers ∨ P resp := by
  intro resp heard
  rw [SendCall.turn, Option.toList_none, List.append_nil] at heard
  exact Or.inl heard

theorem invoked_called (inst : Nat) (calls : List Call) : (calls.map (Obs.invoked inst)).filterMap Obs.called = calls := by
  rw [List.filterMap_map]
  exact List.filterMap_some

theorem reports_called (reports : List Mismatch) : (reports.map Obs.mismatch).filterMap Obs.called = [] := by
  rw [List.filterMap_map]
  exact List.filterMap_eq_nil_iff.mpr fun _ _ => rfl

theorem invoked_reported (inst : Nat) (calls : List Call) : (calls.map (Obs.invoked inst)).filterMap Obs.reported = [] := by
  rw [List.filterMap_map]
  exact List.filterMap_eq_nil_iff.mpr fun _ _ => rfl

theorem reports_reported (reports : List Mismatch) : (reports.map Obs.mismatch).filterMap Obs.reported = reports := by
  rw [List.filterMap_map]
  exact List.filterMap_some

theorem invoked_handed (inst : Nat) (calls : List Call) : (calls.map (Obs.invoked inst)).filterMap Obs.handed = [] := by
  rw [List.filterMap_map]
  exact List.filterMap_eq_nil_iff.mpr fun _ _ => rfl

theorem reports_handed (reports : List Mismatch) : (reports.map Obs.mismatch).filterMap Obs.handed = [] := by
  rw [List.filterMap_map]
  exact List.filterMap_eq_nil_iff.mpr fun _ _ => rfl

theorem observed_called (inst : Nat) (req : Request) (out : Outcome) :
    (observed inst req out).filterMap Obs.called = out.calls := by
  rw [observed, List.filterMap_append, List.filterMap_append, invoked_called, reports_called, List.append_nil]
  split <;> rfl

theorem observed_handed (inst : Nat) (req : Request) (out : Outcome) :
    (observed inst req out).filterMap Obs.handed = [] := by
  rw [observed, List.filterMap_append, List.filterMap_append, invoked_handed, reports_handed, List.append_nil]
  split <;> rfl

theorem observed_reported (inst : Nat) (req : Request) (out : Outcome) :
    (observed inst req out).filterMap Obs.reported = out.mismatches := by
  rw [observed, List.filterMap_append, List.filterMap_append, invoked_reported, reports_reported, List.append_nil]
  split <;> rfl

theorem deliver_called (s : Sys) (resp : Response) :
    (s.deliver resp).log.filterMap Obs.called = s.log.filterMap Obs.called := by
  change (s.log ++ (if (s.client.onResponse resp).1.first then [Obs.received resp] else []) ++
    ((s.client.onResponse resp).1.mismatch.map Obs.mismatch).toList).filterMap Obs.called = _
  rw [List.filterMap_append, List.filterMap_append]
  cases (s.client.onResponse resp).1.first <;> cases (s.client.onResponse resp).1.mismatch <;>
    simp [Obs.called]

theorem deliver_handed (s : Sys) (resp : Response) :
    (s.deliver resp).log.filterMap Obs.handed =
      s.log.filterMap Obs.handed ++ ((s.client.onResponse resp).1.delivered).toList := by
  change (s.log ++ (if (s.client.onResponse resp).1.first then [Obs.received resp] else []) ++
    ((s.client.onResponse resp).1.mismatch.map Obs.mismatch).toList).filterMap Obs.handed = _
  have report : ((s.client.onResponse resp).1.mismatch.map Obs.mismatch).toList.filterMap Obs.handed = [] := by
    cases (s.client.onResponse resp).1.mismatch <;> rfl
  rw [List.filterMap_append, List.filterMap_append, report, List.append_nil, on_response_first, Client.onResponse]
  by_cases known : resp.seq ∈ s.client.received
  · simp [known]
  · cases kind : resp.noOp <;> simp [known, kind, Obs.handed]

theorem deliver_reported (s : Sys) (resp : Response) :
    (s.deliver resp).log.filterMap Obs.reported =
      s.log.filterMap Obs.reported ++ ((s.client.onResponse resp).1.mismatch).toList := by
  change (s.log ++ (if (s.client.onResponse resp).1.first then [Obs.received resp] else []) ++
    ((s.client.onResponse resp).1.mismatch.map Obs.mismatch).toList).filterMap Obs.reported = _
  rw [List.filterMap_append, List.filterMap_append]
  cases (s.client.onResponse resp).1.first <;> cases (s.client.onResponse resp).1.mismatch <;>
    simp [Obs.reported]

theorem see_undelivered (s : Sender) (res : HttpResult) (lost : res.delivered = false) :
    s.see res = s ∧ s.answer res = none := by
  have retry : sendReceive s.req res = .retry := by
    rw [sendReceive, lost]
    rfl
  have failed : ¬ res.Ok := fun ok => by
    have delivered := ok.1
    rw [lost] at delivered
    cases delivered
  rw [Sender.see, Sender.answer]
  cases posting : s.posting with
  | none => exact ⟨rfl, rfl⟩
  | some sent =>
      cases sent with
      | request =>
          simp only [retry]
          exact ⟨trivial, trivial⟩
      | replay fromIndex rp =>
          simp only [if_neg failed]
          exact ⟨trivial, trivial⟩

theorem deployed_undelivered (clientHash serverHash : Bool) (d : Deployment) (i : Nat) (call : SendCall)
    (res : HttpResult) (lost : res.delivered = false) (there : d.calls[i]? = some call)
    (sim : d.Simulated clientHash serverHash) : (d.see i call res).Simulated clientHash serverHash := by
  obtain ⟨s, reach, mirrors, saved⟩ := sim
  obtain ⟨same, silent⟩ := see_undelivered (d.sender call) res lost
  refine ⟨s, reach, ?_, saved⟩
  rw [Deployment.see, same, silent]
  exact mirrors_see d s s i call (call.turn call.posting none) d.client _ _ mirrors there rfl rfl
    (mirrors.calls i call there) ⟨mirrors.client, rfl⟩ ⟨rfl, rfl, rfl, rfl⟩ (fun _ _ => id) mirrors.replays (unheard call _)
    rfl (mirrors.delivered.trans (List.append_nil _).symm) (mirrors.mismatched.trans (List.append_nil _).symm)

-- ---- replies ----

-- Headers carry a server's response to the client as it was.
theorem complete_read_whole (req : Request) (setHash : Bool) (resp : Response) (lines : List (List UInt8))
    (sound : resp.Wire setHash) (plain : resp.recover = false) (delivered : DeliversReply (complete setHash resp) lines) :
    sendReceive req (received (complete setHash resp) lines) = .received resp := by
  rw [complete_read req setHash resp lines sound.fits delivered]
  obtain ⟨position, hashless⟩ := sound.plain plain
  have hash : (if setHash then resp.hash else none) = resp.hash := by
    cases setHash with
    | true => rfl
    | false => exact (hashless rfl).symm
  rw [hash]
  cases resp
  simp only at plain position
  rw [plain, position]

theorem see_answered (d : Deployment) (call : SendCall) (res : HttpResult) (resp : Response)
    (posted : call.posting = some .request) (read : sendReceive call.req res = .received resp) :
    (d.sender call).see res = ⟨(d.client.onResponse resp).2, call.req, none⟩ ∧ (d.sender call).answer res = some resp := by
  rw [Deployment.sender, Sender.see, Sender.answer, posted]
  simp only [read]
  exact ⟨trivial, trivial⟩

theorem see_refused (d : Deployment) (call : SendCall) (res : HttpResult) (fromIndex : Nat)
    (posted : call.posting = some .request) (read : sendReceive call.req res = .recover fromIndex) :
    (d.sender call).see res = ⟨d.client, call.req, some (.replay fromIndex (d.client.buildReplay fromIndex))⟩ ∧
      (d.sender call).answer res = none := by
  rw [Deployment.sender, Sender.see, Sender.answer, posted]
  simp only [read]
  exact ⟨trivial, trivial⟩

theorem see_replayed (d : Deployment) (call : SendCall) (res : HttpResult) (fromIndex : Nat) (rp : Replay)
    (posted : call.posting = some (.replay fromIndex rp)) :
    ((d.sender call).see res = ⟨d.client, call.req, some .request⟩ ∨
      (d.sender call).see res = ⟨d.client, call.req, some (.replay fromIndex rp)⟩) ∧ (d.sender call).answer res = none := by
  rw [Deployment.sender, Sender.see, Sender.answer, posted]
  refine ⟨?_, rfl⟩
  simp only
  split
  · exact Or.inl rfl
  · exact Or.inr rfl

theorem on_response_next (c : Client) (resp : Response) : (c.onResponse resp).2.nextSeq = c.nextSeq := by
  rw [Client.onResponse]
  split <;> rfl

-- What a reply makes of the call that waited for it.
inductive ReplyTurn (d : Deployment) (s : Sys) (conn : Connection) (call : SendCall) (res : HttpResult) : Prop where
  | answered (resp : Response) (sent : (conn.server, resp) ∈ s.responses) (plain : resp.recover = false)
      (own : resp.seq = call.req.seq) (posted : call.posting = some .request)
      (seen : (d.sender call).see res = ⟨(d.client.onResponse resp).2, call.req, none⟩)
      (answer : (d.sender call).answer res = some resp) : ReplyTurn d s conn call res
  | refused (resp : Response) (sent : (conn.server, resp) ∈ s.responses) (signal : resp.recover = true)
      (posted : call.posting = some .request)
      (seen : (d.sender call).see res =
        ⟨d.client, call.req, some (.replay resp.recoverFrom (d.client.buildReplay resp.recoverFrom))⟩)
      (answer : (d.sender call).answer res = none) : ReplyTurn d s conn call res
  | replayed (fromIndex : Nat) (rp : Replay) (posting : Posting) (posted : call.posting = some (.replay fromIndex rp))
      (next : posting = .request ∨ posting = .replay fromIndex rp)
      (seen : (d.sender call).see res = ⟨d.client, call.req, some posting⟩)
      (answer : (d.sender call).answer res = none) : ReplyTurn d s conn call res

theorem reply_turn (d : Deployment) (s : Sys) (n : Nat) (conn : Connection) (call : SendCall) (reply : ServerReply)
    (lines : List (List UInt8)) (mirrors : Mirrors d s) (known : d.connections[n]? = some conn)
    (there : d.calls[conn.call]? = some call) (waiting : call.attempt = some n) (replied : conn.fate = .replied reply)
    (delivered : DeliversReply reply lines) : ReplyTurn d s conn call (received reply lines) := by
  obtain ⟨other, same, _, posted⟩ := mirrors.attempts conn.call call n there waiting
  rw [known] at same
  cases same
  obtain ⟨req, issued, _, _, genuine⟩ := mirrors.connections n conn known
  have own : req = call.req := by
    rw [mirrors.requests, List.getElem?_map, there] at issued
    exact (Option.some.inj issued).symm
  subst own
  cases kind : conn.posting with
  | replay fromIndex rp =>
      rw [kind] at posted
      obtain ⟨same | same, silent⟩ := see_replayed d call (received reply lines) fromIndex rp posted
      · exact .replayed fromIndex rp .request posted (Or.inl rfl) same silent
      · exact .replayed fromIndex rp _ posted (Or.inr rfl) same silent
  | request =>
      rw [kind] at posted
      obtain ⟨resp, sent, shape⟩ := genuine kind reply replied
      have sound := mirrors.responses _ resp sent
      rcases shape with ⟨plain, seq, rfl⟩ | ⟨signal, rfl⟩
      · have read := complete_read_whole call.req _ resp lines sound plain delivered
        obtain ⟨same, heard⟩ := see_answered d call _ resp posted read
        exact .answered resp sent plain seq posted same heard
      · have read := signal_read call.req resp lines sound.fits delivered
        obtain ⟨same, silent⟩ := see_refused d call _ resp.recoverFrom posted read
        exact .refused resp sent signal posted same silent

theorem deployed_replied (clientHash serverHash : Bool) (d : Deployment) (n : Nat) (conn : Connection) (call : SendCall)
    (reply : ServerReply) (lines : List (List UInt8)) (known : d.connections[n]? = some conn)
    (there : d.calls[conn.call]? = some call) (waiting : call.attempt = some n) (replied : conn.fate = .replied reply)
    (delivered : DeliversReply reply lines) (sim : d.Simulated clientHash serverHash) :
    (d.see conn.call call (received reply lines)).Simulated clientHash serverHash := by
  obtain ⟨s, reach, mirrors, saved⟩ := sim
  have sys := stack_sys_inv _ _ s reach
  cases reply_turn d s n conn call reply lines mirrors known there waiting replied delivered with
  | answered resp sent plain own posted seen answer =>
      obtain ⟨index, place⟩ := List.mem_iff_getElem?.mp sent
      have taken : s.stackStep (.act (.response index)) = some (s.deliver resp) := by
        rw [Sys.stackStep, Sys.step, place, Option.bind_some, plain]
        rfl
      refine ⟨s.deliver resp, reach.next (a := StackAction.act (.response index)) trivial taken, ?_, saved⟩
      rw [Deployment.see, seen, answer]
      apply mirrors_see d s (s.deliver resp) conn.call call (call.turn none (some resp))
        (d.client.onResponse resp).2 _ _ mirrors there rfl rfl ?_ ⟨?_, on_response_next d.client resp⟩ ⟨rfl, rfl, rfl, rfl⟩
        (fun _ _ => id) mirrors.replays ?_ (deliver_called s resp) ?_ ?_
      · intro posting next
        cases next
      · change (s.client.onResponse resp).2 = _
        rw [mirrors.client]
      · intro other heard
        rcases List.mem_append.mp heard with before | now
        · exact Or.inl before
        · rw [List.mem_singleton.mp now]
          exact Or.inr ⟨⟨plain, own⟩, _, sent⟩
      · rw [deliver_handed, mirrors.client, mirrors.delivered]
        rfl
      · rw [deliver_reported, mirrors.client, mirrors.mismatched]
        rfl
  | refused resp sent signal posted seen answer =>
      obtain ⟨index, place⟩ := List.mem_iff_getElem?.mp sent
      have taken : s.stackStep (.act (.buildReplay index)) =
          some { s with replays := s.replays ++ [(conn.server, s.client.buildReplay resp.recoverFrom)] } := by
        rw [Sys.stackStep, Sys.step, place, Option.bind_some, signal]
        rfl
      refine ⟨_, reach.next (a := StackAction.act (.buildReplay index)) trivial taken, ?_, saved⟩
      rw [Deployment.see, seen, answer]
      apply mirrors_see d s { s with replays := s.replays ++ [(conn.server, s.client.buildReplay resp.recoverFrom)] }
        conn.call call (call.turn (some (.replay resp.recoverFrom (d.client.buildReplay resp.recoverFrom))) none)
        d.client _ _ mirrors there rfl rfl ?_ ⟨mirrors.client, rfl⟩ ⟨rfl, rfl, rfl, rfl⟩
        (fun _ _ old => List.mem_append_left _ old) ?_ (unheard call _) rfl
        (mirrors.delivered.trans (List.append_nil _).symm) (mirrors.mismatched.trans (List.append_nil _).symm)
      · intro posting next
        cases next
        exact ⟨rfl, conn.server, List.mem_append_right _ (mirrors.client ▸ List.mem_singleton.mpr rfl)⟩
      · intro inst rp member
        rcases List.mem_append.mp member with old | new
        · exact mirrors.replays inst rp old
        · cases List.mem_singleton.mp new
          exact ⟨replay_fits s sys (mirrors.client ▸ mirrors.few) _ (mirrors.responses _ resp sent).fits.position,
            build_replay_bare _ _⟩
  | replayed fromIndex rp posting posted next seen answer =>
      refine ⟨s, reach, ?_, saved⟩
      rw [Deployment.see, seen, answer]
      apply mirrors_see d s s conn.call call (call.turn (some posting) none) d.client _ _ mirrors there rfl rfl
        ?_ ⟨mirrors.client, rfl⟩ ⟨rfl, rfl, rfl, rfl⟩ (fun _ _ => id) mirrors.replays (unheard call _) rfl
        (mirrors.delivered.trans (List.append_nil _).symm) (mirrors.mismatched.trans (List.append_nil _).symm)
      intro other same
      cases same
      rcases next with rfl | rfl
      · trivial
      · exact mirrors.calls conn.call call there _ posted

theorem receive_cases (d d' : Deployment) (n : Nat) (res : HttpResult) (taken : d.receive n res = some d') :
    ∃ conn call, d.connections[n]? = some conn ∧ d.calls[conn.call]? = some call ∧ call.attempt = some n ∧
      ((∃ reply, conn.fate = .replied reply) ∨ conn.fate = .aborted) ∧ d' = d.see conn.call call res := by
  obtain ⟨conn, known, rest⟩ := Option.bind_eq_some_iff.mp taken
  obtain ⟨call, there, rest⟩ := Option.bind_eq_some_iff.mp rest
  split at rest
  · rename_i waiting
    split at rest
    · rename_i reply replied
      exact ⟨conn, call, known, there, waiting, Or.inl ⟨reply, replied⟩, (Option.some.inj rest).symm⟩
    · rename_i aborted
      exact ⟨conn, call, known, there, waiting, Or.inr aborted, (Option.some.inj rest).symm⟩
    · cases rest
  · cases rest

theorem deployed_receive (clientHash serverHash : Bool) (d d' : Deployment) (n : Nat) (res : HttpResult)
    (orderly : d.Orderly (.receive n res)) (taken : d.receive n res = some d') (sim : d.Simulated clientHash serverHash) :
    d'.Simulated clientHash serverHash := by
  obtain ⟨conn, call, known, there, waiting, fate, rfl⟩ := receive_cases d d' n res taken
  rcases fate with ⟨reply, replied⟩ | aborted
  · obtain ⟨lines, delivered, rfl⟩ := orderly conn reply known replied
    exact deployed_replied clientHash serverHash d n conn call reply lines known there waiting replied delivered sim
  · obtain ⟨s, _, mirrors, _⟩ := sim
    exact absurd aborted (mirrors.waited conn.call call n conn there waiting known)

theorem give_up_cases (d d' : Deployment) (i : Nat) (taken : d.giveUp i = some d') :
    ∃ call, d.calls[i]? = some call ∧ d' = d.see i call {} := by
  obtain ⟨call, there, rest⟩ := Option.bind_eq_some_iff.mp taken
  split at rest
  · exact ⟨call, there, (Option.some.inj rest).symm⟩
  · cases rest

theorem deployed_give_up (clientHash serverHash : Bool) (d d' : Deployment) (i : Nat) (taken : d.giveUp i = some d')
    (sim : d.Simulated clientHash serverHash) : d'.Simulated clientHash serverHash := by
  obtain ⟨call, there, rfl⟩ := give_up_cases d d' i taken
  exact deployed_undelivered clientHash serverHash d i call {} rfl there sim

-- ---- a new server process ----

theorem mirrors_crash (d : Deployment) (s : Sys) (cp : Checkpoint) (earlier : List Checkpoint) (mirrors : Mirrors d s)
    (latest : s.checkpoints = cp :: earlier) (restored : d.restart.core = .ofCheckpoint cp d.interceptor.setHash) :
    let s' := { s with server := .ofCheckpoint cp d.interceptor.setHash, inst := s.inst + 1, restored := cp }
    Mirrors d.crash s' ∧ Saved d.crash s' := by
  refine ⟨⟨mirrors.client, restored.symm, ?_, mirrors.requests, mirrors.few, ?_, mirrors.responses, mirrors.replays,
    mirrors.calls, mirrors.connections, mirrors.attempts, mirrors.waited, fun seq object held => ?_, mirrors.answers,
    mirrors.invoked, mirrors.delivered, mirrors.mismatched, mirrors.named⟩, cp, earlier, latest, restored⟩
  · exact congrArg (· + 1) mirrors.inst
  · change d.restart.core.setHash = _
    rw [restored]
    rfl
  · change (∅ : SeqMap Nat)[seq]? = some object at held
    simp at held

theorem deployed_crash (clientHash serverHash : Bool) (d : Deployment) (sim : d.Simulated clientHash serverHash) :
    d.crash.Simulated clientHash serverHash := by
  obtain ⟨s, reach, mirrors, cp, earlier, latest, restored⟩ := sim
  have taken : s.stackStep (.act (.crash 0 d.interceptor.setHash)) =
      some { s with server := .ofCheckpoint cp d.interceptor.setHash, inst := s.inst + 1, restored := cp } := by
    rw [Sys.stackStep, Sys.step, latest]
    rfl
  exact ⟨_, reach.next (a := StackAction.act (.crash 0 d.interceptor.setHash)) rfl taken,
    mirrors_crash d s cp earlier mirrors latest restored⟩

-- ---- a POST at the server ----

theorem plain_header (r : Request) (got : ServerRequest) (delivered : DeliversRequest (headerLines r) r.payload got) :
    got.header (text "Color-Replay") = [] := by
  apply delivered.absent (text "Color-Replay") (by simp [colorNames])
  intro value line
  cases hash : r.hash <;> simp [headerLines, text, ch, hash] at line

theorem replay_header (fromIndex : Nat) (body : List UInt8) (got : ServerRequest) (fits : fromIndex < 2 ^ 64)
    (delivered : DeliversRequest (recoverLines fromIndex) body got) : got.header (text "Color-Replay") ≠ [] := by
  have line : text "Color-Replay" ++ text ": " ++ decimal fromIndex ∈ recoverLines fromIndex := by
    simp [recoverLines, text]
  exact (number_header _ _ _ got fromIndex 0 fits delivered line (by decide)).1

theorem handle_effects (d : Deployment) (n : Nat) (conn : Connection) (got : ServerRequest) (app : AppFn) (walk : Walk)
    (count : Nat) : d.handle n conn got app walk count =
      ((d.interceptor.onRequest app n got).2.take count).foldl (Deployment.perform walk)
        (d.handed n conn (d.interceptor.onRequest app n got).1 (Deployment.reaction d.interceptor app got)) := rfl

theorem arrive_cases (d d' : Deployment) (n : Nat) (got : ServerRequest) (app : AppFn) (walk : Walk)
    (taken : d.arrive n got app walk = some d') :
    ∃ conn, d.connections[n]? = some conn ∧ conn.fate = .sent ∧
      d' = d.handle n conn got app walk (d.interceptor.onRequest app n got).2.length := by
  obtain ⟨conn, known, rest⟩ := Option.bind_eq_some_iff.mp taken
  split at rest
  · rename_i fate
    exact ⟨conn, known, fate, (Option.some.inj rest).symm⟩
  · cases rest

-- The deployment a server leaves that falls inside on_request.
def Deployment.stricken (d : Deployment) (n : Nat) (conn : Connection) (got : ServerRequest) (out : Outcome) : Deployment :=
  (Deployment.superseded d.interceptor got).foldl (Deployment.perform .ascending) (d.handed n conn d.interceptor out)

theorem fall_cases (d d' : Deployment) (n : Nat) (got : ServerRequest) (app : AppFn) (calls reports : Nat)
    (taken : d.fall n got app calls reports = some d') : ∃ conn, d.connections[n]? = some conn ∧
      d' = (d.stricken n conn got ((Deployment.reaction d.interceptor app got).cut calls reports)).crash := by
  obtain ⟨conn, known, rest⟩ := Option.bind_eq_some_iff.mp taken
  split at rest
  · exact ⟨conn, known, (Option.some.inj rest).symm⟩
  · cases rest

theorem die_cases (d d' : Deployment) (n : Nat) (got : ServerRequest) (app : AppFn) (walk : Walk) (count bytes : Nat)
    (taken : d.die n got app walk count bytes = some d') : ∃ conn, d.connections[n]? = some conn ∧
      d' = ((d.handle n conn got app walk count).interrupt walk bytes
        (d.interceptor.onRequest app n got).2[count]?).crash := by
  obtain ⟨conn, known, rest⟩ := Option.bind_eq_some_iff.mp taken
  split at rest
  · exact ⟨conn, known, (Option.some.inj rest).symm⟩
  · cases rest

theorem mirrors_arrive (d d' : Deployment) (s s' : Sys) (n : Nat) (conn : Connection) (ic : Interceptor) (out : Outcome)
    (effects : List Effect) (mirrors : Mirrors d s) (known : d.connections[n]? = some conn)
    (performed : Performed (d.handed n conn ic out) d' effects)
    (rest : s'.client = s.client ∧ s'.server = ic.core ∧ s'.inst = s.inst ∧ s'.requests = s.requests ∧
      s'.replays = s.replays)
    (hashes : ic.core.setHash = ic.setHash ∧ ic.setHash = d.interceptor.setHash)
    (grown : ∀ inst resp, (inst, resp) ∈ s.responses → (inst, resp) ∈ s'.responses)
    (sound : ∀ inst resp, (inst, resp) ∈ s'.responses → resp.Wire d.interceptor.setHash)
    (replies : ∀ o reply, .reply o reply ∈ effects → ∀ other req, (d.handed n conn ic out).connections[o]? = some other →
      s.requests[other.call]? = some req → other.posting = .request →
      GenuineReply d.interceptor.setHash s' other.server req.seq reply)
    (spared : ∀ o, .abort o ∈ effects → ∀ (i : Nat) call, d.calls[i]? = some call → call.attempt ≠ some o)
    (pending : ∀ (seq object : Nat), ic.pending[seq]? = some object → ∃ other req,
      (d.handed n conn ic out).connections[object]? = some other ∧ s.requests[other.call]? = some req ∧ req.seq = seq ∧
        other.server = d.inst)
    (logged : s'.log.filterMap Obs.called = s.log.filterMap Obs.called ++ out.calls)
    (silent : s'.log.filterMap Obs.handed = s.log.filterMap Obs.handed)
    (reported : s'.log.filterMap Obs.reported = s.log.filterMap Obs.reported ++ out.mismatches)
    (named : ∀ o reply, .reply o reply ∈ effects → reply.Named) : Mirrors d' s' := by
  obtain ⟨client, server, inst, requests, replays⟩ := rest
  have shape := performed.rest
  have sameClient : d'.client = d.client := (congrArg Deployment.client shape :)
  have sameCalls : d'.calls = d.calls := (congrArg Deployment.calls shape :)
  have newInterceptor : d'.interceptor = ic := congrArg Deployment.interceptor shape
  have sameInst : d'.inst = d.inst := (congrArg Deployment.inst shape :)
  have asked (posting : Posting) (before : Asked s posting) : Asked s' posting :=
    asked_mono s s' posting (fun _ _ old => replays ▸ old) before
  have invoked : d'.invoked = d.invoked ++ out.calls := (congrArg Deployment.invoked shape :)
  have mismatched : d'.mismatched = d.mismatched ++ out.mismatches := (congrArg Deployment.mismatched shape :)
  have delivered : d'.delivered = d.delivered := (congrArg Deployment.delivered shape :)
  refine ⟨?_, ?_, ?_, ?_, ?_, ?_, ?_, ?_, ?_, ?_, ?_, ?_, ?_, ?_, ?_, ?_, ?_, ?_⟩
  · rw [client, sameClient]
    exact mirrors.client
  · rw [server, newInterceptor]
  · rw [inst, sameInst]
    exact mirrors.inst
  · rw [requests, sameCalls]
    exact mirrors.requests
  · rw [sameClient]
    exact mirrors.few
  · rw [newInterceptor]
    exact hashes.1
  · rw [newInterceptor, hashes.2]
    exact sound
  · rw [replays]
    exact mirrors.replays
  · rw [sameCalls]
    exact fun i call there posting posted => asked _ (mirrors.calls i call there posting posted)
  · intro m later found
    obtain ⟨middle, spot, same, cause⟩ := performed.moved m later found
    have before : ∃ first, d.connections[m]? = some first ∧ first.call = middle.call ∧ first.posting = middle.posting ∧
        (first.lines, first.body) = (middle.lines, middle.body) ∧ (middle.fate = .handling ∨ first = middle) := by
      rcases row_set d.connections n m _ middle spot with ⟨rfl, rfl⟩ | ⟨_, old⟩
      · exact ⟨conn, known, rfl, rfl, rfl, Or.inl rfl⟩
      · exact ⟨middle, old, rfl, rfl, rfl, Or.inr rfl⟩
    obtain ⟨first, old, call, posting, sent, stage⟩ := before
    obtain ⟨req, issued, wired, wanted, genuine⟩ := mirrors.connections m first old
    rw [call] at issued
    rw [posting, sent] at wired
    rw [posting] at wanted
    rw [same, requests, newInterceptor, hashes.2]
    refine ⟨req, issued, wired, asked _ wanted, fun kind reply replied => ?_⟩
    change later.fate = .replied reply at replied
    rcases cause with unchanged | ⟨given, member, settled⟩ | ⟨_, aborted⟩
    · rw [unchanged] at replied
      rcases stage with handling | rfl
      · rw [handling] at replied
        cases replied
      · obtain ⟨resp, listed, form⟩ := genuine kind reply replied
        exact ⟨resp, grown _ _ listed, form⟩
    · rw [settled] at replied
      cases replied
      exact replies m reply member middle req spot issued kind
    · rw [aborted] at replied
      cases replied
  · rw [sameCalls]
    intro i call m there attempt
    obtain ⟨first, old, own, posted⟩ := mirrors.attempts i call m there attempt
    have spot : ∃ middle, (d.handed n conn ic out).connections[m]? = some middle ∧ middle.call = first.call ∧
        middle.posting = first.posting := by
      by_cases here : n = m
      · subst here
        rw [known] at old
        cases old
        exact ⟨_, List.getElem?_set_self (List.getElem?_eq_some_iff.mp known).1, rfl, rfl⟩
      · exact ⟨first, (List.getElem?_set_ne here).trans old, rfl, rfl⟩
    obtain ⟨middle, spot, call', posting⟩ := spot
    obtain ⟨fate, found⟩ := performed.kept m middle spot
    exact ⟨_, found, call'.trans own, posted.trans (congrArg some posting.symm)⟩
  · rw [sameCalls]
    intro i call m later there attempt found
    obtain ⟨middle, spot, _, cause⟩ := performed.moved m later found
    rcases cause with unchanged | ⟨reply, _, replied⟩ | ⟨cut, _⟩
    · rw [unchanged]
      rcases row_set d.connections n m _ middle spot with ⟨_, rfl⟩ | ⟨_, old⟩
      · exact fun same => by cases same
      · exact mirrors.waited i call m middle there attempt old
    · rw [replied]
      exact fun same => by cases same
    · exact absurd attempt (spared m cut i call there)
  · rw [newInterceptor]
    intro seq object held
    obtain ⟨middle, req, spot, issued, own, here⟩ := pending seq object held
    obtain ⟨fate, found⟩ := performed.kept object middle spot
    exact ⟨_, req, found, requests ▸ issued, own, here.trans sameInst.symm⟩
  · rw [sameCalls]
    intro i call there resp heard
    obtain ⟨right, g, sent⟩ := mirrors.answers i call there resp heard
    exact ⟨right, g, grown g resp sent⟩
  · rw [invoked, logged, mirrors.invoked]
  · rw [delivered, silent, mirrors.delivered]
  · rw [mismatched, reported, mirrors.mismatched]
  · intro m later reply found replied
    obtain ⟨middle, spot, _, cause⟩ := performed.moved m later found
    rcases cause with unchanged | ⟨given, member, settled⟩ | ⟨_, aborted⟩
    · rw [unchanged] at replied
      rcases row_set d.connections n m _ middle spot with ⟨_, rfl⟩ | ⟨_, old⟩
      · cases replied
      · exact mirrors.named m middle reply old replied
    · rw [settled] at replied
      cases replied
      exact named m reply member
    · rw [aborted] at replied
      cases replied

theorem saved_same (d d' : Deployment) (s s' : Sys) (saved : Saved d s) (files : d'.files = d.files)
    (config : d'.interceptor.setHash = d.interceptor.setHash ∧ d'.interceptor.checkpointPath = d.interceptor.checkpointPath ∧
      d'.interceptor.checkpointEvery = d.interceptor.checkpointEvery) (same : s'.checkpoints = s.checkpoints) :
    Saved d' s' := by
  obtain ⟨cp, earlier, latest, restored⟩ := saved
  obtain ⟨setHash, path, every⟩ := config
  refine ⟨cp, earlier, same.trans latest, ?_⟩
  rw [Deployment.restart, files, setHash, path, every]
  exact restored

-- Without a checkpoint write the files and the interceptor stay.
theorem saved_performed (d d' : Deployment) (s s' : Sys) (effects : List Effect) (saved : Saved d s)
    (performed : Performed d d' effects) (quiet : ∀ core, .writeCheckpoint core ∉ effects)
    (same : s'.checkpoints = s.checkpoints) : Saved d' s' := by
  have kept := performed_interceptor d d' effects performed
  exact saved_same d d' s s' saved (performed.files quiet) ⟨by rw [kept], by rw [kept], by rw [kept]⟩ same

theorem saved_written (d : Deployment) (s : Sys) (cp : Checkpoint) (earlier : List Checkpoint)
    (latest : s.checkpoints = cp :: earlier) (named : d.interceptor.checkpointPath ≠ [])
    (file : d.files d.interceptor.checkpointPath = some cp.toJson) (fits : cp.Fits) : Saved d s := by
  refine ⟨cp, earlier, latest, ?_⟩
  have loaded : loadCheckpoint d.files d.interceptor.checkpointPath = (true, cp) := by
    rw [loadCheckpoint, if_neg named, file]
    exact read_checkpoint cp fits
  rw [Deployment.restart, Interceptor.create, loaded]
  rfl

theorem handed_own (d : Deployment) (n : Nat) (conn : Connection) (ic : Interceptor) (out : Outcome)
    (known : d.connections[n]? = some conn) :
    (d.handed n conn ic out).connections[n]? = some { conn with server := d.inst, fate := .handling } :=
  List.getElem?_set_self (List.getElem?_eq_some_iff.mp known).1

theorem held_earlier (d : Deployment) (s : Sys) (n : Nat) (conn : Connection) (ic : Interceptor) (out : Outcome)
    (mirrors : Mirrors d s) (known : d.connections[n]? = some conn) (seq object : Nat)
    (held : d.interceptor.pending[seq]? = some object) :
    ∃ other r, (d.handed n conn ic out).connections[object]? = some other ∧ s.requests[other.call]? = some r ∧ r.seq = seq ∧
      other.server = d.inst := by
  obtain ⟨other, r, there, named, right, here⟩ := mirrors.pending seq object held
  by_cases spot : n = object
  · subst spot
    rw [known] at there
    cases there
    exact ⟨_, r, handed_own d n conn ic out known, named, right, rfl⟩
  · exact ⟨other, r, (List.getElem?_set_ne spot).trans there, named, right, here⟩

-- Whoever is held under a seq, the arrived one included, posted the request with that seq.
theorem held_owner (d : Deployment) (s : Sys) (n : Nat) (conn : Connection) (ic : Interceptor) (out : Outcome)
    (req : Request) (mirrors : Mirrors d s) (known : d.connections[n]? = some conn)
    (issued : s.requests[conn.call]? = some req) (seq object : Nat) (held : (d.interceptor.pending.insert req.seq n)[seq]? = some object) :
    ∃ other r, (d.handed n conn ic out).connections[object]? = some other ∧ s.requests[other.call]? = some r ∧ r.seq = seq ∧
      other.server = d.inst := by
  rw [Std.ExtTreeMap.getElem?_insert] at held
  split at held
  · rename_i same
    cases held
    exact ⟨_, req, handed_own d n conn ic out known, issued, compare_eq_iff_eq.mp same, rfl⟩
  · exact held_earlier d s n conn ic out mirrors known seq object held

-- Responses of this call, and the ones there before.
theorem answered_wire (d : Deployment) (s : Sys) (app : AppFn) (req : Request) (mirrors : Mirrors d s) (sys : SysInv s)
    (issued : req ∈ s.requests) (inst : Nat) (resp : Response)
    (sent : (inst, resp) ∈ (s.answer req (s.server.onRequest app req)).responses) : resp.Wire d.interceptor.setHash := by
  have next := sys.client.next
  have few : s.client.nextSeq ≤ 2 ^ 63 := mirrors.client ▸ mirrors.few
  have after := answer_sys_inv s s.server req app sys issued sys.server (Nat.le_refl _)
  have count := event_count_bound s sys
  rcases (answer_sent s req _ inst resp).mp sent with old | ⟨_, new⟩
  · exact mirrors.responses inst resp old
  · have plain := (on_request_plain app s.server req).2 resp new
    rw [mirrors.server, mirrors.hash] at plain
    cases kind : resp.recover with
    | false =>
        have seq := (after.normal inst resp sent kind).1.2
        have within : resp.seq ≤ s.requests.length := seq
        have position := (plain kind).1
        exact ⟨⟨by omega, by omega⟩, plain⟩
    | true =>
        have recover := (on_request_recover_iff app s.server req).mp (List.any_eq_true.mpr ⟨resp, new, kind⟩)
        rw [on_request_refused app s.server req recover] at new
        have fits := issued_fits s sys few req issued
        rw [List.mem_singleton.mp new]
        refine ⟨⟨fits.seq, ?_⟩, fun other => Bool.noConfusion other⟩
        change s.server.history.eventCount < 2 ^ 64
        omega

theorem saved_after (walk : Walk) (d d' : Deployment) (s s' : Sys) (front written : List Effect) (core : Server)
    (saved : Saved d s) (done : d' = (front ++ written).foldl (Deployment.perform walk) d)
    (quiet : ∀ core, .writeCheckpoint core ∉ front)
    (shape : (written = [] ∧ s'.checkpoints = s.checkpoints) ∨
      (d.interceptor.checkpointPath ≠ [] ∧ written = [.writeCheckpoint core]) ∧
        s'.checkpoints = core.checkpoint walk :: s.checkpoints)
    (fits : (core.checkpoint walk).Fits) : Saved d' s' := by
  have performed := performed_all walk d front
  have same := performed_interceptor d _ front performed
  rcases shape with ⟨rfl, kept⟩ | ⟨⟨named, rfl⟩, added⟩
  · rw [List.append_nil] at done
    rw [done]
    exact saved_performed d _ s s' front saved performed quiet kept
  · rw [List.foldl_append] at done
    have after : d' = (front.foldl (Deployment.perform walk) d).perform walk (.writeCheckpoint core) := done
    have path : d'.interceptor.checkpointPath = d.interceptor.checkpointPath := by
      rw [after, ← same]
      rfl
    refine saved_written d' s' _ s.checkpoints added (path ▸ named) ?_ fits
    have file := write_checkpoint_file walk (front.foldl (Deployment.perform walk) d) core
    rw [same] at file
    rw [path, after]
    exact file

-- A request's POST reads back as the request.
theorem request_served (d : Deployment) (s : Sys) (n : Nat) (conn : Connection) (got : ServerRequest) (app : AppFn)
    (sys : SysInv s) (mirrors : Mirrors d s) (known : d.connections[n]? = some conn) (kind : conn.posting = .request)
    (delivered : DeliversRequest conn.lines conn.body got) : ∃ req, s.requests[conn.call]? = some req ∧
      d.interceptor.onRequest app n got = d.interceptor.serve app n req ∧
      Deployment.reaction d.interceptor app got = (d.interceptor.core.onRequest app req).2 ∧
      Deployment.superseded d.interceptor got = (d.interceptor.pending[req.seq]?.map Effect.abort).toList := by
  have few : s.client.nextSeq ≤ 2 ^ 63 := mirrors.client ▸ mirrors.few
  obtain ⟨req, issued, wired, _, _⟩ := mirrors.connections n conn known
  rw [kind] at wired
  have fits := issued_fits s sys few req (List.mem_of_getElem? issued)
  have sent : DeliversRequest (headerLines req) req.payload got := by
    rw [← (Prod.mk.inj wired).1, ← (Prod.mk.inj wired).2]
    exact delivered
  refine ⟨req, issued, ?_, ?_, ?_⟩
  · rw [Interceptor.onRequest, if_neg (not_not.mpr (plain_header req got sent)), parse_header_lines req got fits sent]
  · rw [Deployment.reaction, if_neg (not_not.mpr (plain_header req got sent)), parse_header_lines req got fits sent]
  · rw [Deployment.superseded, if_neg (not_not.mpr (plain_header req got sent)), parse_header_lines req got fits sent]

-- The POST held for a request's seq is one of its own call.
theorem timely_spares (d : Deployment) (s : Sys) (i : Nat) (req : Request) (o : Nat) (sys : SysInv s) (mirrors : Mirrors d s)
    (issued : s.requests[i]? = some req) (timely : d.Timely i .request) (held : d.interceptor.pending[req.seq]? = some o)
    (j : Nat) (call : SendCall) (there : d.calls[j]? = some call) : call.attempt ≠ some o := by
  intro waiting
  obtain ⟨holder, r, spot, named, right, _⟩ := mirrors.pending req.seq o held
  obtain ⟨other, same, own, _⟩ := mirrors.attempts j call o there waiting
  rw [spot] at same
  cases same
  have number := sys.client.numbered i req issued
  have number' := sys.client.numbered holder.call r named
  obtain rfl : i = j := by omega
  have mine : call.req = req := by
    rw [mirrors.requests, List.getElem?_map, there] at issued
    exact Option.some.inj issued
  exact timely call there o (mine ▸ held) waiting

-- Only the last effect of a call writes a checkpoint.
theorem early_effect (app : AppFn) (ic : Interceptor) (object : Nat) (creq : Request) (effects front written : List Effect)
    (shape : ServeEffects app ic object creq effects front written) (e : Effect) (done : e ∈ effects)
    (kind : ∀ core, e ≠ .writeCheckpoint core) : Front ic object creq (ic.core.onRequest app creq).2.responses e := by
  rw [shape.whole] at done
  rcases List.mem_append.mp done with first | second
  · exact shape.front e first
  · rcases shape.written with rfl | ⟨_, rfl⟩
    · cases second
    · exact absurd (List.mem_singleton.mp second) (kind _)

-- What was said in the call is a response of the system to that request.
theorem served_replies (d : Deployment) (s : Sys) (n : Nat) (conn : Connection) (app : AppFn) (req : Request) (out : Outcome)
    (effects front written : List Effect) (mirrors : Mirrors d s) (known : d.connections[n]? = some conn)
    (issued : s.requests[conn.call]? = some req) (shape : ServeEffects app d.interceptor n req effects front written)
    (o : Nat) (reply : ServerReply) (replied : .reply o reply ∈ effects) (other : Connection) (r : Request)
    (spot : (d.handed n conn (d.interceptor.serve app n req).1 out).connections[o]? = some other)
    (named : s.requests[other.call]? = some r) :
    GenuineReply d.interceptor.setHash (s.answer req (s.server.onRequest app req)) other.server r.seq reply := by
  have spoken (resp : Response) (among : resp ∈ (d.interceptor.core.onRequest app req).2.responses) :
      (d.inst, resp) ∈ (s.answer req (s.server.onRequest app req)).responses := by
    apply (answer_sent s req _ d.inst resp).mpr
    rw [mirrors.server]
    exact Or.inr ⟨mirrors.inst.symm, among⟩
  obtain ⟨resp, among, ⟨plain, held, rfl⟩ | ⟨signal, rfl, rfl⟩⟩ :=
    (early_effect app _ n req effects front written shape _ replied fun _ other => by cases other).replies o reply rfl
  · obtain ⟨holder, r', there, right, seq, here⟩ :=
      held_owner d s n conn (d.interceptor.serve app n req).1 out req mirrors known issued resp.seq o held
    rw [there] at spot
    cases spot
    rw [right] at named
    cases named
    rw [here]
    exact ⟨resp, spoken resp among, Or.inl ⟨plain, seq.symm, rfl⟩⟩
  · rw [handed_own d o conn _ out known] at spot
    cases spot
    exact ⟨resp, spoken resp among, Or.inr ⟨signal, rfl⟩⟩

-- The call does to the interceptor and the POSTs what the system's step does; how many
-- checkpoints the system has taken is left open.
theorem mirrors_served (d : Deployment) (s : Sys) (n : Nat) (conn : Connection) (app : AppFn) (walk : Walk) (req : Request)
    (effects front written : List Effect) (cps : List Checkpoint) (sys : SysInv s) (mirrors : Mirrors d s)
    (known : d.connections[n]? = some conn) (issued : s.requests[conn.call]? = some req)
    (shape : ServeEffects app d.interceptor n req effects front written) (timely : d.Timely conn.call .request)
    (hash : (d.interceptor.serve app n req).1.setHash = d.interceptor.setHash) :
    Mirrors (effects.foldl (Deployment.perform walk)
        (d.handed n conn (d.interceptor.serve app n req).1 (d.interceptor.core.onRequest app req).2))
      { s.answer req (s.server.onRequest app req) with checkpoints := cps } := by
  have owner := held_owner d s n conn (d.interceptor.serve app n req).1 (d.interceptor.core.onRequest app req).2 req mirrors
    known issued
  refine mirrors_arrive d _ s _ n conn (d.interceptor.serve app n req).1 (d.interceptor.core.onRequest app req).2 effects
    mirrors known (performed_all walk _ _) ⟨rfl, ?server, rfl, rfl, rfl⟩ ⟨?hashes, hash⟩ ?grown ?sound ?replies ?spared ?pending
    ?logged ?silent ?reported ?named
  case server =>
    rw [shape.core, ← mirrors.server]
    rfl
  case hashes =>
    rw [hash, shape.core, (on_request_plain app d.interceptor.core req).1]
    exact mirrors.hash
  case grown => exact fun inst resp old => (answer_sent s req _ inst resp).mpr (Or.inl old)
  case sound => exact answered_wire d s app req mirrors sys (List.mem_of_getElem? issued)
  case replies =>
    intro o reply replied other r spot named _
    exact served_replies d s n conn app req _ effects front written mirrors known issued shape o reply replied other r spot named
  case spared =>
    intro o cut
    have held := (early_effect app _ n req effects front written shape _ cut fun _ other => by cases other).aborts o rfl
    exact timely_spares d s conn.call req o sys mirrors issued timely held
  case pending => exact fun seq o found => owner seq o (shape.pending seq o found)
  case logged =>
    change (s.answer req (s.server.onRequest app req)).log.filterMap Obs.called = _
    rw [Sys.answer, List.filterMap_append, observed_called, mirrors.server]
  case silent =>
    change (s.answer req (s.server.onRequest app req)).log.filterMap Obs.handed = _
    rw [Sys.answer, List.filterMap_append, observed_handed, List.append_nil]
  case reported =>
    change (s.answer req (s.server.onRequest app req)).log.filterMap Obs.reported = _
    rw [Sys.answer, List.filterMap_append, observed_reported, mirrors.server]
  case named =>
    intro o reply replied
    obtain ⟨resp, _, ⟨_, _, rfl⟩ | ⟨_, _, rfl⟩⟩ :=
      (early_effect app _ n req effects front written shape _ replied fun _ other => by cases other).replies o reply rfl
    · exact complete_named _ resp
    · exact signal_named resp

theorem deployed_handle_request (clientHash serverHash : Bool) (d : Deployment) (n : Nat) (conn : Connection)
    (got : ServerRequest) (app : AppFn) (walk : Walk) (count : Nat) (known : d.connections[n]? = some conn)
    (kind : conn.posting = .request) (timely : d.Timely conn.call .request)
    (delivered : DeliversRequest conn.lines conn.body got) (sim : d.Simulated clientHash serverHash) :
    (d.handle n conn got app walk count).Simulated clientHash serverHash := by
  rw [handle_effects]
  obtain ⟨s, reach, mirrors, saved⟩ := sim
  have sys := stack_sys_inv _ _ s reach
  obtain ⟨req, issued, served, invokes, _⟩ := request_served d s n conn got app sys mirrors known kind delivered
  have config := on_request_config app d.interceptor n got
  rw [served] at config ⊢
  rw [invokes]
  obtain ⟨front, written, effects⟩ := serve_effects_take app d.interceptor n req count
  have mirrored (cps : List Checkpoint) :=
    mirrors_served d s n conn app walk req _ front written cps sys mirrors known issued effects timely config.1
  have taken : s.stackStep (.act (.request conn.call app)) = some (s.answer req (s.server.onRequest app req)) := by
    rw [Sys.stackStep, Sys.step, issued]
    rfl
  have next := reach.next (a := StackAction.act (.request conn.call app)) trivial taken
  have server : (s.server.onRequest app req).1 = (d.interceptor.serve app n req).1.core := by
    rw [effects.core, mirrors.server]
  have before : Saved (d.handed n conn (d.interceptor.serve app n req).1 (d.interceptor.core.onRequest app req).2) s :=
    saved_same d _ s s saved rfl config rfl
  have fits := checkpoint_fits _ walk (stack_sys_inv _ _ _ next) (mirrors.client ▸ mirrors.few : s.client.nextSeq ≤ 2 ^ 63)
  change ((s.server.onRequest app req).1.checkpoint walk).Fits at fits
  rw [server] at fits
  have quiet (core : Server) (inside : .writeCheckpoint core ∈ front) : False := (effects.front _ inside).writes core rfl
  rcases effects.written with none_ | ⟨named, one⟩
  · exact ⟨_, next, mirrored s.checkpoints,
      saved_after walk _ _ s _ front written _ before (by rw [effects.whole]) quiet (Or.inl ⟨none_, rfl⟩) fits⟩
  · have later := next.next (a := StackAction.act (.checkpoint walk)) trivial rfl
    have path : (d.handed n conn (d.interceptor.serve app n req).1
        (d.interceptor.core.onRequest app req).2).interceptor.checkpointPath ≠ [] := config.2.1 ▸ named
    refine ⟨_, later, mirrored _, saved_after walk _ _ s _ front written _ before (by rw [effects.whole]) quiet
      (Or.inr ⟨⟨path, one⟩, ?_⟩) fits⟩
    rw [← server]
    rfl

theorem replay_marked (d : Deployment) (s : Sys) (n : Nat) (conn : Connection) (got : ServerRequest) (fromIndex : Nat)
    (rp : Replay) (mirrors : Mirrors d s) (known : d.connections[n]? = some conn)
    (kind : conn.posting = .replay fromIndex rp) (delivered : DeliversRequest conn.lines conn.body got) :
    got.header (text "Color-Replay") ≠ [] := by
  obtain ⟨_, _, wired, asked, _⟩ := mirrors.connections n conn known
  rw [kind] at wired asked
  obtain ⟨position, inst, listed⟩ := asked
  have fits := (mirrors.replays inst rp listed).1
  apply replay_header fromIndex rp.toJson got (position ▸ fits.position)
  rw [← (Prod.mk.inj wired).1, ← (Prod.mk.inj wired).2]
  exact delivered

-- A replay's POST goes to OnReplay, which neither calls the application nor touches what is held.
theorem replay_unheard (d : Deployment) (s : Sys) (n : Nat) (conn : Connection) (got : ServerRequest) (app : AppFn)
    (fromIndex : Nat) (rp : Replay) (mirrors : Mirrors d s) (known : d.connections[n]? = some conn)
    (kind : conn.posting = .replay fromIndex rp) (delivered : DeliversRequest conn.lines conn.body got) :
    Deployment.reaction d.interceptor app got = {} ∧ Deployment.superseded d.interceptor got = [] := by
  have marked := replay_marked d s n conn got fromIndex rp mirrors known kind delivered
  exact ⟨if_pos marked, if_pos marked⟩

theorem deployed_handle_replay (clientHash serverHash : Bool) (d : Deployment) (n : Nat) (conn : Connection)
    (got : ServerRequest) (app : AppFn) (walk : Walk) (count : Nat) (fromIndex : Nat) (rp : Replay)
    (known : d.connections[n]? = some conn) (kind : conn.posting = .replay fromIndex rp)
    (timely : d.Timely conn.call (.replay fromIndex rp)) (delivered : DeliversRequest conn.lines conn.body got)
    (sim : d.Simulated clientHash serverHash) :
    (d.handle n conn got app walk count).Simulated clientHash serverHash := by
  rw [handle_effects]
  obtain ⟨s, reach, mirrors, saved⟩ := sim
  obtain ⟨req, issued, wired, asked, _⟩ := mirrors.connections n conn known
  rw [kind] at wired asked
  obtain ⟨position, inst, listed⟩ := asked
  obtain ⟨fits, bare⟩ := mirrors.replays _ rp listed
  obtain ⟨index, place⟩ := List.mem_iff_getElem?.mp listed
  have sent : DeliversRequest (recoverLines fromIndex) rp.toJson got := by
    rw [← (Prod.mk.inj wired).1, ← (Prod.mk.inj wired).2]
    exact delivered
  have served : d.interceptor.onRequest app n got = d.interceptor.onReplay n got := by
    rw [Interceptor.onRequest, if_pos (replay_marked d s n conn got fromIndex rp mirrors known kind delivered)]
  have config := on_request_config app d.interceptor n got
  have decoded : (fromJsonReplay got.readBody).2 = rp := by
    rw [ServerRequest.readBody, sent.whole, read_replay rp fits bare]
  have core : (d.interceptor.onReplay n got).1.core = s.server.ingestReplay rp := by
    rw [mirrors.server, Interceptor.onReplay, decoded]
  have hash : (d.interceptor.onReplay n got).1.core.setHash = d.interceptor.setHash := by
    rw [core, ingest_replay_hash, mirrors.server]
    exact mirrors.hash
  rw [served] at config ⊢
  have start : rp.fromIndex ≤ s.server.history.eventCount := by
    rw [mirrors.server, ← position]
    exact timely
  have taken : s.stackStep (.replay index) = some { s with server := s.server.ingestReplay rp } := by
    rw [Sys.stackStep, place, Option.bind_some, if_pos start]
  have quiet := (replay_unheard d s n conn got app fromIndex rp mirrors known kind delivered).1
  generalize Deployment.reaction d.interceptor app got = out at *
  have performed := performed_all walk (d.handed n conn (d.interceptor.onReplay n got).1 out)
    ((d.interceptor.onReplay n got).2.take count)
  refine ⟨_, reach.next (a := StackAction.replay index) trivial taken, ?_, ?_⟩
  · refine mirrors_arrive d _ s { s with server := s.server.ingestReplay rp } n conn (d.interceptor.onReplay n got).1 out _
      mirrors known performed ⟨rfl, core.symm, rfl, rfl, rfl⟩ ⟨hash, rfl⟩ (fun _ _ => id) mirrors.responses
      (fun o reply replied other r spot named posting => ?_)
      (fun o cut => by cases List.mem_singleton.mp (List.mem_of_mem_take cut))
      (fun seq object held => held_earlier d s n conn _ out mirrors known seq object held)
      (by rw [quiet, List.append_nil]) rfl (by rw [quiet, List.append_nil]) (fun o reply replied => ?_)
    · cases List.mem_singleton.mp (List.mem_of_mem_take replied)
      rw [handed_own d n conn _ out known] at spot
      cases spot
      rw [kind] at posting
      cases posting
    · cases List.mem_singleton.mp (List.mem_of_mem_take replied)
      exact set_named _ _ _ (by simp [replyNames]) (fun _ _ absent => by cases absent)
  · have before : Saved (d.handed n conn (d.interceptor.onReplay n got).1 out) s := saved_same d _ s s saved rfl config rfl
    refine saved_performed _ _ s _ _ before performed (fun core inside => ?_) rfl
    cases List.mem_singleton.mp (List.mem_of_mem_take inside)

theorem deployed_handle (clientHash serverHash : Bool) (d : Deployment) (n : Nat) (conn : Connection) (got : ServerRequest)
    (app : AppFn) (walk : Walk) (count : Nat) (known : d.connections[n]? = some conn)
    (delivered : DeliversRequest conn.lines conn.body got) (timely : d.Timely conn.call conn.posting)
    (sim : d.Simulated clientHash serverHash) : (d.handle n conn got app walk count).Simulated clientHash serverHash := by
  cases kind : conn.posting with
  | request =>
      exact deployed_handle_request clientHash serverHash d n conn got app walk count known kind (kind ▸ timely) delivered sim
  | replay fromIndex rp =>
      exact deployed_handle_replay clientHash serverHash d n conn got app walk count fromIndex rp known kind
        (kind ▸ timely) delivered sim

theorem create_live (files files' : Files) (setHash : Bool) (path : Path) (every : Nat) (same : files path = files' path) :
    Interceptor.create files setHash path every = Interceptor.create files' setHash path every := by
  rw [Interceptor.create, Interceptor.create, loadCheckpoint, loadCheckpoint, same]

-- What a dying process leaves in the temp file is not what the next one reads.
theorem deployed_interrupt (clientHash serverHash : Bool) (d : Deployment) (walk : Walk) (bytes : Nat) (e : Option Effect)
    (sim : d.Simulated clientHash serverHash) : (d.interrupt walk bytes e).Simulated clientHash serverHash := by
  unfold Deployment.interrupt
  split
  · rename_i core
    obtain ⟨s, reach, mirrors, earlier, older, latest, restored⟩ := sim
    refine ⟨s, reach, ⟨mirrors.client, mirrors.server, mirrors.inst, mirrors.requests, mirrors.few, mirrors.hash,
      mirrors.responses, mirrors.replays, mirrors.calls, mirrors.connections, mirrors.attempts, mirrors.waited,
      mirrors.pending, mirrors.answers, mirrors.invoked, mirrors.delivered, mirrors.mismatched, mirrors.named⟩, earlier,
      older, latest, ?_⟩
    have live : d.files.put (tempPath d.interceptor.checkpointPath) (some ((core.checkpoint walk).toJson.take bytes))
        d.interceptor.checkpointPath = d.files d.interceptor.checkpointPath :=
      put_other _ _ _ _ fun same => temp_path_ne _ same.symm
    rw [← restored]
    exact congrArg Interceptor.core (create_live _ d.files _ _ _ live)
  · exact sim

theorem deployed_die (clientHash serverHash : Bool) (d d' : Deployment) (n : Nat) (got : ServerRequest) (app : AppFn)
    (walk : Walk) (count bytes : Nat) (orderly : d.Orderly (.die n got app walk count bytes))
    (taken : d.die n got app walk count bytes = some d') (sim : d.Simulated clientHash serverHash) :
    d'.Simulated clientHash serverHash := by
  obtain ⟨conn, known, rfl⟩ := die_cases d d' n got app walk count bytes taken
  obtain ⟨delivered, timely⟩ := orderly conn known
  have handled := deployed_handle clientHash serverHash d n conn got app walk count known delivered timely sim
  exact deployed_crash clientHash serverHash _ (deployed_interrupt clientHash serverHash _ walk bytes _ handled)

-- ---- a server that falls inside on_request ----

theorem witnessed_called (s : Sys) (out : Outcome) :
    (s.witnessed out).log.filterMap Obs.called = s.log.filterMap Obs.called ++ out.calls := by
  rw [Sys.witnessed, List.filterMap_append, List.filterMap_append, invoked_called, reports_called, List.append_nil]

theorem witnessed_handed (s : Sys) (out : Outcome) :
    (s.witnessed out).log.filterMap Obs.handed = s.log.filterMap Obs.handed := by
  rw [Sys.witnessed, List.filterMap_append, List.filterMap_append, invoked_handed, reports_handed, List.append_nil,
    List.append_nil]

theorem witnessed_reported (s : Sys) (out : Outcome) :
    (s.witnessed out).log.filterMap Obs.reported = s.log.filterMap Obs.reported ++ out.mismatches := by
  rw [Sys.witnessed, List.filterMap_append, List.filterMap_append, invoked_reported, reports_reported, List.append_nil]

theorem superseded_aborts (ic : Interceptor) (got : ServerRequest) (e : Effect) (member : e ∈ Deployment.superseded ic got) :
    ∃ o, e = .abort o := by
  rw [Deployment.superseded] at member
  split at member
  · cases member
  · obtain ⟨o, _, rfl⟩ := Option.map_eq_some_iff.mp (Option.mem_toList.mp member)
    exact ⟨o, rfl⟩

-- The system took the same calls and reports; the interceptor is as it was.
theorem mirrors_stricken (d : Deployment) (s : Sys) (n : Nat) (conn : Connection) (got : ServerRequest) (out : Outcome)
    (mirrors : Mirrors d s) (known : d.connections[n]? = some conn)
    (spared : ∀ o, .abort o ∈ Deployment.superseded d.interceptor got → ∀ (i : Nat) call, d.calls[i]? = some call →
      call.attempt ≠ some o) : Mirrors (d.stricken n conn got out) (s.witnessed out) := by
  refine mirrors_arrive d _ s (s.witnessed out) n conn d.interceptor out _ mirrors known (performed_all .ascending _ _)
    ⟨rfl, mirrors.server, rfl, rfl, rfl⟩ ⟨mirrors.hash, rfl⟩ (fun _ _ => id) mirrors.responses ?_ spared
    (fun seq object held => held_earlier d s n conn _ out mirrors known seq object held) (witnessed_called s out)
    (witnessed_handed s out) (witnessed_reported s out) ?_
  · intro o reply replied
    obtain ⟨_, other⟩ := superseded_aborts d.interceptor got _ replied
    cases other
  · intro o reply replied
    obtain ⟨_, other⟩ := superseded_aborts d.interceptor got _ replied
    cases other

theorem saved_stricken (d : Deployment) (s : Sys) (n : Nat) (conn : Connection) (got : ServerRequest) (out : Outcome)
    (saved : Saved d s) : Saved (d.stricken n conn got out) (s.witnessed out) := by
  have handed : Saved (d.handed n conn d.interceptor out) s := saved_same d _ s s saved rfl ⟨rfl, rfl, rfl⟩ rfl
  refine saved_performed _ _ s _ _ handed (performed_all .ascending _ (Deployment.superseded d.interceptor got))
    (fun core inside => ?_) rfl
  obtain ⟨o, other⟩ := superseded_aborts d.interceptor got _ inside
  cases other

-- What the next server finds is the latest checkpoint, whatever was under way.
theorem stricken_crash (d : Deployment) (s : Sys) (n : Nat) (conn : Connection) (got : ServerRequest) (out : Outcome)
    (mirrors : Mirrors (d.stricken n conn got out) (s.witnessed out))
    (saved : Saved (d.stricken n conn got out) (s.witnessed out)) :
    ∃ cp, s.checkpoints[0]? = some cp ∧
      let s' := { s.witnessed out with
        server := .ofCheckpoint cp d.interceptor.setHash, inst := s.inst + 1, restored := cp }
      Mirrors (d.stricken n conn got out).crash s' ∧ Saved (d.stricken n conn got out).crash s' := by
  obtain ⟨cp, earlier, latest, restored⟩ := saved
  have same : (d.stricken n conn got out).interceptor = d.interceptor :=
    performed_interceptor (d.handed n conn d.interceptor out) _ _ (performed_all .ascending _ _)
  have first : s.checkpoints[0]? = some cp := by
    change (s.witnessed out).checkpoints[0]? = _
    rw [latest]
    rfl
  have next := mirrors_crash _ _ cp earlier mirrors latest restored
  rw [same] at next
  exact ⟨cp, first, next⟩

theorem deployed_fall (clientHash serverHash : Bool) (d d' : Deployment) (n : Nat) (got : ServerRequest) (app : AppFn)
    (calls reports : Nat) (orderly : d.Orderly (.fall n got app calls reports))
    (taken : d.fall n got app calls reports = some d') (sim : d.Simulated clientHash serverHash) :
    d'.Simulated clientHash serverHash := by
  obtain ⟨conn, known, rfl⟩ := fall_cases d d' n got app calls reports taken
  obtain ⟨delivered, timely⟩ := orderly conn known
  obtain ⟨s, reach, mirrors, saved⟩ := sim
  have sys := stack_sys_inv _ _ s reach
  cases kind : conn.posting with
  | request =>
      obtain ⟨req, issued, _, invokes, aborts⟩ := request_served d s n conn got app sys mirrors known kind delivered
      have stricken := mirrors_stricken d s n conn got ((d.interceptor.core.onRequest app req).2.cut calls reports) mirrors
        known fun o cut => by
          rw [aborts] at cut
          obtain ⟨_, held, same⟩ := Option.map_eq_some_iff.mp (Option.mem_toList.mp cut)
          cases same
          exact timely_spares d s conn.call req o sys mirrors issued (kind ▸ timely) held
      obtain ⟨cp, latest, next⟩ := stricken_crash d s n conn got _ stricken (saved_stricken d s n conn got _ saved)
      rw [invokes]
      rw [← mirrors.server] at next ⊢
      have fell : s.stackStep (.fall conn.call app calls reports d.interceptor.setHash) =
          some { s.witnessed ((s.server.onRequest app req).2.cut calls reports) with
            server := .ofCheckpoint cp d.interceptor.setHash, inst := s.inst + 1, restored := cp } := by
        rw [Sys.stackStep, issued, Option.bind_some, Sys.step]
        change s.checkpoints[0]?.map _ = _
        rw [latest]
        rfl
      exact ⟨_, reach.next (a := StackAction.fall conn.call app calls reports d.interceptor.setHash) trivial fell, next⟩
  | replay fromIndex rp =>
      obtain ⟨quiet, spared⟩ := replay_unheard d s n conn got app fromIndex rp mirrors known kind delivered
      rw [quiet]
      have stricken := mirrors_stricken d s n conn got (({} : Outcome).cut calls reports) mirrors known fun o cut => by
        rw [spared] at cut
        cases cut
      obtain ⟨cp, latest, next⟩ := stricken_crash d s n conn got _ stricken (saved_stricken d s n conn got _ saved)
      have silent : s.witnessed (({} : Outcome).cut calls reports) = s := by simp [Sys.witnessed, Outcome.cut]
      rw [silent] at next
      have crashed : s.stackStep (.act (.crash 0 d.interceptor.setHash)) =
          some { s with server := .ofCheckpoint cp d.interceptor.setHash, inst := s.inst + 1, restored := cp } := by
        rw [Sys.stackStep, Sys.step, latest]
        rfl
      exact ⟨_, reach.next (a := StackAction.act (.crash 0 d.interceptor.setHash)) rfl crashed, next⟩

theorem deployed_step (clientHash serverHash : Bool) (d d' : Deployment) (a : DeployAction) (orderly : d.Orderly a)
    (taken : d.step a = some d') (sim : d.Simulated clientHash serverHash) : d'.Simulated clientHash serverHash := by
  cases a with
  | start payload =>
      cases taken
      exact deployed_start clientHash serverHash d payload orderly sim
  | post i => exact deployed_post clientHash serverHash d d' i taken sim
  | arrive n got app walk =>
      obtain ⟨conn, known, _, rfl⟩ := arrive_cases d d' n got app walk taken
      obtain ⟨delivered, timely⟩ := orderly conn known
      exact deployed_handle clientHash serverHash d n conn got app walk _ known delivered timely sim
  | receive n res => exact deployed_receive clientHash serverHash d d' n res orderly taken sim
  | giveUp i => exact deployed_give_up clientHash serverHash d d' i taken sim
  | crash =>
      cases taken
      exact deployed_crash clientHash serverHash d sim
  | fall n got app calls reports =>
      exact deployed_fall clientHash serverHash d d' n got app calls reports orderly taken sim
  | die n got app walk count bytes =>
      exact deployed_die clientHash serverHash d d' n got app walk count bytes orderly taken sim

theorem deployed_simulated (clientHash serverHash : Bool) (checkpointPath : Path) (checkpointEvery : Nat) (d : Deployment)
    (reach : DeployReach clientHash serverHash checkpointPath checkpointEvery d) : d.Simulated clientHash serverHash :=
  reach.invariant (Deployment.Simulated clientHash serverHash)
    (deployed_create clientHash serverHash checkpointPath checkpointEvery)
    (fun d a d' sim orderly taken => deployed_step clientHash serverHash d d' a orderly taken sim)

end Color
