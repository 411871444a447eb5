import Color.ClientHistory
import Color.RequestStream
import Color.Library.Transition

set_option autoImplicit false

namespace Color

-- What can be observed of a run, oldest first: requests accepted and
-- application calls by server instance, first receipts, mismatch callbacks.
inductive Obs where
  | accepted (inst : Nat) (req : Request)
  | invoked (inst : Nat) (call : Call)
  | received (resp : Response)
  | mismatch (m : Mismatch)
deriving DecidableEq, Repr

-- One client, the current server instance, and everything ever put on the
-- network. Nothing is taken off it, so any copy may arrive again or never.
structure Sys where
  client : Client
  server : Server
  inst : Nat := 0
  requests : List Request := []
  responses : List (Nat × Response) := []
  replays : List (Nat × Replay) := []
  checkpoints : List Checkpoint
  restored : Checkpoint
  log : List Obs := []

def Sys.init (clientHash serverHash : Bool) : Sys :=
  { client := .fresh clientHash
    server := .start none serverHash
    checkpoints := [(Server.start none serverHash).checkpoint .ascending]
    restored := (Server.start none serverHash).checkpoint .ascending }

-- Indices point into the network and into the checkpoints, latest first.
inductive Action where
  | generate (payload : Payload)
  | request (index : Nat) (app : AppFn)
  | exchange (index : Nat) (app : AppFn)
  | response (index : Nat)
  | buildReplay (index : Nat)
  | replay (index : Nat)
  | checkpoint (walk : Walk)
  | crash (index : Nat) (setHash : Bool)

-- The recovery loop of the verification harness: while the only response is a
-- recovery signal, replay the client's history and hand the request in again.
def harnessRetry (client : Client) (app : AppFn) (req : Request) : Nat → Server × Outcome → Server × Outcome
  | 0, answer => answer
  | guard + 1, (sv, out) =>
      match out.responses with
      | [resp] =>
          if resp.recover then
            harnessRetry client app req guard
              ((sv.ingestReplay (client.buildReplay resp.recoverFrom)).onRequest app req)
          else (sv, out)
      | _ => (sv, out)

def harnessExchange (client : Client) (app : AppFn) (req : Request) (sv : Server) : Server × Outcome :=
  harnessRetry client app req 8 (sv.onRequest app req)

def observed (inst : Nat) (req : Request) (out : Outcome) : List Obs :=
  (if out.responses.any Response.recover then [] else [Obs.accepted inst req]) ++
    out.calls.map (Obs.invoked inst) ++ out.mismatches.map Obs.mismatch

def Sys.answer (s : Sys) (req : Request) (result : Server × Outcome) : Sys :=
  { s with
    server := result.1
    responses := s.responses ++ result.2.responses.map (fun resp => (s.inst, resp))
    log := s.log ++ observed s.inst req result.2 }

theorem answer_sent (s : Sys) (req : Request) (result : Server × Outcome) (inst : Nat) (resp : Response) :
    (inst, resp) ∈ (s.answer req result).responses ↔
      (inst, resp) ∈ s.responses ∨ inst = s.inst ∧ resp ∈ result.2.responses := by
  simp [Sys.answer, eq_comm, and_comm]

def Sys.deliver (s : Sys) (resp : Response) : Sys :=
  let (receipt, client) := s.client.onResponse resp
  { s with
    client := client
    log := s.log ++ (if receipt.first then [Obs.received resp] else []) ++ (receipt.mismatch.map Obs.mismatch).toList }

-- A recovery signal is never handed to on_response: the transports answer it
-- with a replay for the instance that sent it.
def Sys.step (s : Sys) : Action → Option Sys
  | .generate p =>
      let (r, client) := s.client.generateRequest p
      some { s with client := client, requests := s.requests ++ [r] }
  | .request index app => s.requests[index]?.map (fun req => s.answer req (s.server.onRequest app req))
  | .exchange index app => s.requests[index]?.map (fun req => s.answer req (harnessExchange s.client app req s.server))
  | .response index =>
      s.responses[index]?.bind (fun sent => if sent.2.recover then none else some (s.deliver sent.2))
  | .buildReplay index =>
      s.responses[index]?.bind (fun sent =>
        if sent.2.recover then some { s with replays := s.replays ++ [(sent.1, s.client.buildReplay sent.2.recoverFrom)] }
        else none)
  | .replay index =>
      s.replays[index]?.bind (fun sent =>
        if sent.1 = s.inst then some { s with server := s.server.ingestReplay sent.2 } else none)
  | .checkpoint walk => some { s with checkpoints := s.server.checkpoint walk :: s.checkpoints }
  | .crash index setHash =>
      s.checkpoints[index]?.map (fun cp =>
        { s with server := .ofCheckpoint cp setHash, inst := s.inst + 1, restored := cp })

-- Every action, with replays of their own and any earlier checkpoint.
def anyAction (_ : Sys) (_ : Action) : Prop := True

-- Every action, but a crash restores the last checkpoint taken.
def latestCrash (_ : Sys) : Action → Prop
  | .crash index _ => index = 0
  | _ => True

-- The actions of the harness: handshakes are completed on the spot, and a
-- crash restores the last checkpoint taken.
def harnessAction (_ : Sys) : Action → Prop
  | .request _ _ | .buildReplay _ | .replay _ => False
  | .crash index _ => index = 0
  | _ => True

def noCrash (_ : Sys) : Action → Prop
  | .crash _ _ => False
  | _ => True

instance (s : Sys) (a : Action) : Decidable (anyAction s a) := isTrue trivial

instance (s : Sys) : (a : Action) → Decidable (latestCrash s a)
  | .crash index _ => inferInstanceAs (Decidable (index = 0))
  | .generate _ | .request _ _ | .exchange _ _ | .response _ | .buildReplay _ | .replay _ | .checkpoint _ => isTrue trivial

instance (s : Sys) : (a : Action) → Decidable (harnessAction s a)
  | .crash index _ => inferInstanceAs (Decidable (index = 0))
  | .request _ _ | .buildReplay _ | .replay _ => isFalse id
  | .generate _ | .exchange _ _ | .response _ | .checkpoint _ => isTrue trivial

instance (s : Sys) : (a : Action) → Decidable (noCrash s a)
  | .crash _ _ => isFalse id
  | .generate _ | .request _ _ | .exchange _ _ | .response _ | .buildReplay _ | .replay _ | .checkpoint _ => isTrue trivial

abbrev Reachable (guard : Sys → Action → Prop) (clientHash serverHash : Bool) : Sys → Prop :=
  Transition.Reach Sys.step guard (Sys.init clientHash serverHash)

@[simp] theorem invoked_mem_observed (g inst : Nat) (c : Call) (req : Request) (out : Outcome) :
    Obs.invoked g c ∈ observed inst req out ↔ g = inst ∧ c ∈ out.calls := by
  by_cases refused : out.responses.any Response.recover <;> simp [observed, refused, eq_comm, and_comm]

@[simp] theorem accepted_mem_observed (g inst : Nat) (r req : Request) (out : Outcome) :
    Obs.accepted g r ∈ observed inst req out ↔ (g = inst ∧ r = req) ∧ ¬ out.responses.any Response.recover := by
  by_cases refused : out.responses.any Response.recover <;> simp [observed, refused]

@[simp] theorem mismatch_mem_observed (m : Mismatch) (inst : Nat) (req : Request) (out : Outcome) :
    Obs.mismatch m ∈ observed inst req out ↔ m ∈ out.mismatches := by
  by_cases refused : out.responses.any Response.recover <;> simp [observed, refused]

@[simp] theorem received_mem_observed (resp : Response) (inst : Nat) (req : Request) (out : Outcome) :
    Obs.received resp ∉ observed inst req out := by
  by_cases refused : out.responses.any Response.recover <;> simp [observed, refused]

theorem on_response_first (c : Client) (resp : Response) : (c.onResponse resp).1.first = !decide (resp.seq ∈ c.received) := by
  rw [Client.onResponse]
  split <;> simp [*]

theorem deliver_log (s : Sys) (resp : Response) (o : Obs) :
    o ∈ (s.deliver resp).log ↔ o ∈ s.log ∨ (resp.seq ∉ s.client.received ∧ o = .received resp) ∨
      ∃ m, (s.client.onResponse resp).1.mismatch = some m ∧ o = .mismatch m := by
  change o ∈ s.log ++ (if (s.client.onResponse resp).1.first then [Obs.received resp] else []) ++
    ((s.client.onResponse resp).1.mismatch.map Obs.mismatch).toList ↔ _
  rw [on_response_first]
  by_cases duplicate : resp.seq ∈ s.client.received <;>
    cases mismatch : (s.client.onResponse resp).1.mismatch <;> simp [duplicate]

def Sys.after (guard : Sys → Action → Prop) [∀ s a, Decidable (guard s a)] (clientHash serverHash : Bool)
    (actions : List Action) : Sys :=
  Transition.follow Sys.step guard actions (Sys.init clientHash serverHash)

theorem reachable_after (guard : Sys → Action → Prop) [∀ s a, Decidable (guard s a)] (clientHash serverHash : Bool)
    (actions : List Action) : Reachable guard clientHash serverHash (Sys.after guard clientHash serverHash actions) :=
  Transition.Reach.follow actions .refl

-- The server on which a request is finally handled: replays are ingested
-- while it asks for them.
def Client.settle (client : Client) (req : Request) : Nat → Server → Server
  | 0, sv => sv
  | guard + 1, sv =>
      if sv.needsRecover req then
        client.settle req guard (sv.ingestReplay (client.buildReplay sv.history.eventCount))
      else sv

theorem drain_not_recover (app : AppFn) (fuel : Nat) (sv : Server) :
    ∀ resp ∈ (sv.drain app fuel).2.responses, resp.recover = false := by
  have rule := drain_rule app (fun _ out => ∀ resp ∈ out.responses, resp.recover = false)
    (fun sv out r before _ resp member => by
      cases List.mem_append.mp member with
      | inl old => exact before resp old
      | inr new =>
          rw [List.mem_singleton.mp new]
          rfl) fuel sv {} (by simp)
  exact rule

theorem on_request_recover_iff (app : AppFn) (sv : Server) (req : Request) :
    (sv.onRequest app req).2.responses.any Response.recover = true ↔ sv.needsRecover req := by
  by_cases recover : sv.needsRecover req
  · simp [on_request_refused app sv req recover, recover, Server.recoverySignal]
  · have normal : ∀ resp ∈ (sv.onRequest app req).2.responses, resp.recover = false := by
      apply on_request_rule (fun _ out => ∀ resp ∈ out.responses, resp.recover = false)
      · exact fun refused => absurd refused recover
      · intro _ _
        apply answer_committed_rule (fun _ out => ∀ resp ∈ out.responses, resp.recover = false) <;>
          simp [Server.makeResponse, Server.process]
      · exact fun _ _ => drain_not_recover app _ _
    simp only [recover, iff_false, Bool.not_eq_true, List.any_eq_false]
    exact fun resp member => by simp [normal resp member]

theorem harness_retry_settle (client : Client) (app : AppFn) (req : Request) (guard : Nat) (sv : Server) :
    harnessRetry client app req guard (sv.onRequest app req) = (client.settle req guard sv).onRequest app req := by
  induction guard generalizing sv with
  | zero => rfl
  | succ guard ih =>
      by_cases recover : sv.needsRecover req
      · rw [on_request_refused app sv req recover, harnessRetry, Client.settle, if_pos recover]
        exact ih _
      · have kept := on_request_recover_iff app sv req
        rw [Client.settle, if_neg recover, harnessRetry]
        split
        · rename_i resp shape
          have normal : resp.recover = false := by simpa [shape, recover] using kept
          simp [normal]
        · rfl

theorem harness_exchange_settle (client : Client) (app : AppFn) (req : Request) (sv : Server) :
    harnessExchange client app req sv = (client.settle req 8 sv).onRequest app req :=
  harness_retry_settle client app req 8 sv

theorem settle_accepted (c : Client) (req : Request) (rounds : Nat) (sv : Server) (accepted : ¬ sv.needsRecover req) :
    c.settle req rounds sv = sv := by
  cases rounds with
  | zero => rfl
  | succ rounds => rw [Client.settle, if_neg accepted]

theorem settle_rule (P : Server → Prop) (client : Client) (req : Request)
    (ingest : ∀ sv, P sv → sv.needsRecover req → P (sv.ingestReplay (client.buildReplay sv.history.eventCount)))
    (guard : Nat) (sv : Server) (before : P sv) : P (client.settle req guard sv) := by
  induction guard generalizing sv with
  | zero => exact before
  | succ guard ih =>
      rw [Client.settle]
      split
      · rename_i recover
        exact ih _ (ingest sv before recover)
      · exact before

-- The request a step hands to on_request for good, and the server that takes it.
def Sys.accepting (s : Sys) : Action → Option (Server × Request)
  | .request index _ => s.requests[index]?.map (fun req => (s.server, req))
  | .exchange index _ => s.requests[index]?.map (fun req => (s.client.settle req 8 s.server, req))
  | _ => none

inductive Sys.Effect (s : Sys) (a : Action) : Sys → Prop where
  | generated (p : Payload) (kind : a = .generate p) :
      Effect s a { s with
        client := (s.client.generateRequest p).2
        requests := s.requests ++ [(s.client.generateRequest p).1] }
  | answered (req : Request) (app : AppFn) (rounds : Nat) (member : req ∈ s.requests)
      (accepting : s.accepting a = some (s.client.settle req rounds s.server, req)) :
      Effect s a (s.answer req ((s.client.settle req rounds s.server).onRequest app req))
  | delivered (index inst : Nat) (resp : Response) (kind : a = .response index)
      (sent : s.responses[index]? = some (inst, resp)) (normal : resp.recover = false) : Effect s a (s.deliver resp)
  | built (inst : Nat) (resp : Response) (sent : (inst, resp) ∈ s.responses) (signal : resp.recover = true) :
      Effect s a { s with replays := s.replays ++ [(inst, s.client.buildReplay resp.recoverFrom)] }
  | ingested (index : Nat) (rp : Replay) (kind : a = .replay index) (sent : (s.inst, rp) ∈ s.replays) :
      Effect s a { s with server := s.server.ingestReplay rp }
  | saved (walk : Walk) : Effect s a { s with checkpoints := s.server.checkpoint walk :: s.checkpoints }
  | restored (index : Nat) (setHash : Bool) (cp : Checkpoint) (kind : a = .crash index setHash)
      (found : s.checkpoints[index]? = some cp) :
      Effect s a { s with server := .ofCheckpoint cp setHash, inst := s.inst + 1, restored := cp }

theorem step_effect (s s' : Sys) (a : Action) (taken : s.step a = some s') : s.Effect a s' := by
  cases a with
  | generate p =>
      cases Option.some.inj taken
      exact .generated p rfl
  | request index app =>
      obtain ⟨req, found, eq⟩ := Option.map_eq_some_iff.mp taken
      subst eq
      exact .answered req app 0 (List.mem_of_getElem? found) (by rw [Sys.accepting, found]; rfl)
  | exchange index app =>
      obtain ⟨req, found, eq⟩ := Option.map_eq_some_iff.mp taken
      rw [harness_exchange_settle] at eq
      subst eq
      exact .answered req app 8 (List.mem_of_getElem? found) (by rw [Sys.accepting, found]; rfl)
  | response index =>
      obtain ⟨⟨inst, resp⟩, found, eq⟩ := Option.bind_eq_some_iff.mp taken
      cases kind : resp.recover with
      | true => simp [kind] at eq
      | false =>
          simp only [kind, Bool.false_eq_true, if_false, Option.some.injEq] at eq
          subst eq
          exact .delivered index inst resp rfl found kind
  | buildReplay index =>
      obtain ⟨⟨inst, resp⟩, found, eq⟩ := Option.bind_eq_some_iff.mp taken
      cases kind : resp.recover with
      | true =>
          simp only [kind, if_true, Option.some.injEq] at eq
          subst eq
          exact .built inst resp (List.mem_of_getElem? found) kind
      | false => simp [kind] at eq
  | replay index =>
      obtain ⟨⟨inst, rp⟩, found, eq⟩ := Option.bind_eq_some_iff.mp taken
      by_cases current : inst = s.inst
      · subst current
        simp only [if_true, Option.some.injEq] at eq
        subst eq
        exact .ingested index rp rfl (List.mem_of_getElem? found)
      · simp [current] at eq
  | checkpoint walk =>
      cases Option.some.inj taken
      exact .saved walk
  | crash index setHash =>
      obtain ⟨cp, found, eq⟩ := Option.map_eq_some_iff.mp taken
      subst eq
      exact .restored index setHash cp rfl found

end Color
