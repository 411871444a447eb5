import Color.Client

set_option autoImplicit false

namespace Color

-- An application may answer differently at every invocation: every call of
-- on_request below takes the application to use for it.
abbrev AppFn := Nat → Payload → History → Payload

structure Call where
  seq : Nat
  payload : Payload
  committed : History
  result : Payload
deriving DecidableEq, Repr

-- The responses on_request returns, with the app_ and on_mismatch_ calls it made, in order.
@[ext]
structure Outcome where
  responses : List Response := []
  calls : List Call := []
  mismatches : List Mismatch := []
deriving DecidableEq, Repr

instance : Append Outcome where
  append a b := ⟨a.responses ++ b.responses, a.calls ++ b.calls, a.mismatches ++ b.mismatches⟩

@[simp] theorem outcome_append_responses (a b : Outcome) : (a ++ b).responses = a.responses ++ b.responses := rfl
@[simp] theorem outcome_append_calls (a b : Outcome) : (a ++ b).calls = a.calls ++ b.calls := rfl
@[simp] theorem outcome_append_mismatches (a b : Outcome) : (a ++ b).mismatches = a.mismatches ++ b.mismatches := rfl

structure Server where
  setHash : Bool
  committedUpto : Nat := 0
  pendingReqs : SeqMap Request := ∅
  reqHash : SeqMap Hash := ∅
  respBuffer : SeqMap Payload := ∅
  awaiting : Finset Nat := ∅
  appCalls : SeqMap Nat := ∅
  history : History := {}
  maxRespBuffer : Nat := 0
  maxPending : Nat := 0

def Server.ofCheckpoint (cp : Checkpoint) (setHash : Bool) : Server :=
  { setHash := setHash
    committedUpto := cp.committedUpto
    history := .resume cp.historyHash cp.eventCount
    respBuffer := cp.buffer.foldl (fun m b => m.insert b.seq b.payload) ∅
    reqHash := cp.buffer.foldl (fun m b => m.insert b.seq b.hash) ∅ }

def Server.needsRecover (sv : Server) (req : Request) : Prop :=
  req.ackBase > sv.committedUpto + 1 ∨ ∃ i ∈ req.ackNew, i > sv.committedUpto

instance (sv : Server) (req : Request) : Decidable (sv.needsRecover req) :=
  inferInstanceAs (Decidable (_ ∨ _))

def Server.makeResponse (sv : Server) (seq : Nat) (payload : Payload) (noOp : Bool) : Response :=
  { seq := seq, payload := payload, noOp := noOp, hash := if sv.setHash then sv.reqHash[seq]? else none }

def Server.releaseAcked (sv : Server) (req : Request) : Server :=
  let kept := sv.respBuffer.filter (fun seq _ => !decide (seq < req.ackBase))
  { sv with respBuffer := req.ackNew.foldl (fun m i => m.erase i) kept }

def Server.trackBounds (sv : Server) : Server :=
  { sv with
    maxRespBuffer := if sv.respBuffer.size > sv.maxRespBuffer then sv.respBuffer.size else sv.maxRespBuffer
    maxPending := if sv.pendingReqs.size > sv.maxPending then sv.pendingReqs.size else sv.maxPending }

def Server.countCall (sv : Server) (seq : Nat) : Server :=
  { sv with appCalls := sv.appCalls.insert seq (sv.appCalls[seq]?.getD 0 + 1) }

-- The awaiting branch: process a replayed request that was never answered.
def Server.process (app : AppFn) (sv : Server) (req : Request) : Server × Outcome :=
  let resp := app req.seq req.payload sv.history
  let answered := { sv with respBuffer := sv.respBuffer.insert req.seq resp, awaiting := sv.awaiting.erase req.seq }
  (answered.countCall req.seq,
    { responses := [answered.makeResponse req.seq resp false]
      calls := [⟨req.seq, req.payload, sv.history, resp⟩] })

-- One turn of the commit loop, for the parked request found at committed_upto_ + 1.
def Server.commit (app : AppFn) (sv : Server) (r : Request) : Server × Outcome :=
  let history := sv.history.commitRequest r.ackNew r.seq
  let h := history.curHash
  let resp := app r.seq r.payload history
  let committed := { sv with
    pendingReqs := sv.pendingReqs.erase (sv.committedUpto + 1)
    history := history
    reqHash := sv.reqHash.insert r.seq h
    committedUpto := r.seq
    respBuffer := sv.respBuffer.insert r.seq resp }
  (committed.countCall r.seq,
    { responses := [committed.makeResponse r.seq resp false]
      calls := [⟨r.seq, r.payload, history, resp⟩]
      mismatches := (if sv.setHash then hashMismatch r.seq r.hash (some h) else none).toList })

-- while (true) { find(committed_upto_ + 1) ... }: every turn erases a parked
-- request, so the number of parked requests bounds the turns.
def Server.drain (app : AppFn) : Nat → Server → Server × Outcome
  | 0, sv => (sv, {})
  | fuel + 1, sv =>
      match sv.pendingReqs[sv.committedUpto + 1]? with
      | none => (sv, {})
      | some r =>
          let (next, out) := sv.commit app r
          let (final, rest) := Server.drain app fuel next
          (final, out ++ rest)

def Server.stage (sv : Server) (req : Request) : Server :=
  { sv with pendingReqs := sv.pendingReqs.insert req.seq req }

def Server.stageAndAdvance (app : AppFn) (sv : Server) (req : Request) : Server × Outcome :=
  (sv.stage req).drain app (sv.stage req).pendingReqs.size

-- Exactly-once for an already-committed seq: resend, process late, or acknowledge only.
def Server.answerCommitted (app : AppFn) (sv : Server) (req : Request) : Server × Outcome :=
  match sv.respBuffer[req.seq]? with
  | some payload => (sv, { responses := [sv.makeResponse req.seq payload false] })
  | none =>
      if req.seq ∈ sv.awaiting then sv.process app req
      else (sv, { responses := [sv.makeResponse req.seq [] true] })

def Server.recoverySignal (sv : Server) (req : Request) : Response :=
  { seq := req.seq, recover := true, recoverFrom := sv.history.eventCount }

def Server.onRequest (app : AppFn) (sv : Server) (req : Request) : Server × Outcome :=
  if sv.needsRecover req then (sv, { responses := [sv.recoverySignal req] })
  else
    let released := sv.releaseAcked req
    let (next, out) :=
      if req.seq ≤ released.committedUpto then released.answerCommitted app req
      else released.stageAndAdvance app req
    (next.trackBounds, out)

def Server.checkpoint (sv : Server) (walk : Walk) : Checkpoint :=
  { committedUpto := sv.committedUpto
    eventCount := sv.history.eventCount
    historyHash := sv.history.curHash
    buffer := (walk.order sv.respBuffer.toList).map (fun kv => ⟨kv.1, kv.2, sv.reqHash[kv.1]?.getD 0⟩) }

def Server.ingestEvent (sv : Server) (e : ReplayEvent) : Server :=
  let history := sv.history.append e.event
  if e.isResponse then
    { sv with history := history, awaiting := sv.awaiting.erase e.seq, respBuffer := sv.respBuffer.erase e.seq }
  else
    { sv with
      history := history
      reqHash := sv.reqHash.insert e.seq history.curHash
      committedUpto := if e.seq > sv.committedUpto then e.seq else sv.committedUpto
      awaiting := insert e.seq sv.awaiting }

def Server.ingestReplay (sv : Server) (rp : Replay) : Server :=
  let have_ := sv.history.eventCount
  let skip := if have_ > rp.fromIndex then have_ - rp.fromIndex else 0
  (rp.events.drop skip).foldl Server.ingestEvent sv

end Color
