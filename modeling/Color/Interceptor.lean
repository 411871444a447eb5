import Color.CheckpointFile
import Color.Headers

set_option autoImplicit false

namespace Color

-- What a call does to the world outside: request objects are numbered, and each
-- reply or abort finishes one of them. WriteCheckpoint walks the core when it runs.
inductive Effect where
  | reply (object : Nat) (reply : ServerReply)
  | abort (object : Nat)
  | committed (seq : Nat) (payload : Payload)
  | writeCheckpoint (core : Server)

structure Interceptor where
  core : Server
  setHash : Bool
  checkpointPath : Path := []
  checkpointEvery : Nat := 16
  commitsSinceCkpt : Nat := 0
  restored : Bool := false
  pending : SeqMap Nat := ∅

def Interceptor.create (files : Files) (setHash : Bool) (checkpointPath : Path) (checkpointEvery : Nat) : Interceptor :=
  let loaded := loadCheckpoint files checkpointPath
  { core := if loaded.1 then .ofCheckpoint loaded.2 setHash else { setHash := setHash }
    setHash := setHash
    checkpointPath := checkpointPath
    checkpointEvery := checkpointEvery
    restored := loaded.1 }

-- The result of from_json_replay is not looked at.
def Interceptor.onReplay (ic : Interceptor) (object : Nat) (req : ServerRequest) : Interceptor × List Effect :=
  let rp := (fromJsonReplay req.readBody).2
  let headers := HeaderMap.set (fun _ => none) (text "Content-Type") (text "application/json")
  ({ ic with core := ic.core.ingestReplay rp }, [.reply object { status := 200, headers := headers }])

-- responses.size() == 1 && responses[0].recover
def recoveryOf : List Response → Option Response
  | [resp] => if resp.recover then some resp else none
  | _ => none

-- The loop over the responses: the held requests left, how many were counted, what was done.
def completeHeld (setHash : Bool) : List Response → SeqMap Nat → SeqMap Nat × Nat × List Effect
  | [], pending => (pending, 0, [])
  | resp :: rest, pending =>
      match pending[resp.seq]? with
      | none => completeHeld setHash rest pending
      | some object =>
          let (left, committed, effects) := completeHeld setHash rest (pending.erase resp.seq)
          if resp.noOp then (left, committed, .reply object (complete setHash resp) :: effects)
          else (left, committed + 1,
            .reply object (complete setHash resp) :: .committed resp.seq resp.payload :: effects)

def Interceptor.maybeCheckpoint (ic : Interceptor) (committed : Nat) : Interceptor × List Effect :=
  if ic.checkpointPath = [] ∨ ic.checkpointEvery = 0 then (ic, [])
  else if ic.commitsSinceCkpt + committed ≥ ic.checkpointEvery then
    ({ ic with commitsSinceCkpt := 0 }, [.writeCheckpoint ic.core])
  else ({ ic with commitsSinceCkpt := ic.commitsSinceCkpt + committed }, [])

def Interceptor.serve (app : AppFn) (ic : Interceptor) (object : Nat) (creq : Request) : Interceptor × List Effect :=
  let aborted := (ic.pending[creq.seq]?.map Effect.abort).toList
  let held := ic.pending.insert creq.seq object
  let (core, out) := ic.core.onRequest app creq
  match recoveryOf out.responses with
  | some resp =>
      ({ ic with core := core, pending := held.erase creq.seq }, aborted ++ [.reply object (signalRecovery resp)])
  | none =>
      let (left, committed, effects) := completeHeld ic.setHash out.responses held
      let (next, written) := { ic with core := core, pending := left }.maybeCheckpoint committed
      (next, aborted ++ effects ++ written)

def Interceptor.onRequest (app : AppFn) (ic : Interceptor) (object : Nat) (req : ServerRequest) : Interceptor × List Effect :=
  if req.header (text "Color-Replay") ≠ [] then ic.onReplay object req else ic.serve app object req.parse

-- One HTTP request, with what the application would answer while it is handled.
structure HttpCall where
  object : Nat
  app : AppFn
  req : ServerRequest

def Interceptor.step (ic : Interceptor) (call : HttpCall) : Interceptor := (ic.onRequest call.app call.object call.req).1

def Interceptor.run (ic : Interceptor) (calls : List HttpCall) : Interceptor := calls.foldl Interceptor.step ic

theorem interceptor_run_snoc (ic : Interceptor) (calls : List HttpCall) (call : HttpCall) :
    ic.run (calls ++ [call]) = (ic.run calls).step call := by simp [Interceptor.run]

-- Everything a run of calls did, in order.
def Interceptor.log (ic : Interceptor) : List HttpCall → List Effect
  | [] => []
  | call :: rest => (ic.onRequest call.app call.object call.req).2 ++ (ic.step call).log rest

theorem log_snoc (ic : Interceptor) (calls : List HttpCall) (call : HttpCall) :
    ic.log (calls ++ [call]) = ic.log calls ++ ((ic.run calls).onRequest call.app call.object call.req).2 := by
  induction calls generalizing ic with
  | nil => simp [Interceptor.log, Interceptor.run]
  | cons first rest ih =>
      rw [List.cons_append, Interceptor.log, ih, Interceptor.log, List.append_assoc]
      rfl

end Color
