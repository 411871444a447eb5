import Color.Interceptor
import Color.ReplayFit

set_option autoImplicit false

namespace Color

-- The agreed state of two cores is the same.
structure Untouched (before after : Server) : Prop where
  history : after.history = before.history
  upto : after.committedUpto = before.committedUpto
  buffer : after.respBuffer = before.respBuffer
  awaiting : after.awaiting = before.awaiting
  hashes : after.reqHash = before.reqHash

def TellsOk (effects : List Effect) : Prop := ∃ object reply, Effect.reply object reply ∈ effects ∧ reply.status = 200

-- The events of a replay that ingest_replay does not skip.
def Server.unseen (sv : Server) (rp : Replay) : List ReplayEvent := rp.events.drop (sv.history.eventCount - rp.fromIndex)

theorem ingest_replay_untouched_iff (sv : Server) (rp : Replay) : Untouched sv (sv.ingestReplay rp) ↔ sv.unseen rp = [] := by
  rw [ingest_replay_eq]
  change Untouched sv ((sv.unseen rp).foldl Server.ingestEvent sv) ↔ _
  constructor
  · intro same
    have events : sv.history.events ++ (sv.unseen rp).map ReplayEvent.event = sv.history.events := by
      rw [← append_all_events, ← ingest_fold_history, same.history]
    rw [List.append_right_eq_self, List.map_eq_nil_iff] at events
    exact events
  · intro nothing
    rw [nothing]
    exact ⟨rfl, rfl, rfl, rfl, rfl⟩

theorem on_replay_tells_ok (ic : Interceptor) (object : Nat) (req : ServerRequest) : TellsOk (ic.onReplay object req).2 :=
  ⟨object, _, List.mem_singleton_self _, rfl⟩

def RejectsCleanly (ic : Interceptor) (object : Nat) (req : ServerRequest) : Prop :=
  (fromJsonReplay req.readBody).1 = false →
    Untouched ic.core (ic.onReplay object req).1.core ∧ ¬ TellsOk (ic.onReplay object req).2

-- No rejected body is turned away: the sender is told 200, and the core keeps
-- its state only where the events decoded by then bring nothing new.
theorem rejects_cleanly_iff (ic : Interceptor) (object : Nat) (req : ServerRequest) :
    (RejectsCleanly ic object req ↔ (fromJsonReplay req.readBody).1 = true) ∧
      (Untouched ic.core (ic.onReplay object req).1.core ↔ ic.core.unseen (fromJsonReplay req.readBody).2 = []) := by
  refine ⟨?_, ingest_replay_untouched_iff ic.core _⟩
  have told := on_replay_tells_ok ic object req
  cases decoded : (fromJsonReplay req.readBody).1 with
  | true => exact ⟨fun _ => rfl, fun _ rejected => absurd (decoded.symm.trans rejected) (by decide)⟩
  | false => exact ⟨fun clean => absurd told (clean decoded).2, fun accepted => absurd accepted (by decide)⟩

-- A replay of two requests that lost its last byte.
def cutReplay : ServerRequest :=
  let rp := ((Client.fresh true).run [.generate [97], .generate [98]]).buildReplay 0
  plainRequest (recoverLines 0) rp.toJson.dropLast

theorem rejected_replay_ingested :
    ¬ ∀ (ic : Interceptor) (object : Nat) (req : ServerRequest), RejectsCleanly ic object req := by
  intro clean
  have rejected : (fromJsonReplay cutReplay.readBody).1 = false := by decide +kernel
  have same := (clean (Interceptor.create (fun _ => none) true [] 16) 0 cutReplay rejected).1.upto
  revert same
  decide +kernel

end Color
