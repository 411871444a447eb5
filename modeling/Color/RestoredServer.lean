import Color.DeliveryOrder
import Color.JsonRoundTrip
import Color.TotalOrder

set_option autoImplicit false

namespace Color

def Server.replies (app : AppFn) : List Request → Server → List (List Response)
  | [], _ => []
  | req :: rest, sv => (sv.onRequest app req).2.responses :: Server.replies app rest (sv.onRequest app req).1

-- The same reply, except that the second no_op may lack the optional hash.
structure SameReply (one two : Response) : Prop where
  seq : one.seq = two.seq
  payload : one.payload = two.payload
  noOp : one.noOp = two.noOp
  recover : one.recover = two.recover
  recoverFrom : one.recoverFrom = two.recoverFrom
  hash : one.hash = two.hash ∨ one.noOp = true ∧ two.hash = none

-- What a restored server keeps of the one that was saved: the counters and the
-- buffer, and of the request hashes at least those of the buffered ids.
structure Restores (sv restored : Server) : Prop where
  setHash : restored.setHash = sv.setHash
  upto : restored.committedUpto = sv.committedUpto
  count : restored.history.eventCount = sv.history.eventCount
  running : restored.history.curHash = sv.history.curHash
  buffer : restored.respBuffer = sv.respBuffer
  parked : restored.pendingReqs = sv.pendingReqs
  idle : sv.awaiting = ∅ ∧ restored.awaiting = ∅
  known : ∀ (s : Nat) (h : Hash), restored.reqHash[s]? = some h → sv.reqHash[s]? = some h
  covered : ∀ s : Nat, s ∈ sv.respBuffer → restored.reqHash[s]? = sv.reqHash[s]?

-- Every buffered response has the hash of its request beside it.
def Hashed (sv : Server) : Prop := ∀ s, s ∈ sv.respBuffer → s ∈ sv.reqHash

theorem hashed_start (origin : Option Checkpoint) (setHash : Bool) : Hashed (Server.start origin setHash) := by
  intro s member
  cases origin with
  | none => simp [Server.start] at member
  | some cp =>
      have rows := (Tables.mem_insert_all BufferedResponse.seq BufferedResponse.payload cp.buffer s).mp member
      exact (Tables.mem_insert_all BufferedResponse.seq BufferedResponse.hash cp.buffer s).mpr rows

theorem hashed_commit (app : AppFn) (sv : Server) (r : Request) (hashed : Hashed sv) : Hashed (sv.commit app r).1 := by
  intro s member
  change s ∈ sv.respBuffer.insert r.seq _ at member
  change s ∈ sv.reqHash.insert r.seq _
  rw [Tables.mem_insert_iff] at member ⊢
  exact member.imp_right (hashed s)

theorem hashed_on_request (app : AppFn) (sv : Server) (req : Request) (idle : sv.awaiting = ∅) (hashed : Hashed sv) :
    Hashed (sv.onRequest app req).1 := by
  have released : Hashed (sv.releaseAcked req) := fun s member => hashed s ((release_member sv req s).mp member).1
  apply on_request_rule (fun next _ => Hashed next)
  · exact fun _ => hashed
  · intro _ _
    apply answer_committed_rule (fun next _ => Hashed next.trackBounds)
    · exact fun _ _ => released
    · intro _ owed
      have none : req.seq ∈ sv.awaiting := owed
      simp [idle] at none
    · exact fun _ _ => released
  · intro _ _
    exact stage_and_advance_rule (fun next _ => Hashed next) app (sv.releaseAcked req) req released
      (fun next _ r before _ => hashed_commit app next r before)

theorem hashed_serve (origin : Option Checkpoint) (setHash : Bool) (deliveries : List Delivery) :
    Hashed ((Server.start origin setHash).serve deliveries).1 := by
  have both := handle_all_rule _ (fun seen sv out => StreamInv (Server.start origin setHash) seen sv out ∧ Hashed sv)
    deliveries (fun seen d _ sv out _ inv =>
      ⟨stream_call (Server.start origin setHash) seen d sv out inv.1, hashed_on_request d.app sv d.request inv.1.idle inv.2⟩)
    (Server.start origin setHash) ⟨stream_start origin setHash, hashed_start origin setHash⟩
  exact both.2

-- ---- the restored server follows the saved one ----

theorem restores_checkpoint (sv : Server) (walk : Walk) (idle : sv.awaiting = ∅) (parked : sv.pendingReqs = ∅)
    (hashed : Hashed sv) : Restores sv (.ofCheckpoint (sv.checkpoint walk) sv.setHash) := by
  have row : ∀ b ∈ (sv.checkpoint walk).buffer, sv.respBuffer[b.seq]? = some b.payload ∧ sv.reqHash[b.seq]? = some b.hash := by
    intro b member
    obtain ⟨stored, hash⟩ := checkpoint_row sv walk b member
    obtain ⟨h, found⟩ := (Tables.mem_iff_lookup _ _).mp (hashed b.seq ((Tables.mem_iff_lookup _ _).mpr ⟨_, stored⟩))
    exact ⟨stored, by rw [hash, found]; rfl⟩
  have listed : ∀ s, s ∈ sv.respBuffer → ∃ b ∈ (sv.checkpoint walk).buffer, b.seq = s := by
    intro s member
    obtain ⟨payload, stored⟩ := (Tables.mem_iff_lookup _ _).mp member
    have walked := (walk.permutes _).mem_iff.mpr (Std.ExtTreeMap.mem_toList_iff_getElem?_eq_some.mpr stored)
    exact ⟨_, List.mem_map.mpr ⟨(s, payload), walked, rfl⟩, rfl⟩
  refine ⟨rfl, rfl, rfl, rfl, ?buffer, parked.symm, ⟨idle, rfl⟩, ?known, ?covered⟩
  case buffer =>
    apply Std.ExtTreeMap.ext_getElem?
    intro s
    by_cases member : s ∈ sv.respBuffer
    · exact Tables.lookup_insert_all_agree BufferedResponse.seq BufferedResponse.payload _ sv.respBuffer s
        (fun b inside => (row b inside).1) (listed s member)
    · have absent : s ∉ (Server.ofCheckpoint (sv.checkpoint walk) sv.setHash).respBuffer := by
        intro present
        obtain ⟨b, inside, same⟩ := (Tables.mem_insert_all BufferedResponse.seq BufferedResponse.payload _ s).mp present
        exact member (same ▸ (Tables.mem_iff_lookup _ _).mpr ⟨_, (row b inside).1⟩)
      rw [Std.ExtTreeMap.getElem?_eq_none absent, Std.ExtTreeMap.getElem?_eq_none member]
  case known =>
    intro s h found
    obtain ⟨b, member, key, value⟩ := Tables.lookup_insert_all_some _ _ _ _ _ found
    rw [← key, ← value]
    exact (row b member).2
  case covered =>
    intro s member
    exact Tables.lookup_insert_all_agree BufferedResponse.seq BufferedResponse.hash _ sv.reqHash s
      (fun b inside => (row b inside).2) (listed s member)

theorem same_reply_refl (resp : Response) : SameReply resp resp := ⟨rfl, rfl, rfl, rfl, rfl, Or.inl rfl⟩

section Following

variable (reply : Nat → Payload → Payload) (sv restored : Server)

-- A response for an id whose hash both sides hold.
theorem make_response_same (seq : Nat) (payload : Payload) (noOp : Bool) (setHash : restored.setHash = sv.setHash)
    (hash : restored.reqHash[seq]? = sv.reqHash[seq]?) :
    restored.makeResponse seq payload noOp = sv.makeResponse seq payload noOp := by
  rw [Server.makeResponse, Server.makeResponse, setHash, hash]

theorem restores_commit (r : Request) (inv : Restores sv restored) :
    Restores (sv.commit (fun s p _ => reply s p) r).1 (restored.commit (fun s p _ => reply s p) r).1 ∧
      (restored.commit (fun s p _ => reply s p) r).2.responses = (sv.commit (fun s p _ => reply s p) r).2.responses := by
  have count : (restored.history.commitRequest r.ackNew r.seq).eventCount =
      (sv.history.commitRequest r.ackNew r.seq).eventCount := by
    have same := inv.count
    simp only [History.eventCount] at same
    simp only [History.eventCount, commit_request_append_all, append_all_base, append_all_events, List.length_append]
    omega
  have running : (restored.history.commitRequest r.ackNew r.seq).curHash =
      (sv.history.commitRequest r.ackNew r.seq).curHash := by
    rw [commit_request_append_all, commit_request_append_all, append_all_hash, append_all_hash, inv.running]
  have hash : ∀ s : Nat, (restored.commit (fun s p _ => reply s p) r).1.reqHash[s]? =
      if s = r.seq then some (sv.history.commitRequest r.ackNew r.seq).curHash else restored.reqHash[s]? := by
    intro s
    change (restored.reqHash.insert r.seq (restored.history.commitRequest r.ackNew r.seq).curHash)[s]? = _
    rw [Tables.lookup_insert, running]
  have hash' : ∀ s : Nat, (sv.commit (fun s p _ => reply s p) r).1.reqHash[s]? =
      if s = r.seq then some (sv.history.commitRequest r.ackNew r.seq).curHash else sv.reqHash[s]? := by
    intro s
    change (sv.reqHash.insert r.seq (sv.history.commitRequest r.ackNew r.seq).curHash)[s]? = _
    rw [Tables.lookup_insert]
  have buffer : (restored.commit (fun s p _ => reply s p) r).1.respBuffer =
      (sv.commit (fun s p _ => reply s p) r).1.respBuffer := congrArg (·.insert r.seq (reply r.seq r.payload)) inv.buffer
  have parked : (restored.commit (fun s p _ => reply s p) r).1.pendingReqs =
      (sv.commit (fun s p _ => reply s p) r).1.pendingReqs := by
    change restored.pendingReqs.erase (restored.committedUpto + 1) = sv.pendingReqs.erase (sv.committedUpto + 1)
    rw [inv.parked, inv.upto]
  refine ⟨⟨inv.setHash, rfl, count, running, buffer, parked, inv.idle, ?_, ?_⟩, ?_⟩
  · intro s h found
    rw [hash] at found
    rw [hash']
    split at found
    · rename_i own
      rw [if_pos own]
      exact found
    · rename_i other
      rw [if_neg other]
      exact inv.known s h found
  · intro s member
    rw [hash, hash']
    split
    · rfl
    · rename_i other
      change s ∈ sv.respBuffer.insert r.seq _ at member
      rw [Tables.mem_insert_iff] at member
      exact inv.covered s (member.resolve_left other)
  · rw [commit_responses, commit_responses]
    exact congrArg (fun resp => [resp]) (make_response_same (sv.commit (fun s p _ => reply s p) r).1
      (restored.commit (fun s p _ => reply s p) r).1 r.seq _ false inv.setHash (by rw [hash, hash', if_pos rfl, if_pos rfl]))

theorem restores_drain (fuel : Nat) (inv : Restores sv restored) :
    Restores (sv.drain (fun s p _ => reply s p) fuel).1 (restored.drain (fun s p _ => reply s p) fuel).1 ∧
      (restored.drain (fun s p _ => reply s p) fuel).2.responses = (sv.drain (fun s p _ => reply s p) fuel).2.responses := by
  induction fuel generalizing sv restored with
  | zero => exact ⟨inv, rfl⟩
  | succ fuel ih =>
      rw [Server.drain, Server.drain, inv.parked, inv.upto]
      cases sv.pendingReqs[sv.committedUpto + 1]? with
      | none => exact ⟨inv, rfl⟩
      | some r =>
          obtain ⟨next, responses⟩ := restores_commit reply sv restored r inv
          obtain ⟨final, later⟩ := ih _ _ next
          refine ⟨final, ?_⟩
          simp only [outcome_append_responses, responses, later]

theorem restores_release (req : Request) (inv : Restores sv restored) :
    Restores (sv.releaseAcked req) (restored.releaseAcked req) := by
  have buffer : (restored.releaseAcked req).respBuffer = (sv.releaseAcked req).respBuffer := by
    rw [Server.releaseAcked, Server.releaseAcked, inv.buffer]
  exact { inv with
    buffer := buffer
    covered := fun s member => inv.covered s ((release_member sv req s).mp member).1 }

theorem restores_track (inv : Restores sv restored) : Restores sv.trackBounds restored.trackBounds :=
  { inv with }

theorem restores_answer (req : Request) (inv : Restores sv restored) :
    Restores (sv.answerCommitted (fun s p _ => reply s p) req).1 (restored.answerCommitted (fun s p _ => reply s p) req).1 ∧
      List.Forall₂ SameReply (sv.answerCommitted (fun s p _ => reply s p) req).2.responses
        (restored.answerCommitted (fun s p _ => reply s p) req).2.responses := by
  have idle : req.seq ∉ sv.awaiting ∧ req.seq ∉ restored.awaiting := by simp [inv.idle.1, inv.idle.2]
  rw [Server.answerCommitted, Server.answerCommitted, inv.buffer]
  cases buffered : sv.respBuffer[req.seq]? with
  | some payload =>
      have hash := inv.covered req.seq ((Tables.mem_iff_lookup _ _).mpr ⟨payload, buffered⟩)
      refine ⟨inv, .cons ?_ .nil⟩
      rw [make_response_same sv restored req.seq payload false inv.setHash hash]
      exact same_reply_refl _
  | none =>
      simp only [idle.1, idle.2, if_false]
      refine ⟨inv, .cons ⟨rfl, rfl, rfl, rfl, rfl, ?_⟩ .nil⟩
      -- The saved server may still know the hash of a released id.
      rw [Server.makeResponse, Server.makeResponse, inv.setHash]
      cases sv.setHash with
      | false => exact Or.inl rfl
      | true =>
          cases found : restored.reqHash[req.seq]? with
          | none => exact Or.inr ⟨rfl, rfl⟩
          | some h => exact Or.inl (inv.known req.seq h found)

theorem restores_on_request (req : Request) (inv : Restores sv restored) :
    Restores (sv.onRequest (fun s p _ => reply s p) req).1 (restored.onRequest (fun s p _ => reply s p) req).1 ∧
      List.Forall₂ SameReply (sv.onRequest (fun s p _ => reply s p) req).2.responses
        (restored.onRequest (fun s p _ => reply s p) req).2.responses := by
  have recover : restored.needsRecover req ↔ sv.needsRecover req := by
    rw [Server.needsRecover, Server.needsRecover, inv.upto]
  have released := restores_release sv restored req inv
  by_cases refused : sv.needsRecover req
  · rw [on_request_refused _ sv req refused, on_request_refused _ restored req (recover.mpr refused)]
    exact ⟨inv, .cons ⟨rfl, rfl, rfl, rfl, inv.count.symm, Or.inl rfl⟩ .nil⟩
  · rw [Server.onRequest, Server.onRequest, if_neg refused, if_neg (fun other => refused (recover.mp other))]
    simp only
    rw [released.upto]
    by_cases known : req.seq ≤ (sv.releaseAcked req).committedUpto
    · simp only [if_pos known]
      obtain ⟨next, responses⟩ := restores_answer reply _ _ req released
      exact ⟨restores_track _ _ next, responses⟩
    · simp only [if_neg known]
      have staged : Restores ((sv.releaseAcked req).stage req) ((restored.releaseAcked req).stage req) :=
        { released with parked := congrArg (·.insert req.seq req) released.parked }
      have size : ((restored.releaseAcked req).stage req).pendingReqs.size =
          ((sv.releaseAcked req).stage req).pendingReqs.size := congrArg _ staged.parked
      rw [Server.stageAndAdvance, Server.stageAndAdvance, size]
      obtain ⟨next, responses⟩ := restores_drain reply _ _ ((sv.releaseAcked req).stage req).pendingReqs.size staged
      refine ⟨restores_track _ _ next, ?_⟩
      rw [responses]
      exact List.forall₂_same.mpr (fun resp _ => same_reply_refl resp)

end Following

theorem restores_run (reply : Nat → Payload → Payload) (requests : List Request) (sv restored : Server)
    (inv : Restores sv restored) :
    List.Forall₂ (List.Forall₂ SameReply) (sv.replies (fun s p _ => reply s p) requests)
        (restored.replies (fun s p _ => reply s p) requests) ∧
      Restores (sv.serveAll (fun s p _ => reply s p) requests).1 (restored.serveAll (fun s p _ => reply s p) requests).1 := by
  induction requests generalizing sv restored with
  | nil => exact ⟨.nil, inv⟩
  | cons req rest ih =>
      obtain ⟨next, responses⟩ := restores_on_request reply sv restored req inv
      obtain ⟨later, final⟩ := ih _ _ next
      exact ⟨.cons responses later, final⟩

-- A server that has taken any requests, with none parked, against the one built
-- from its checkpoint file: no sequence of further requests tells them apart.
theorem restored_server_behaves (reply : Nat → Payload → Payload) (origin : Option Checkpoint) (setHash : Bool)
    (deliveries : List Delivery) (parked : ((Server.start origin setHash).serve deliveries).1.pendingReqs = ∅) (walk : Walk)
    (fits : (((Server.start origin setHash).serve deliveries).1.checkpoint walk).Fits) (requests : List Request) :
    let sv := ((Server.start origin setHash).serve deliveries).1
    let restored := Server.ofCheckpoint (fromJsonCheckpoint (sv.checkpoint walk).toJson).2 sv.setHash
    List.Forall₂ (List.Forall₂ SameReply) (sv.replies (fun s p _ => reply s p) requests)
        (restored.replies (fun s p _ => reply s p) requests) ∧
      let final := (sv.serveAll (fun s p _ => reply s p) requests).1
      let final' := (restored.serveAll (fun s p _ => reply s p) requests).1
      final'.committedUpto = final.committedUpto ∧ final'.history.eventCount = final.history.eventCount ∧
        final'.history.curHash = final.history.curHash ∧ final'.respBuffer = final.respBuffer := by
  intro sv restored
  have inv : Restores sv restored := by
    have decoded : restored = Server.ofCheckpoint (sv.checkpoint walk) sv.setHash := by
      simp only [restored, read_checkpoint (sv.checkpoint walk) fits]
    rw [decoded]
    exact restores_checkpoint sv walk (serve_stream origin setHash deliveries).idle parked
      (hashed_serve origin setHash deliveries)
  obtain ⟨replies, last⟩ := restores_run reply requests sv restored inv
  exact ⟨replies, last.upto, last.count, last.running, last.buffer⟩

-- One request is served and saved; then it is asked again, and once more after
-- the second request has released it.
theorem restored_server_behaves_released :
    let sv := ((Server.start none true).serve [⟨{ seq := 1, payload := [7] }, fun _ p _ => p⟩]).1
    let restored := Server.ofCheckpoint (fromJsonCheckpoint (sv.checkpoint .ascending).toJson).2 sv.setHash
    List.Forall₂ (List.Forall₂ SameReply)
      (sv.replies (fun _ p _ => p) [{ seq := 1, payload := [7] }, { seq := 2, ackNew := [1] }, { seq := 1 }])
      (restored.replies (fun _ p _ => p) [{ seq := 1, payload := [7] }, { seq := 2, ackNew := [1] }, { seq := 1 }]) := by
  have small : ∀ n, n ≤ 10 → n < 2 ^ 64 := fun n le => Nat.lt_of_le_of_lt le (by decide)
  have seqs : ∀ b ∈ (((Server.start none true).serve
      [⟨{ seq := 1, payload := [7] }, fun _ p _ => p⟩]).1.checkpoint .ascending).buffer, b.seq ≤ 10 := by decide +kernel
  have behaves := restored_server_behaves (fun _ p => p) none true [⟨{ seq := 1, payload := [7] }, fun _ p _ => p⟩]
    (Std.ExtTreeMap.eq_empty_iff_size_eq_zero.mpr (by decide +kernel)) .ascending
    ⟨small _ (by decide +kernel), small _ (by decide +kernel), fun b member => small _ (seqs b member)⟩
    [{ seq := 1, payload := [7] }, { seq := 2, ackNew := [1] }, { seq := 1 }]
  exact behaves.1

end Color
