import Color.Server
import Color.Library.Tables

set_option autoImplicit false

namespace Color

theorem needs_recover_iff (sv : Server) (req : Request) :
    sv.needsRecover req ↔ ∃ i, req.Acknowledges i ∧ sv.committedUpto < i := by
  constructor
  · rintro (low | ⟨i, listed, above⟩)
    · exact ⟨sv.committedUpto + 1, Or.inl low, by omega⟩
    · exact ⟨i, Or.inr listed, above⟩
  · rintro ⟨i, below | listed, above⟩
    · exact Or.inl (by omega)
    · exact Or.inr ⟨i, listed, above⟩

theorem accepted_acks (sv : Server) (req : Request) (i : Nat) (accepted : ¬ sv.needsRecover req)
    (acks : req.Acknowledges i) : i ≤ sv.committedUpto := by
  by_contra above
  exact accepted ((needs_recover_iff sv req).mpr ⟨i, acks, by omega⟩)

theorem release_lookup (sv : Server) (req : Request) (s : Nat) :
    (sv.releaseAcked req).respBuffer[s]? = if req.Acknowledges s then none else sv.respBuffer[s]? := by
  rw [Server.releaseAcked, Tables.lookup_erase_all, Tables.lookup_filter_keys]
  by_cases below : s < req.ackBase <;> by_cases listed : s ∈ req.ackNew <;> simp [Request.Acknowledges, below, listed]

theorem release_found (sv : Server) (req : Request) (s : Nat) (payload : Payload)
    (found : (sv.releaseAcked req).respBuffer[s]? = some payload) :
    ¬ req.Acknowledges s ∧ sv.respBuffer[s]? = some payload := by
  rw [release_lookup] at found
  split at found
  · cases found
  · rename_i kept
    exact ⟨kept, found⟩

theorem release_member (sv : Server) (req : Request) (s : Nat) :
    s ∈ (sv.releaseAcked req).respBuffer ↔ s ∈ sv.respBuffer ∧ ¬ req.Acknowledges s := by
  rw [Tables.mem_iff_lookup, Tables.mem_iff_lookup, release_lookup]
  by_cases acked : req.Acknowledges s <;> simp [acked]

theorem outcome_append_empty (out : Outcome) : out ++ ({} : Outcome) = out :=
  Outcome.ext (List.append_nil _) (List.append_nil _) (List.append_nil _)

theorem outcome_append_assoc (a b c : Outcome) : a ++ b ++ c = a ++ (b ++ c) :=
  Outcome.ext (List.append_assoc _ _ _) (List.append_assoc _ _ _) (List.append_assoc _ _ _)

-- What holds before the loop and survives one turn holds after the loop.
theorem drain_rule (app : AppFn) (P : Server → Outcome → Prop)
    (turn : ∀ sv out r, P sv out → sv.pendingReqs[sv.committedUpto + 1]? = some r →
      P (sv.commit app r).1 (out ++ (sv.commit app r).2))
    (fuel : Nat) (sv : Server) (out : Outcome) (before : P sv out) :
    P (sv.drain app fuel).1 (out ++ (sv.drain app fuel).2) := by
  induction fuel generalizing sv out with
  | zero => simpa only [Server.drain, outcome_append_empty] using before
  | succ fuel ih =>
      rw [Server.drain]
      cases found : sv.pendingReqs[sv.committedUpto + 1]? with
      | none => simpa only [outcome_append_empty] using before
      | some r => simpa only [outcome_append_assoc] using ih _ _ (turn sv out r before found)

-- The fuel is enough: the loop leaves only when nothing is parked at the next id.
theorem drain_stops (app : AppFn) (fuel : Nat) (sv : Server) (enough : sv.pendingReqs.size ≤ fuel) :
    (sv.drain app fuel).1.pendingReqs[(sv.drain app fuel).1.committedUpto + 1]? = none := by
  induction fuel generalizing sv with
  | zero =>
      have empty : sv.pendingReqs = ∅ := Std.ExtTreeMap.eq_empty_iff_size_eq_zero.mpr (by omega)
      simp [Server.drain, empty]
  | succ fuel ih =>
      rw [Server.drain]
      cases found : sv.pendingReqs[sv.committedUpto + 1]? with
      | none => exact found
      | some r =>
          have member : sv.committedUpto + 1 ∈ sv.pendingReqs := (Tables.mem_iff_lookup _ _).mpr ⟨r, found⟩
          have shrunk := Tables.size_erase_of_mem sv.pendingReqs _ member
          apply ih (sv.commit app r).1
          change (sv.pendingReqs.erase (sv.committedUpto + 1)).size ≤ fuel
          omega

theorem stage_and_advance_stops (app : AppFn) (sv : Server) (req : Request) :
    (sv.stageAndAdvance app req).1.pendingReqs[(sv.stageAndAdvance app req).1.committedUpto + 1]? = none :=
  drain_stops app _ _ (Nat.le_refl _)

theorem process_responses (app : AppFn) (sv : Server) (req : Request) :
    (sv.process app req).2.responses =
      [(sv.process app req).1.makeResponse req.seq (app req.seq req.payload sv.history) false] := rfl

theorem commit_responses (app : AppFn) (sv : Server) (r : Request) :
    (sv.commit app r).2.responses =
      [(sv.commit app r).1.makeResponse r.seq (app r.seq r.payload (sv.commit app r).1.history) false] := rfl

theorem answer_committed_rule (P : Server → Outcome → Prop) (app : AppFn) (sv : Server) (req : Request)
    (resent : ∀ payload, sv.respBuffer[req.seq]? = some payload →
      P sv { responses := [sv.makeResponse req.seq payload false] })
    (late : sv.respBuffer[req.seq]? = none → req.seq ∈ sv.awaiting → P (sv.process app req).1 (sv.process app req).2)
    (acknowledged : sv.respBuffer[req.seq]? = none → req.seq ∉ sv.awaiting →
      P sv { responses := [sv.makeResponse req.seq [] true] }) :
    P (sv.answerCommitted app req).1 (sv.answerCommitted app req).2 := by
  rw [Server.answerCommitted]
  cases buffered : sv.respBuffer[req.seq]? with
  | some payload => exact resent payload buffered
  | none =>
      by_cases owed : req.seq ∈ sv.awaiting
      · simpa only [if_pos owed] using late buffered owed
      · simpa only [if_neg owed] using acknowledged buffered owed

theorem stage_and_advance_rule (P : Server → Outcome → Prop) (app : AppFn) (sv : Server) (req : Request)
    (staged : P (sv.stage req) {})
    (turn : ∀ sv out r, P sv out → sv.pendingReqs[sv.committedUpto + 1]? = some r →
      P (sv.commit app r).1 (out ++ (sv.commit app r).2)) :
    P (sv.stageAndAdvance app req).1 (sv.stageAndAdvance app req).2 :=
  drain_rule app P turn _ _ {} staged

theorem on_request_rule (P : Server → Outcome → Prop) (app : AppFn) (sv : Server) (req : Request)
    (refused : sv.needsRecover req → P sv { responses := [sv.recoverySignal req] })
    (committed : ¬ sv.needsRecover req → req.seq ≤ sv.committedUpto →
      P ((sv.releaseAcked req).answerCommitted app req).1.trackBounds
        ((sv.releaseAcked req).answerCommitted app req).2)
    (fresh : ¬ sv.needsRecover req → sv.committedUpto < req.seq →
      P ((sv.releaseAcked req).stageAndAdvance app req).1.trackBounds
        ((sv.releaseAcked req).stageAndAdvance app req).2) :
    P (sv.onRequest app req).1 (sv.onRequest app req).2 := by
  rw [Server.onRequest]
  by_cases recover : sv.needsRecover req
  · simpa only [if_pos recover] using refused recover
  · rw [if_neg recover]
    by_cases known : req.seq ≤ sv.committedUpto
    · have branch : req.seq ≤ (sv.releaseAcked req).committedUpto := known
      simpa only [if_pos branch] using committed recover known
    · have branch : ¬ req.seq ≤ (sv.releaseAcked req).committedUpto := known
      simpa only [if_neg branch] using fresh recover (by omega)

theorem on_request_refused (app : AppFn) (sv : Server) (req : Request) (recover : sv.needsRecover req) :
    sv.onRequest app req = (sv, { responses := [sv.recoverySignal req] }) := by
  rw [Server.onRequest, if_pos recover]

end Color
