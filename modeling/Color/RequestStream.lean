import Color.ServerStep
import Color.Canonical

set_option autoImplicit false

namespace Color

-- A server as the interceptor builds it: fresh, or from a checkpoint file.
def Server.start (origin : Option Checkpoint) (setHash : Bool) : Server :=
  match origin with
  | none => { setHash := setHash }
  | some cp => .ofCheckpoint cp setHash

-- One on_request call, with what the application would answer during it.
structure Delivery where
  request : Request
  app : AppFn

def Server.handleAll (handle : Server → Delivery → Server × Outcome) : List Delivery → Server → Server × Outcome
  | [], sv => (sv, {})
  | d :: rest, sv =>
      let (next, out) := handle sv d
      let (final, later) := Server.handleAll handle rest next
      (final, out ++ later)

def Server.serve (deliveries : List Delivery) (sv : Server) : Server × Outcome :=
  Server.handleAll (fun sv d => sv.onRequest d.app d.request) deliveries sv

-- What holds of no delivery and survives each one holds of them all. A step
-- knows where in the list it stands.
theorem handle_all_rule (handle : Server → Delivery → Server × Outcome) (P : List Delivery → Server → Outcome → Prop)
    (deliveries : List Delivery)
    (call : ∀ seen d rest sv out, deliveries = seen ++ d :: rest → P seen sv out →
      P (seen ++ [d]) (handle sv d).1 (out ++ (handle sv d).2))
    (sv : Server) (before : P [] sv {}) :
    P deliveries (Server.handleAll handle deliveries sv).1 (Server.handleAll handle deliveries sv).2 := by
  suffices general : ∀ (rest seen : List Delivery) (sv : Server) (out : Outcome), deliveries = seen ++ rest → P seen sv out →
      P deliveries (Server.handleAll handle rest sv).1 (out ++ (Server.handleAll handle rest sv).2) by
    have whole := general deliveries [] sv {} rfl before
    have empty : ∀ out : Outcome, ({} : Outcome) ++ out = out := fun out => rfl
    rwa [empty] at whole
  intro rest
  induction rest with
  | nil =>
      intro seen sv out split holds
      rw [List.append_nil] at split
      simpa only [Server.handleAll, outcome_append_empty, split] using holds
  | cons d rest ih =>
      intro seen sv out split holds
      have next := ih (seen ++ [d]) _ _ (by simpa using split) (call seen d rest sv out split holds)
      simpa only [Server.handleAll, outcome_append_assoc] using next

-- The calls so far answer exactly the ids between the two counters, in order.
structure StreamInv (origin : Server) (seen : List Delivery) (sv : Server) (out : Outcome) : Prop where
  idle : sv.awaiting = ∅
  upto : origin.committedUpto ≤ sv.committedUpto
  calls : out.calls.map Call.seq = List.range' (origin.committedUpto + 1) (sv.committedUpto - origin.committedUpto)
  shown : ∀ call ∈ out.calls, call.committed.events.getLast? = some (.request call.seq) ∧
    ∃ d ∈ seen, d.request.seq = call.seq ∧ d.request.payload = call.payload
  history : ∃ added, sv.history.events = origin.history.events ++ added ∧
    added.filter (fun e => !e.isResponse) = out.calls.map (fun call => Event.request call.seq)
  parked : ∀ k r, sv.pendingReqs[k]? = some r → r.seq = k ∧ sv.committedUpto < k ∧ ∃ d ∈ seen, d.request = r
  counted : ∀ s, sv.appCalls[s]?.getD 0 = (out.calls.map Call.seq).count s

theorem commit_request_events (h : History) (ackNew : List Nat) (seq : Nat) :
    (h.commitRequest ackNew seq).events = h.events ++ commitEvents ackNew seq := by
  rw [commit_request_append_all, append_all_events]

theorem count_call_lookup (sv : Server) (seq s : Nat) :
    (sv.countCall seq).appCalls[s]?.getD 0 = sv.appCalls[s]?.getD 0 + if s = seq then 1 else 0 := by
  rw [Server.countCall, Tables.lookup_insert]
  by_cases same : s = seq <;> simp [same]

theorem stream_commit (origin : Server) (seen : List Delivery) (sv : Server) (out : Outcome) (app : AppFn)
    (r : Request) (inv : StreamInv origin seen sv out) (found : sv.pendingReqs[sv.committedUpto + 1]? = some r) :
    StreamInv origin seen (sv.commit app r).1 (out ++ (sv.commit app r).2) := by
  obtain ⟨seqEq, _, delivered⟩ := inv.parked _ _ found
  have advance : (sv.commit app r).1.committedUpto = sv.committedUpto + 1 := seqEq
  have span : sv.committedUpto + 1 - origin.committedUpto = (sv.committedUpto - origin.committedUpto) + 1 := by
    have le := inv.upto
    omega
  refine ⟨inv.idle, by have le := inv.upto; omega, ?_, ?_, ?_, ?_, ?_⟩
  · have edge : origin.committedUpto + 1 + (sv.committedUpto - origin.committedUpto) = r.seq := by
      have le := inv.upto
      omega
    rw [advance, span, List.range'_1_concat, edge]
    simp [Server.commit, inv.calls]
  · intro call member
    cases List.mem_append.mp member with
    | inl old => exact inv.shown call old
    | inr new =>
        have eq : call = ⟨r.seq, r.payload, sv.history.commitRequest r.ackNew r.seq, _⟩ := List.mem_singleton.mp new
        subst eq
        obtain ⟨d, inSeen, same⟩ := delivered
        refine ⟨?_, d, inSeen, by rw [same], by rw [same]⟩
        simp [commit_request_events, commitEvents]
  · obtain ⟨added, events, requests⟩ := inv.history
    refine ⟨added ++ commitEvents r.ackNew r.seq, ?_, ?_⟩
    · change (sv.history.commitRequest r.ackNew r.seq).events = _
      rw [commit_request_events, events, List.append_assoc]
    · rw [List.filter_append, requests, commit_events_requests]
      simp [Server.commit]
  · intro k next parked
    obtain ⟨other, before⟩ := Tables.erase_found sv.pendingReqs (sv.committedUpto + 1) k next parked
    obtain ⟨keySeq, above, source⟩ := inv.parked k next before
    exact ⟨keySeq, by omega, source⟩
  · intro s
    have before := inv.counted s
    have step := count_call_lookup sv r.seq s
    have calls : (sv.commit app r).1.appCalls = (sv.countCall r.seq).appCalls := rfl
    rw [calls, step, before]
    by_cases same : s = r.seq
    · simp [Server.commit, same, List.count_append]
    · simp [Server.commit, same, Ne.symm same, List.count_append]

theorem stream_call (origin : Server) (seen : List Delivery) (d : Delivery) (sv : Server) (out : Outcome)
    (inv : StreamInv origin seen sv out) :
    StreamInv origin (seen ++ [d]) (sv.onRequest d.app d.request).1 (out ++ (sv.onRequest d.app d.request).2) := by
  -- A delivery that only emits responses leaves every clause as it was.
  have quiet : ∀ (next : Server) (answers : List Response), next.awaiting = sv.awaiting →
      next.committedUpto = sv.committedUpto → next.history = sv.history → next.pendingReqs = sv.pendingReqs →
      next.appCalls = sv.appCalls → StreamInv origin (seen ++ [d]) next (out ++ { responses := answers }) := by
    intro next answers awaiting upto history pending counts
    have sameCalls : (out ++ ({ responses := answers } : Outcome)).calls = out.calls := List.append_nil _
    refine ⟨awaiting ▸ inv.idle, upto ▸ inv.upto, by rw [sameCalls, upto]; exact inv.calls, ?_, ?_, ?_, ?_⟩
    · rw [sameCalls]
      intro call member
      obtain ⟨last, source, inSeen, same⟩ := inv.shown call member
      exact ⟨last, source, List.mem_append_left _ inSeen, same⟩
    · rw [sameCalls, history]
      exact inv.history
    · rw [pending, upto]
      intro k r parked
      obtain ⟨keySeq, above, source, inSeen, same⟩ := inv.parked k r parked
      exact ⟨keySeq, above, source, List.mem_append_left _ inSeen, same⟩
    · rw [sameCalls, counts]
      exact inv.counted
  apply on_request_rule (fun next answer => StreamInv origin (seen ++ [d]) next (out ++ answer))
  · exact fun _ => quiet sv _ rfl rfl rfl rfl rfl
  · intro _ _
    apply answer_committed_rule (fun next answer => StreamInv origin (seen ++ [d]) next.trackBounds (out ++ answer))
    · exact fun _ _ => quiet _ _ rfl rfl rfl rfl rfl
    · intro _ owed
      have none : d.request.seq ∈ sv.awaiting := owed
      simp [inv.idle] at none
    · exact fun _ _ => quiet _ _ rfl rfl rfl rfl rfl
  · intro _ above
    have staged : StreamInv origin (seen ++ [d]) ((sv.releaseAcked d.request).stage d.request) (out ++ {}) := by
      have released := quiet (sv.releaseAcked d.request) [] rfl rfl rfl rfl rfl
      refine ⟨released.idle, released.upto, released.calls, released.shown, released.history, ?_, released.counted⟩
      intro k r parked
      rcases Tables.insert_found sv.pendingReqs d.request.seq k d.request r parked with ⟨same, own⟩ | old
      · exact ⟨own ▸ same.symm, same ▸ above, d, by simp, own⟩
      · exact released.parked k r old
    have drained := stage_and_advance_rule
      (fun next answer => StreamInv origin (seen ++ [d]) next (out ++ answer)) d.app
      (sv.releaseAcked d.request) d.request staged
      (fun next answer r before found => by
        rw [← outcome_append_assoc]
        exact stream_commit origin (seen ++ [d]) next (out ++ answer) d.app r before found)
    exact ⟨drained.idle, drained.upto, drained.calls, drained.shown, drained.history, drained.parked, drained.counted⟩

-- Between two calls the next id is never parked.
-- Only the commit loop moves the counter, and it stops where nothing is parked next.
theorem on_request_front (app : AppFn) (sv : Server) (req : Request) :
    (sv.onRequest app req).1.pendingReqs[(sv.onRequest app req).1.committedUpto + 1]? = none ∨
      (sv.onRequest app req).1.pendingReqs = sv.pendingReqs ∧
        (sv.onRequest app req).1.committedUpto = sv.committedUpto ∧ (sv.needsRecover req ∨ req.seq ≤ sv.committedUpto) := by
  apply on_request_rule (fun next _ => next.pendingReqs[next.committedUpto + 1]? = none ∨
    next.pendingReqs = sv.pendingReqs ∧ next.committedUpto = sv.committedUpto ∧
      (sv.needsRecover req ∨ req.seq ≤ sv.committedUpto))
  · exact fun refused => Or.inr ⟨rfl, rfl, Or.inl refused⟩
  · intro _ known
    right
    have same : ∀ next : Server, next.pendingReqs = sv.pendingReqs → next.committedUpto = sv.committedUpto →
        next.pendingReqs = sv.pendingReqs ∧ next.committedUpto = sv.committedUpto ∧
          (sv.needsRecover req ∨ req.seq ≤ sv.committedUpto) := fun next parked upto => ⟨parked, upto, Or.inr known⟩
    exact answer_committed_rule (fun next _ => next.trackBounds.pendingReqs = sv.pendingReqs ∧
      next.trackBounds.committedUpto = sv.committedUpto ∧ (sv.needsRecover req ∨ req.seq ≤ sv.committedUpto))
      app _ req (fun _ _ => same _ rfl rfl) (fun _ _ => same _ rfl rfl) (fun _ _ => same _ rfl rfl)
  · exact fun _ _ => Or.inl (stage_and_advance_stops app (sv.releaseAcked req) req)

theorem on_request_clear (app : AppFn) (sv : Server) (req : Request)
    (clear : sv.pendingReqs[sv.committedUpto + 1]? = none) :
    (sv.onRequest app req).1.pendingReqs[(sv.onRequest app req).1.committedUpto + 1]? = none := by
  rcases on_request_front app sv req with front | ⟨parked, upto, _⟩
  · exact front
  · rw [parked, upto]
    exact clear

theorem serve_clear (deliveries : List Delivery) (sv : Server)
    (clear : sv.pendingReqs[sv.committedUpto + 1]? = none) :
    (sv.serve deliveries).1.pendingReqs[(sv.serve deliveries).1.committedUpto + 1]? = none := by
  exact handle_all_rule _ (fun _ sv _ => sv.pendingReqs[sv.committedUpto + 1]? = none) deliveries
    (fun _ d _ sv _ _ clear => on_request_clear d.app sv d.request clear) sv clear

theorem stream_start (origin : Option Checkpoint) (setHash : Bool) :
    StreamInv (Server.start origin setHash) [] (Server.start origin setHash) {} := by
  cases origin <;>
    exact ⟨rfl, Nat.le_refl _, by simp, by simp, ⟨[], by simp, rfl⟩,
      by simp [Server.start, Server.ofCheckpoint], by simp [Server.start, Server.ofCheckpoint]⟩

theorem serve_stream (origin : Option Checkpoint) (setHash : Bool) (deliveries : List Delivery) :
    StreamInv (Server.start origin setHash) deliveries ((Server.start origin setHash).serve deliveries).1
      ((Server.start origin setHash).serve deliveries).2 :=
  handle_all_rule _ (StreamInv (Server.start origin setHash)) deliveries
    (fun seen d _ sv out _ inv => stream_call (Server.start origin setHash) seen d sv out inv)
    (Server.start origin setHash) (stream_start origin setHash)

-- Arbitrary requests in any order and number: the application runs once for
-- every committed id, in id order, on a history that ends with that request.
theorem serve_exactly_once (origin : Option Checkpoint) (setHash : Bool) (deliveries : List Delivery) :
    let start := Server.start origin setHash
    let final := (start.serve deliveries).1
    let out := (start.serve deliveries).2
    let ids := List.range' (start.committedUpto + 1) (final.committedUpto - start.committedUpto)
    start.committedUpto ≤ final.committedUpto ∧
    out.calls.map Call.seq = ids ∧
    (∀ s, final.appCalls[s]?.getD 0 = if start.committedUpto < s ∧ s ≤ final.committedUpto then 1 else 0) ∧
    (∀ call ∈ out.calls, call.committed.events.getLast? = some (.request call.seq) ∧
      ∃ d ∈ deliveries, d.request.seq = call.seq ∧ d.request.payload = call.payload) ∧
    (∃ added, final.history.events = start.history.events ++ added ∧
      added.filter (fun e => !e.isResponse) = ids.map Event.request) ∧
    (∀ k r, final.pendingReqs[k]? = some r → r.seq = k ∧ final.committedUpto + 1 < k) := by
  intro start final out ids
  have inv : StreamInv start deliveries final out := serve_stream origin setHash deliveries
  refine ⟨inv.upto, inv.calls, ?_, inv.shown, ?_, ?_⟩
  · intro s
    rw [inv.counted s, inv.calls]
    have le := inv.upto
    by_cases within : start.committedUpto < s ∧ s ≤ final.committedUpto
    · rw [if_pos within]
      exact List.count_eq_one_of_mem List.nodup_range' (List.mem_range'_1.mpr (by omega))
    · rw [if_neg within]
      exact List.count_eq_zero.mpr (fun member => within (by have := List.mem_range'_1.mp member; omega))
  · obtain ⟨added, events, requests⟩ := inv.history
    refine ⟨added, events, ?_⟩
    have ordered := congrArg (List.map Event.request) inv.calls
    rw [List.map_map] at ordered
    exact requests.trans ordered
  · intro k r parked
    obtain ⟨keySeq, above, _⟩ := inv.parked k r parked
    have clear : final.pendingReqs[final.committedUpto + 1]? = none :=
      serve_clear deliveries start (by cases origin <;> simp [start, Server.start, Server.ofCheckpoint])
    have notNext : k ≠ final.committedUpto + 1 := by
      intro next
      rw [next, clear] at parked
      cases parked
    exact ⟨keySeq, by omega⟩

end Color
