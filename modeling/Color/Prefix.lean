import Color.ClientHistory
import Color.ServerStep

set_option autoImplicit false

namespace Color

def requestIds (events : List Event) : List Nat := (events.filter (fun e => !e.isResponse)).map Event.seq

-- The id of the last request event, 0 when there is none yet.
def lastRequest (events : List Event) : Nat := (requestIds events).getLastD 0

-- The server's logical history is the first event_count() events of H: the
-- retained events are the matching slice, and hash and counter fit the prefix.
structure Follows (H : List Event) (sv : Server) : Prop where
  within : sv.history.eventCount ≤ H.length
  events : sv.history.events = (H.take sv.history.eventCount).drop sv.history.baseCount
  hash : sv.history.curHash = rolling (H.take sv.history.eventCount)
  upto : sv.committedUpto = lastRequest (H.take sv.history.eventCount)

def Ascending (events : List Event) : Prop := (0 :: requestIds events).Pairwise (· < ·)

theorem request_ids_append (a b : List Event) : requestIds (a ++ b) = requestIds a ++ requestIds b := by
  simp [requestIds, List.filter_append]

theorem last_request_response (events : List Event) (i : Nat) :
    lastRequest (events ++ [Event.response i]) = lastRequest events := by
  simp [lastRequest, requestIds, List.filter_append]

theorem last_request_responses (events : List Event) (ids : List Nat) :
    lastRequest (events ++ ids.map Event.response) = lastRequest events := by
  simp [lastRequest, requestIds, List.filter_append, List.filter_map, Function.comp_def]

theorem last_request_request (events : List Event) (s : Nat) :
    lastRequest (events ++ [Event.request s]) = s := by
  simp [lastRequest, requestIds, List.filter_append]

theorem last_request_below (events tail : List Event) (s : Nat)
    (ascending : Ascending (events ++ Event.request s :: tail)) : lastRequest events < s := by
  have ids : requestIds (events ++ Event.request s :: tail) = requestIds events ++ s :: requestIds tail := by
    rw [request_ids_append]
    rfl
  rw [Ascending, ids] at ascending
  have ordered : (0 :: requestIds events ++ s :: requestIds tail).Pairwise (· < ·) := ascending
  have cross := (List.pairwise_append.mp ordered).2.2
  have last : lastRequest events ∈ 0 :: requestIds events := by
    cases split : requestIds events with
    | nil => simp [lastRequest, split]
    | cons first rest => simp [lastRequest, split, List.getLastD]
  exact cross _ last s (by simp)

theorem canonical_ascending (reqs : List Request) (numbered : Numbered reqs) : Ascending (canonical reqs) := by
  have ids : requestIds (canonical reqs) = List.range' 1 reqs.length := by
    rw [requestIds, canonical_requests, List.map_map]
    apply List.ext_getElem?
    intro i
    by_cases inside : i < reqs.length
    · have found := List.getElem?_eq_getElem inside
      have seq := numbered i _ found
      rw [List.getElem?_map, List.getElem?_range' inside, found]
      simp [seq, Nat.add_comm]
    · simp [inside]
  have whole : 0 :: List.range' 1 reqs.length = List.range' 0 (reqs.length + 1) := rfl
  rw [Ascending, ids, whole]
  exact List.pairwise_lt_range'

theorem canonical_nodup (reqs : List Request) (numbered : Numbered reqs)
    (acked : (reqs.flatMap Request.ackNew).Nodup) : (canonical reqs).Nodup := by
  induction reqs using List.reverseRecOn with
  | nil => simp [canonical]
  | append_singleton before r ih =>
      have earlier : Numbered before := by
        have taken := numbered_take (before ++ [r]) before.length numbered
        simpa using taken
      rw [List.flatMap_append, List.nodup_append] at acked
      obtain ⟨beforeAcked, ownAcked, apart⟩ := acked
      rw [canonical_concat, List.nodup_append]
      refine ⟨ih earlier beforeAcked, ?_, ?_⟩
      · rw [commitEvents, List.nodup_append]
        refine ⟨?_, List.nodup_singleton _, by simp⟩
        have flat : r.ackNew.Nodup := by simpa using ownAcked
        exact flat.map (fun i j same => by simpa using same)
      · rintro ⟨isResponse, s⟩ old e new rfl
        cases List.mem_append.mp new with
        | inl response =>
            obtain ⟨i, listed, eq⟩ := List.mem_map.mp response
            cases eq
            obtain ⟨q, member, acks⟩ := (response_mem_canonical before s).mp old
            exact apart s (List.mem_flatMap.mpr ⟨q, member, acks⟩) s (by simpa using listed) rfl
        | inr request =>
            cases List.mem_singleton.mp request
            obtain ⟨q, member, seq⟩ := (request_mem_canonical before r.seq).mp old
            have qBound := (numbered_seq_index before q earlier member).2.2
            have last : r.seq = before.length + 1 := numbered before.length r (by simp)
            omega

-- ---- ingest_replay as one append to the history ----

theorem ingest_fold_history (events : List ReplayEvent) (sv : Server) :
    (events.foldl Server.ingestEvent sv).history = sv.history.appendAll (events.map ReplayEvent.event) := by
  induction events generalizing sv with
  | nil => rfl
  | cons e rest ih =>
      rw [List.foldl_cons, ih, List.map_cons, append_all_cons, Server.ingestEvent]
      split <;> rfl

theorem ingest_fold_upto (before : List Event) (events : List ReplayEvent) (sv : Server)
    (upto : sv.committedUpto = lastRequest before)
    (ascending : Ascending (before ++ events.map ReplayEvent.event)) :
    (events.foldl Server.ingestEvent sv).committedUpto = lastRequest (before ++ events.map ReplayEvent.event) := by
  induction events generalizing before sv with
  | nil => simpa using upto
  | cons e rest ih =>
      have shift : before ++ (e :: rest).map ReplayEvent.event =
          (before ++ [e.event]) ++ rest.map ReplayEvent.event := by simp
      rw [List.foldl_cons, shift]
      apply ih (before ++ [e.event]) (sv.ingestEvent e) _ (shift ▸ ascending)
      cases kind : e.isResponse with
      | true =>
          have event : e.event = Event.response e.seq := by simp [ReplayEvent.event, kind]
          rw [event, last_request_response, ← upto, Server.ingestEvent, if_pos kind]
      | false =>
          have event : e.event = Event.request e.seq := by simp [ReplayEvent.event, kind]
          have larger : sv.committedUpto < e.seq := by
            rw [upto]
            apply last_request_below before (rest.map ReplayEvent.event) e.seq
            rw [← event]
            simpa using ascending
          rw [event, last_request_request, Server.ingestEvent]
          simp [kind, larger]

theorem ingest_replay_eq (sv : Server) (rp : Replay) :
    sv.ingestReplay rp = (rp.events.drop (sv.history.eventCount - rp.fromIndex)).foldl Server.ingestEvent sv := by
  have skip : (if sv.history.eventCount > rp.fromIndex then sv.history.eventCount - rp.fromIndex else 0) =
      sv.history.eventCount - rp.fromIndex := by
    split <;> omega
  rw [Server.ingestReplay, skip]

theorem build_replay_events (c : Client) (fromIndex : Nat) :
    (c.buildReplay fromIndex).events.map ReplayEvent.event = c.history.events.drop fromIndex := by
  simp [Client.buildReplay, Client.replayEvent, ReplayEvent.event, Function.comp_def]

theorem follows_extend (H H₀ : List Event) (sv : Server) (events : List ReplayEvent) (follows : Follows H sv)
    (pre : H₀ <+: H) (ascending : Ascending H)
    (suffix : events.map ReplayEvent.event = H₀.drop sv.history.eventCount) :
    Follows H (events.foldl Server.ingestEvent sv) ∧
      (events.foldl Server.ingestEvent sv).history.eventCount = max sv.history.eventCount H₀.length := by
  have length : events.length = H₀.length - sv.history.eventCount := by
    rw [← List.length_drop, ← suffix, List.length_map]
  have base : sv.history.baseCount ≤ sv.history.eventCount := Nat.le_add_right _ _
  have count : (events.foldl Server.ingestEvent sv).history.eventCount = max sv.history.eventCount H₀.length := by
    rw [ingest_fold_history, History.eventCount, append_all_base, append_all_events, List.length_append,
      List.length_map, length, History.eventCount]
    omega
  -- The new prefix of H is the old one followed by the appended events.
  have joined : H.take (max sv.history.eventCount H₀.length) =
      H.take sv.history.eventCount ++ events.map ReplayEvent.event := by
    rw [suffix]
    obtain ⟨later, whole⟩ := pre
    rw [← whole]
    by_cases behind : sv.history.eventCount ≤ H₀.length
    · rw [Nat.max_eq_right behind, List.take_left, List.take_append_of_le_length behind, List.take_append_drop]
    · rw [Nat.max_eq_left (by omega), List.drop_of_length_le (by omega), List.append_nil]
  have within : max sv.history.eventCount H₀.length ≤ H.length :=
    Nat.max_le.mpr ⟨follows.within, pre.length_le⟩
  refine ⟨⟨count ▸ within, ?_, ?_, ?_⟩, count⟩
  · rw [count, joined, ingest_fold_history, append_all_events, append_all_base, follows.events,
      List.drop_append_of_le_length]
    rw [List.length_take, Nat.min_eq_left follows.within]
    exact base
  · rw [count, joined, ingest_fold_history, append_all_hash, follows.hash, rolling_append]
  · rw [count, joined]
    apply ingest_fold_upto _ _ _ follows.upto
    rw [← joined, Ascending]
    exact List.Pairwise.sublist (List.Sublist.cons_cons 0
      ((List.Sublist.filter _ (List.take_sublist _ _)).map _)) ascending

end Color
