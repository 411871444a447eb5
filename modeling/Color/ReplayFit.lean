import Color.Prefix
import Color.RequestStream

set_option autoImplicit false

namespace Color

inductive ClientAction where
  | generate (payload : Payload)
  | respond (resp : Response)

def Client.act (c : Client) : ClientAction → Client
  | .generate p => (c.generateRequest p).2
  | .respond resp => (c.onResponse resp).2

def Client.run (c : Client) (actions : List ClientAction) : Client := actions.foldl Client.act c

theorem client_run_inv (reqs : List Request) (c : Client) (actions : List ClientAction) (inv : ClientInv reqs c) :
    ∃ more, ClientInv (reqs ++ more) (c.run actions) := by
  induction actions generalizing reqs c with
  | nil => exact ⟨[], by simpa [Client.run] using inv⟩
  | cons action rest ih =>
      cases action with
      | generate p =>
          obtain ⟨more, later⟩ := ih _ _ (generate_request_inv reqs c p inv)
          exact ⟨(c.generateRequest p).1 :: more, by simpa [Client.run, Client.act] using later⟩
      | respond resp => exact ih _ _ (on_response_inv reqs c resp inv)

-- A replay that starts within the held prefix extends it along the client's order.
theorem ingest_replay_fits (H : List Event) (c : Client) (fromIndex : Nat) (sv : Server) (follows : Follows H sv)
    (pre : c.history.events <+: H) (ascending : Ascending H) (fits : fromIndex ≤ sv.history.eventCount) :
    Follows H (sv.ingestReplay (c.buildReplay fromIndex)) ∧
      (sv.ingestReplay (c.buildReplay fromIndex)).history.eventCount =
        max sv.history.eventCount c.history.events.length := by
  rw [ingest_replay_eq]
  apply follows_extend H c.history.events sv _ follows pre ascending
  rw [List.map_drop, build_replay_events, List.drop_drop]
  congr 1
  change fromIndex + (sv.history.eventCount - fromIndex) = sv.history.eventCount
  omega

-- A gap between the held prefix and a non-empty replay puts a later event where
-- the client has an earlier one.
theorem ingest_replay_gap (H : List Event) (c : Client) (fromIndex : Nat) (sv : Server) (nodup : H.Nodup)
    (pre : c.history.events <+: H) (follows : Follows H sv) (gap : sv.history.eventCount < fromIndex)
    (nonempty : fromIndex < c.history.events.length) :
    ¬ Follows H (sv.ingestReplay (c.buildReplay fromIndex)) := by
  intro after
  have ingested : (sv.ingestReplay (c.buildReplay fromIndex)).history =
      sv.history.appendAll (c.history.events.drop fromIndex) := by
    have skip : sv.history.eventCount - (c.buildReplay fromIndex).fromIndex = 0 := Nat.sub_eq_zero_of_le (Nat.le_of_lt gap)
    rw [ingest_replay_eq, skip, List.drop_zero, ingest_fold_history, build_replay_events]
  have base : sv.history.baseCount ≤ sv.history.eventCount := Nat.le_add_right _ _
  have length : sv.history.events.length = sv.history.eventCount - sv.history.baseCount :=
    (Nat.add_sub_cancel_left _ _).symm
  have events := after.events
  rw [ingested, History.eventCount, append_all_events, append_all_base, follows.events, List.length_append] at events
  have access := congrArg (fun l => l[sv.history.eventCount - sv.history.baseCount]?) events
  have longer := pre.length_le
  have left : ((H.take sv.history.eventCount).drop sv.history.baseCount ++
      c.history.events.drop fromIndex)[sv.history.eventCount - sv.history.baseCount]? = H[fromIndex]? := by
    rw [List.getElem?_append_right (by simp; omega), List.getElem?_drop]
    have here : fromIndex + (sv.history.eventCount - sv.history.baseCount -
        ((H.take sv.history.eventCount).drop sv.history.baseCount).length) = fromIndex := by
      simp
      omega
    rw [here]
    obtain ⟨later, whole⟩ := pre
    rw [← whole, List.getElem?_append_left nonempty]
  have right (total : Nat) (enough : sv.history.eventCount < total) :
      ((H.take total).drop sv.history.baseCount)[sv.history.eventCount - sv.history.baseCount]? =
        H[sv.history.eventCount]? := by
    have here : sv.history.baseCount + (sv.history.eventCount - sv.history.baseCount) = sv.history.eventCount := by omega
    rw [List.getElem?_drop, here, List.getElem?_take, if_pos enough]
  have same : H[fromIndex]? = H[sv.history.eventCount]? :=
    left.symm.trans (access.trans (right _ (by simp; omega)))
  have equal := (List.getElem?_inj (by omega) nodup).mp same
  omega

-- Exactly when a delayed replay is safe for the instance that receives it.
theorem ingest_replay_follows_iff (setHash : Bool) (early late : List ClientAction) (fromIndex : Nat) (sv : Server)
    (follows : Follows (((Client.fresh setHash).run early).run late).history.events sv) :
    Follows (((Client.fresh setHash).run early).run late).history.events
        (sv.ingestReplay (((Client.fresh setHash).run early).buildReplay fromIndex)) ↔
      fromIndex ≤ sv.history.eventCount ∨
        (((Client.fresh setHash).run early).buildReplay fromIndex).events = [] := by
  obtain ⟨reqs, built⟩ := client_run_inv [] _ early (client_fresh setHash)
  obtain ⟨more, now⟩ := client_run_inv _ _ late built
  rw [List.nil_append] at built now
  have pre : ((Client.fresh setHash).run early).history.events <+:
      (((Client.fresh setHash).run early).run late).history.events :=
    ⟨canonical more, by rw [built.events, now.events, canonical_append]⟩
  have ascending : Ascending (((Client.fresh setHash).run early).run late).history.events :=
    now.events ▸ canonical_ascending _ now.numbered
  have nodup : (((Client.fresh setHash).run early).run late).history.events.Nodup :=
    now.events ▸ canonical_nodup _ now.numbered (List.nodup_append.mp now.acked).1
  constructor
  · intro after
    by_contra neither
    rw [not_or] at neither
    have nonempty : fromIndex < ((Client.fresh setHash).run early).history.events.length := by
      by_contra outside
      exact neither.2 (by simp [Client.buildReplay, List.drop_of_length_le (Nat.le_of_not_lt outside)])
    exact ingest_replay_gap _ _ fromIndex sv nodup pre follows (by omega) nonempty after
  · rintro (fits | empty)
    · exact (ingest_replay_fits _ _ fromIndex sv follows pre ascending fits).1
    · rw [ingest_replay_eq, empty, List.drop_nil]
      exact follows

theorem ingest_replay_follows_iff_fresh :
    Follows [.request 1, .request 2]
        ((Server.start none true).ingestReplay
          (((Client.fresh true).run [.generate [1], .generate [2]]).buildReplay 0)) ↔
      0 ≤ (Server.start none true).history.eventCount ∨
        (((Client.fresh true).run [.generate [1], .generate [2]]).buildReplay 0).events = [] :=
  ingest_replay_follows_iff true [.generate [1], .generate [2]] [] 0 (Server.start none true)
    ⟨by decide, rfl, rfl, rfl⟩

-- Request 3 acknowledges 1 and 2, so an instance that holds only R1 asks for a
-- replay from index 1. It reaches a successor restored from the first checkpoint.
def answeredConversation : List ClientAction :=
  [.generate [1], .generate [2], .respond { seq := 1, payload := [11] }, .respond { seq := 2, payload := [12] },
    .generate [3]]

theorem ingest_replay_gap_accepted :
    ¬ ∀ (setHash : Bool) (early late : List ClientAction) (fromIndex : Nat) (sv : Server),
      fromIndex ≤ ((Client.fresh setHash).run early).history.events.length →
      Follows (((Client.fresh setHash).run early).run late).history.events sv →
      Follows (((Client.fresh setHash).run early).run late).history.events
        (sv.ingestReplay (((Client.fresh setHash).run early).buildReplay fromIndex)) := by
  intro safe
  have after := safe true answeredConversation [] 1 (.ofCheckpoint ((Server.start none true).checkpoint .ascending) true)
    (by decide) ⟨by decide, rfl, rfl, rfl⟩
  have wrong : ((Server.ofCheckpoint ((Server.start none true).checkpoint .ascending) true).ingestReplay
      (((Client.fresh true).run answeredConversation).buildReplay 1)).history.events =
        [.request 2, .response 1, .response 2, .request 3] := by decide
  have right := after.events
  rw [wrong] at right
  revert right
  decide

end Color
