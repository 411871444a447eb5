import Color.ReplayFit
import Color.Library.CatchUp

set_option autoImplicit false

namespace Color

-- What ingesting one event of the history does: the payload and the hash a
-- replay carries along with it are not looked at.
def Server.absorb (sv : Server) (e : Event) : Server := sv.ingestEvent { isResponse := e.isResponse, seq := e.seq }

theorem ingest_event_absorb (sv : Server) (e : ReplayEvent) : sv.ingestEvent e = sv.absorb e.event := by
  rw [Server.absorb, Server.ingestEvent, Server.ingestEvent]
  rfl

theorem ingest_fold_absorb (events : List ReplayEvent) (sv : Server) :
    events.foldl Server.ingestEvent sv = (events.map ReplayEvent.event).foldl Server.absorb sv := by
  induction events generalizing sv with
  | nil => rfl
  | cons e rest ih => rw [List.foldl_cons, List.map_cons, List.foldl_cons, ingest_event_absorb, ih]

def Server.held (sv : Server) : Nat := sv.history.eventCount

theorem absorb_held (sv : Server) (e : Event) : (sv.absorb e).held = sv.held + 1 := by
  rw [Server.held, Server.held, Server.absorb, Server.ingestEvent]
  split <;> simp [History.eventCount, History.append, Nat.add_assoc]

-- The position in the client's history that a replay leads to.
def Replay.reach (rp : Replay) : Nat := rp.fromIndex + rp.events.length

theorem run_history_prefix (setHash : Bool) (early actions : List ClientAction) (older : early <+: actions) :
    ((Client.fresh setHash).run early).history.events <+: ((Client.fresh setHash).run actions).history.events := by
  obtain ⟨late, whole⟩ := older
  have split : (Client.fresh setHash).run actions = ((Client.fresh setHash).run early).run late := by
    rw [← whole, Client.run, List.foldl_append]
    rfl
  obtain ⟨reqs, built⟩ := client_run_inv [] _ early (client_fresh setHash)
  obtain ⟨more, now⟩ := client_run_inv _ _ late built
  rw [List.nil_append] at built now
  exact ⟨canonical more, by rw [split, built.events, now.events, canonical_append]⟩

-- A replay that starts within what the server holds feeds it the log up to its reach.
theorem ingest_replay_feed (H : List Event) (c : Client) (fromIndex : Nat) (sv : Server)
    (pre : c.history.events <+: H) (fits : fromIndex ≤ sv.held) :
    sv.ingestReplay (c.buildReplay fromIndex) =
      CatchUp.feed Server.absorb Server.held H (c.buildReplay fromIndex).reach sv := by
  have reach : (c.buildReplay fromIndex).reach = fromIndex + (c.history.events.length - fromIndex) := by
    simp [Replay.reach, Client.buildReplay]
  have start : fromIndex + (sv.held - fromIndex) = sv.held := by omega
  rw [ingest_replay_eq, ingest_fold_absorb, List.map_drop, build_replay_events, List.drop_drop, CatchUp.feed, reach]
  change (c.history.events.drop (fromIndex + (sv.held - fromIndex))).foldl Server.absorb sv = _
  rw [start]
  congr 1
  by_cases inside : fromIndex ≤ c.history.events.length
  · rw [Nat.add_sub_cancel' inside, ← List.prefix_iff_eq_take.mp pre]
  · have beyond : (H.take (fromIndex + (c.history.events.length - fromIndex))).length ≤ sv.held := by
      rw [List.length_take]
      omega
    rw [List.drop_of_length_le beyond, List.drop_of_length_le (by omega)]

theorem ingest_all_feed (H : List Event) (order : List Replay) (sv : Server)
    (built : ∀ rp ∈ order, ∃ (c : Client) (fromIndex : Nat), c.history.events <+: H ∧ fromIndex ≤ sv.held ∧
      rp = c.buildReplay fromIndex) :
    order.foldl Server.ingestReplay sv =
      (order.map Replay.reach).foldl (fun sv reach => CatchUp.feed Server.absorb Server.held H reach sv) sv := by
  induction order generalizing sv with
  | nil => rfl
  | cons rp rest ih =>
      obtain ⟨c, fromIndex, pre, fits, made⟩ := built rp (by simp)
      have first : sv.ingestReplay rp = CatchUp.feed Server.absorb Server.held H rp.reach sv := by
        rw [made]
        exact ingest_replay_feed H c fromIndex sv pre fits
      rw [List.foldl_cons, List.map_cons, List.foldl_cons, first]
      apply ih
      intro later member
      obtain ⟨other, start, otherPre, otherFits, otherMade⟩ := built later (by simp [member])
      have grown := CatchUp.count_feed Server.absorb Server.held H absorb_held rp.reach sv
      exact ⟨other, start, otherPre, by omega, otherMade⟩

-- Replays the client built at any times of its run, ingested in any order and
-- with any repetition: the one that reaches furthest decides.
theorem replays_commute (setHash : Bool) (actions : List ClientAction) (sv : Server) (replays order : List Replay)
    (furthest : Replay)
    (built : ∀ rp ∈ replays, ∃ early fromIndex, early <+: actions ∧ fromIndex ≤ sv.history.eventCount ∧
      rp = ((Client.fresh setHash).run early).buildReplay fromIndex)
    (member : furthest ∈ replays) (nearer : ∀ rp ∈ replays, rp.reach ≤ furthest.reach)
    (same : ∀ rp, rp ∈ order ↔ rp ∈ replays) :
    order.foldl Server.ingestReplay sv = sv.ingestReplay furthest := by
  have client (rp : Replay) (inside : rp ∈ replays) : ∃ (c : Client) (fromIndex : Nat),
      c.history.events <+: ((Client.fresh setHash).run actions).history.events ∧ fromIndex ≤ sv.held ∧
        rp = c.buildReplay fromIndex := by
    obtain ⟨early, fromIndex, older, fits, made⟩ := built rp inside
    exact ⟨_, fromIndex, run_history_prefix setHash early actions older, fits, made⟩
  obtain ⟨c, fromIndex, pre, fits, made⟩ := client furthest member
  have once := ingest_replay_feed _ c fromIndex sv pre fits
  rw [← made] at once
  rw [once, ingest_all_feed _ order sv (fun rp inside => client rp ((same rp).mp inside))]
  apply CatchUp.feed_all Server.absorb Server.held _ absorb_held
  case member => exact List.mem_map_of_mem ((same furthest).mpr member)
  case nearer =>
    intro reach listed
    obtain ⟨rp, inside, eq⟩ := List.mem_map.mp listed
    rw [← eq]
    exact nearer rp ((same rp).mp inside)

-- Two senders answer one recovery before and after the third request.
def overlappingReplays : List Replay :=
  [((Client.fresh true).run [.generate [1], .generate [2]]).buildReplay 0,
    ((Client.fresh true).run [.generate [1], .generate [2], .generate [3]]).buildReplay 0]

theorem replays_commute_overlapping :
    (overlappingReplays.reverse ++ overlappingReplays).foldl Server.ingestReplay (Server.start none true) =
      (Server.start none true).ingestReplay
        (((Client.fresh true).run [.generate [1], .generate [2], .generate [3]]).buildReplay 0) := by
  apply replays_commute true [.generate [1], .generate [2], .generate [3]] (Server.start none true) overlappingReplays
  case built =>
    intro rp inside
    cases List.mem_cons.mp inside with
    | inl first => exact ⟨[.generate [1], .generate [2]], 0, ⟨[.generate [3]], rfl⟩, Nat.zero_le _, first⟩
    | inr second => exact ⟨_, 0, List.prefix_rfl, Nat.zero_le _, List.mem_singleton.mp second⟩
  case member => simp [overlappingReplays]
  case nearer => decide +kernel
  case same => simp

end Color
