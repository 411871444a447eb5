import Color.Agreement

set_option autoImplicit false

namespace Color

-- A replay holds what the client's history held from its index on when it was built.
def ReplayOk (reqs : List Request) (rp : Replay) : Prop :=
  ∃ m ≤ reqs.length, rp.events.map ReplayEvent.event = (canonical (reqs.take m)).drop rp.fromIndex

theorem build_replay_ok (reqs : List Request) (c : Client) (fromIndex : Nat) (inv : ClientInv reqs c) :
    ReplayOk reqs (c.buildReplay fromIndex) := by
  refine ⟨reqs.length, Nat.le_refl _, ?_⟩
  rw [build_replay_events, inv.events, List.take_length]
  rfl

-- The client has acknowledged r<s> within the first k requests.
def AnsweredBy (reqs : List Request) (k s : Nat) : Prop := Event.response s ∈ canonical (reqs.take k)

theorem answered_by_mono (reqs : List Request) (k m s : Nat) (le : k ≤ m) (answered : AnsweredBy reqs k s) :
    AnsweredBy reqs m s :=
  (canonical_take_mono reqs k m le).subset answered

-- ---- what replays change ----

-- New request events become awaiting, answered ones leave the buffer and the
-- awaiting set, and nothing else is touched.
structure ReplayEffect (reqs : List Request) (sv next : Server) : Prop where
  agrees : Agrees reqs next
  upto : sv.committedUpto ≤ next.committedUpto
  awaiting : ∀ s ∈ next.awaiting, s ∈ sv.awaiting ∨ sv.committedUpto < s
  clean : ∀ s ∈ next.awaiting, AnsweredBy reqs next.committedUpto s → s ∈ sv.awaiting ∧ AnsweredBy reqs sv.committedUpto s
  cleared : ∀ s, s ∈ sv.awaiting ∨ sv.committedUpto < s ∧ s ≤ next.committedUpto →
    s ∈ next.awaiting ∨ AnsweredBy reqs next.committedUpto s
  buffer : ∀ (s : Nat) (p : Payload), next.respBuffer[s]? = some p → sv.respBuffer[s]? = some p
  kept : ∀ s ∈ sv.respBuffer, s ∈ next.respBuffer ∨ AnsweredBy reqs next.committedUpto s
  parked : next.pendingReqs = sv.pendingReqs

theorem replay_effect_refl (reqs : List Request) (sv : Server) (agrees : Agrees reqs sv) : ReplayEffect reqs sv sv := by
  refine ⟨agrees, Nat.le_refl _, fun _ => Or.inl, fun _ => And.intro, ?_, fun _ _ => id, fun _ => Or.inl, rfl⟩
  rintro s (owed | ⟨above, within⟩)
  · exact Or.inl owed
  · omega

theorem replay_effect_trans (reqs : List Request) (a b c : Server) (first : ReplayEffect reqs a b)
    (second : ReplayEffect reqs b c) : ReplayEffect reqs a c := by
  have later : ∀ s, AnsweredBy reqs b.committedUpto s → AnsweredBy reqs c.committedUpto s :=
    fun s => answered_by_mono reqs _ _ s second.upto
  refine ⟨second.agrees, Nat.le_trans first.upto second.upto, ?_, ?_, ?_, ?_, ?_, second.parked.trans first.parked⟩
  · intro s member
    cases second.awaiting s member with
    | inl before => exact first.awaiting s before
    | inr above => exact Or.inr (Nat.lt_of_le_of_lt first.upto above)
  · intro s member answered
    obtain ⟨before, earlier⟩ := second.clean s member answered
    exact first.clean s before earlier
  · intro s source
    have middle : (s ∈ b.awaiting ∨ b.committedUpto < s ∧ s ≤ c.committedUpto) ∨ AnsweredBy reqs b.committedUpto s := by
      rcases source with owed | ⟨above, within⟩
      · exact (first.cleared s (Or.inl owed)).imp Or.inl id
      · by_cases reached : s ≤ b.committedUpto
        · exact (first.cleared s (Or.inr ⟨above, reached⟩)).imp Or.inl id
        · exact Or.inl (Or.inr ⟨by omega, within⟩)
    cases middle with
    | inl open_ => exact second.cleared s open_
    | inr answered => exact Or.inr (later s answered)
  · exact fun s p found => first.buffer s p (second.buffer s p found)
  · intro s member
    cases first.kept s member with
    | inl kept => exact second.kept s kept
    | inr answered => exact Or.inr (later s answered)

theorem ingest_event_parked (sv : Server) (e : ReplayEvent) : (sv.ingestEvent e).pendingReqs = sv.pendingReqs := by
  rw [Server.ingestEvent]
  split <;> rfl

-- The effect so far, while replay is still ingesting, in terms of the prefix it has reached.
structure Reached (reqs : List Request) (sv : Server) (pre : List Event) (next : Server) : Prop where
  upto : sv.committedUpto ≤ next.committedUpto
  awaiting : ∀ s ∈ next.awaiting, s ∈ sv.awaiting ∨ sv.committedUpto < s
  clean : ∀ s ∈ next.awaiting, Event.response s ∈ pre → s ∈ sv.awaiting ∧ AnsweredBy reqs sv.committedUpto s
  cleared : ∀ s, s ∈ sv.awaiting ∨ sv.committedUpto < s ∧ s ≤ next.committedUpto →
    s ∈ next.awaiting ∨ Event.response s ∈ pre
  buffer : ∀ (s : Nat) (p : Payload), next.respBuffer[s]? = some p → sv.respBuffer[s]? = some p
  kept : ∀ s ∈ sv.respBuffer, s ∈ next.respBuffer ∨ Event.response s ∈ pre
  parked : next.pendingReqs = sv.pendingReqs

theorem reached_response (reqs : List Request) (sv next : Server) (pre : List Event) (e : ReplayEvent)
    (kind : e.isResponse = true) (before : Reached reqs sv pre next) :
    Reached reqs sv (pre ++ [e.event]) (next.ingestEvent e) := by
  have event : e.event = Event.response e.seq := by simp [ReplayEvent.event, kind]
  have uptoEq : (next.ingestEvent e).committedUpto = next.committedUpto := by simp [Server.ingestEvent, kind]
  have awaitingEq : (next.ingestEvent e).awaiting = next.awaiting.erase e.seq := by simp [Server.ingestEvent, kind]
  have bufferEq : (next.ingestEvent e).respBuffer = next.respBuffer.erase e.seq := by simp [Server.ingestEvent, kind]
  have answered : ∀ s, Event.response s ∈ pre ++ [e.event] ↔ Event.response s ∈ pre ∨ s = e.seq := by
    intro s
    rw [event]
    simp
  refine ⟨uptoEq ▸ before.upto, ?_, ?_, ?_, ?_, ?_, (ingest_event_parked next e).trans before.parked⟩
  · rw [awaitingEq]
    exact fun s member => before.awaiting s (Finset.mem_of_mem_erase member)
  · rw [awaitingEq]
    intro s member listed
    cases (answered s).mp listed with
    | inl old => exact before.clean s (Finset.mem_of_mem_erase member) old
    | inr here => exact absurd here (Finset.ne_of_mem_erase member)
  · rw [awaitingEq, uptoEq]
    intro s source
    by_cases here : s = e.seq
    · exact Or.inr ((answered s).mpr (Or.inr here))
    · exact (before.cleared s source).imp (Finset.mem_erase_of_ne_of_mem here) (fun old => (answered s).mpr (Or.inl old))
  · rw [bufferEq]
    intro s p found
    exact before.buffer s p (Tables.erase_found _ _ _ _ found).2
  · rw [bufferEq]
    intro s member
    by_cases here : s = e.seq
    · exact Or.inr ((answered s).mpr (Or.inr here))
    · refine (before.kept s member).imp (fun inside => ?_) (fun old => (answered s).mpr (Or.inl old))
      rw [Tables.mem_iff_lookup] at inside ⊢
      obtain ⟨p, found⟩ := inside
      exact ⟨p, by rw [Tables.lookup_erase, if_neg here, found]⟩

theorem reached_request (reqs : List Request) (sv next : Server) (pre : List Event) (e : ReplayEvent)
    (kind : e.isResponse = false) (nextSeq : e.seq = next.committedUpto + 1) (unanswered : Event.response e.seq ∉ pre)
    (before : Reached reqs sv pre next) : Reached reqs sv (pre ++ [e.event]) (next.ingestEvent e) := by
  have event : e.event = Event.request e.seq := by simp [ReplayEvent.event, kind]
  have uptoEq : (next.ingestEvent e).committedUpto = e.seq := by simp [Server.ingestEvent, kind]; omega
  have awaitingEq : (next.ingestEvent e).awaiting = insert e.seq next.awaiting := by simp [Server.ingestEvent, kind]
  have bufferEq : (next.ingestEvent e).respBuffer = next.respBuffer := by simp [Server.ingestEvent, kind]
  have answered : ∀ s, Event.response s ∈ pre ++ [e.event] ↔ Event.response s ∈ pre := by
    intro s
    rw [event]
    simp
  have forward := before.upto
  refine ⟨by omega, ?_, ?_, ?_, bufferEq ▸ before.buffer, ?_, (ingest_event_parked next e).trans before.parked⟩
  · rw [awaitingEq]
    intro s member
    cases Finset.mem_insert.mp member with
    | inl new => exact Or.inr (by omega)
    | inr old => exact before.awaiting s old
  · rw [awaitingEq]
    intro s member listed
    have earlier := (answered s).mp listed
    cases Finset.mem_insert.mp member with
    | inl new => exact absurd (new ▸ earlier) unanswered
    | inr old => exact before.clean s old earlier
  · rw [awaitingEq, uptoEq]
    intro s source
    by_cases here : s = e.seq
    · exact Or.inl (here ▸ Finset.mem_insert_self _ _)
    · have within : s ∈ sv.awaiting ∨ sv.committedUpto < s ∧ s ≤ next.committedUpto :=
        source.imp_right (fun range => ⟨range.1, by omega⟩)
      exact (before.cleared s within).imp Finset.mem_insert_of_mem (answered s).mpr
  · rw [bufferEq]
    exact fun s member => (before.kept s member).imp_right (answered s).mpr

theorem replay_effect (reqs : List Request) (sv : Server) (rp : Replay) (issued : Issued reqs) (agrees : Agrees reqs sv)
    (ok : ReplayOk reqs rp) (fits : rp.fromIndex ≤ sv.history.eventCount) :
    ReplayEffect reqs sv (sv.ingestReplay rp) := by
  obtain ⟨m, bound, built⟩ := ok
  have start : Reached reqs sv (canonical (reqs.take sv.committedUpto)) sv := by
    obtain ⟨_, _, awaiting, clean, cleared, buffer, kept, parked⟩ := replay_effect_refl reqs sv agrees
    exact ⟨Nat.le_refl _, awaiting, clean, cleared, buffer, kept, parked⟩
  have keep : ∀ pre next e, Holds reqs pre next → Reached reqs sv pre next → pre ++ [e.event] <+: canonical reqs →
      Reached reqs sv (pre ++ [e.event]) (next.ingestEvent e) := by
    intro pre next e holds before within
    cases kind : e.isResponse with
    | true => exact reached_response reqs sv next pre e kind before
    | false =>
        have event : e.event = Event.request e.seq := by simp [ReplayEvent.event, kind]
        obtain ⟨nextSeq, unanswered⟩ := ingest_request_next reqs issued pre next e.seq holds (event ▸ within)
        exact reached_request reqs sv next pre e kind nextSeq unanswered before
  obtain ⟨after, uptoEq, reached⟩ := ingest_replay_rule reqs issued (Reached reqs sv) keep sv rp m agrees bound fits built start
  rw [← uptoEq] at reached
  exact ⟨after, reached.upto, reached.awaiting, reached.clean, reached.cleared, reached.buffer, reached.kept, reached.parked⟩

end Color
