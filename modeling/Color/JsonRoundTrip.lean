import Color.JsonVariants
import Color.ClientCanonical

set_option autoImplicit false

namespace Color

-- ---- objects and arrays without blanks ----

-- The piece is read off whatever the next comma or closing bracket starts.
structure Reads {α : Type} (close : UInt8) (item : α → Parser → Except α (α × Parser)) (piece : Piece α) : Prop where
  starts : ∃ b tail, piece.text = b :: tail ∧ isBlank b = false ∧ b ≠ close
  read : ∀ out b rest, b = ch ',' ∨ b = close →
    item out ⟨piece.text ++ b :: rest, true⟩ = .ok (piece.effect out, ⟨b :: rest, true⟩)

section Enclosed

variable {α : Type} (close : UInt8) (item : α → Parser → Except α (α × Parser))

theorem members_close (solid : isBlank close = false) (fuel : Nat) (out : α) (rest : List UInt8) :
    Parser.members close item (fuel + 1) out ⟨close :: rest, true⟩ = .ok (out, ⟨close :: rest, true⟩) := by
  simp [Parser.members, peek_here close close rest true solid]

theorem members_turn (piece : Piece α) (reads : Reads close item piece) (fuel : Nat) (out : α) (b : UInt8)
    (rest : List UInt8) (next : b = ch ',' ∨ b = close) (solid : isBlank b = false) :
    Parser.members close item (fuel + 1) out ⟨piece.text ++ b :: rest, true⟩ =
      Parser.members close item fuel (piece.effect out) (if b = close then ⟨b :: rest, true⟩ else ⟨rest, true⟩) := by
  obtain ⟨first, tail, shape, firstSolid, open_⟩ := reads.starts
  have peeked : Parser.peek ⟨piece.text ++ b :: rest, true⟩ close = (false, ⟨piece.text ++ b :: rest, true⟩) := by
    rw [shape, List.cons_append, peek_here first close _ true firstSolid, decide_eq_false open_]
  rw [Parser.members, peeked]
  simp only [Bool.not_true, Bool.or_false, Bool.false_eq_true, if_false]
  rw [reads.read out b rest next]
  simp only [peek_here b close rest true solid, decide_eq_true_eq]
  by_cases closing : b = close
  · simp only [closing, if_true]
  · have comma : b = ch ',' := next.resolve_right closing
    subst comma
    simp only [closing, if_false, eat_here (ch ',') rest true solid]

theorem members_read (solid : isBlank close = false) (distinct : ch ',' ≠ close) (pieces : List (Piece α))
    (reads : ∀ piece ∈ pieces, Reads close item piece) (fuel : Nat) (enough : pieces.length < fuel) (out : α)
    (rest : List UInt8) :
    Parser.members close item fuel out ⟨joined (pieces.map Piece.text) ++ close :: rest, true⟩ =
      .ok (pieces.foldl (fun out piece => piece.effect out) out, ⟨close :: rest, true⟩) := by
  induction pieces generalizing fuel out with
  | nil =>
      cases fuel with
      | zero => simp at enough
      | succ fuel => exact members_close close item solid fuel out rest
  | cons piece pieces ih =>
      cases fuel with
      | zero => simp at enough
      | succ fuel =>
          have own := reads piece List.mem_cons_self
          have later := fun other member => reads other (List.mem_cons_of_mem piece member)
          have left : pieces.length < fuel := by simpa using enough
          cases pieces with
          | nil =>
              have turn := members_turn close item piece own fuel out close rest (Or.inr rfl) solid
              rw [if_pos rfl] at turn
              exact turn.trans (ih later fuel left (piece.effect out))
          | cons next pieces =>
              have turn := members_turn close item piece own fuel out (ch ',')
                (joined ((next :: pieces).map Piece.text) ++ close :: rest) (Or.inl rfl) (by decide)
              rw [if_neg distinct] at turn
              have shape : joined ((piece :: next :: pieces).map Piece.text) ++ close :: rest =
                  piece.text ++ ch ',' :: (joined ((next :: pieces).map Piece.text) ++ close :: rest) := by
                simp [joined]
              rw [shape, turn]
              exact ih later fuel left (piece.effect out)

theorem joined_length (texts : List (List UInt8)) (nonempty : ∀ t ∈ texts, t ≠ []) : texts.length ≤ (joined texts).length := by
  induction texts with
  | nil => simp
  | cons t texts ih =>
      have positive : 1 ≤ t.length := List.length_pos_iff.mpr (nonempty t List.mem_cons_self)
      have later := ih (fun u member => nonempty u (List.mem_cons_of_mem t member))
      cases texts with
      | nil => simpa [joined] using positive
      | cons u texts =>
          simp only [joined, List.length_append, List.length_cons] at later ⊢
          omega

theorem enclosed_read (opened : UInt8) (openSolid : isBlank opened = false) (solid : isBlank close = false)
    (distinct : ch ',' ≠ close) (pieces : List (Piece α)) (reads : ∀ piece ∈ pieces, Reads close item piece) (out : α)
    (rest : List UInt8) :
    Parser.enclosed ⟨opened :: (joined (pieces.map Piece.text) ++ close :: rest), true⟩ opened close item out =
      .ok (pieces.foldl (fun out piece => piece.effect out) out, ⟨rest, true⟩) := by
  have nonempty : ∀ t ∈ pieces.map Piece.text, t ≠ [] := by
    intro t member
    obtain ⟨piece, listed, same⟩ := List.mem_map.mp member
    obtain ⟨b, tail, shape, _⟩ := (reads piece listed).starts
    rw [← same, shape]
    exact List.cons_ne_nil b tail
  have bound := joined_length _ nonempty
  rw [List.length_map] at bound
  rw [Parser.enclosed, eat_here opened _ true openSolid]
  simp only
  rw [members_read close item solid distinct pieces reads _ (by simp only [List.length_append]; omega) out rest]
  simp only [eat_here close rest true solid]

end Enclosed

theorem reads_of_reaches {α : Type} (close : UInt8) (item : α → Parser → Except α (α × Parser)) (piece : Piece α)
    (reaches : Reaches close item piece) : Reads close item piece := by
  refine ⟨reaches.starts, ?_⟩
  intro out b rest next
  obtain ⟨w, within, read⟩ := reaches.read out [] b rest Json.blanks_nil next
  rw [List.suffix_nil.mp within] at read
  exact read

theorem fills_read {α : Type} (item : α → Parser → Except α (α × Parser)) (key : String) (texts : List UInt8 → Prop)
    (effect : α → α) (value : List UInt8) (fills : Fills (ch '}') item ⟨MemberText key texts, effect⟩)
    (plain : (text key).all (fun c => 32 ≤ c && c != 34 && c != 92) = true) (own : texts value) :
    Reads (ch '}') item ⟨member key value, effect⟩ :=
  reads_of_reaches (ch '}') item _ (fills _ (member_written key texts value plain own))

-- ---- checkpoints ----

theorem buffered_reads (b : BufferedResponse) (fits : b.seq < 2 ^ 64) :
    ∀ piece ∈ b.pieces, Reads (ch '}') BufferedResponse.field piece := by
  have fills := buffered_fills b fits
  simp only [BufferedResponse.slots, List.forall_mem_cons] at fills
  obtain ⟨seq, payload, hash, _⟩ := fills
  intro piece listed
  simp only [BufferedResponse.pieces, List.mem_cons, List.not_mem_nil, or_false] at listed
  rcases listed with same | same | same <;> rw [same]
  · exact fills_read _ "seq" _ _ _ seq (by decide +kernel) rfl
  · exact fills_read _ "payload" _ _ _ payload (by decide +kernel) rfl
  · exact fills_read _ "hash" _ _ _ hash (by decide +kernel) rfl

theorem buffered_element_reads (b : BufferedResponse) (fits : b.seq < 2 ^ 64) :
    Reads (ch ']') Checkpoint.element ⟨b.toJson, fun out => { out with buffer := out.buffer ++ [b] }⟩ :=
  reads_of_reaches (ch ']') Checkpoint.element _ (buffered_element_fills b fits _ (buffered_to_json_variant b))

theorem checkpoint_reads (cp : Checkpoint) (fits : cp.Fits) : ∀ piece ∈ cp.pieces, Reads (ch '}') Checkpoint.field piece := by
  have fills := checkpoint_fills cp fits
  simp only [Checkpoint.slots, List.forall_mem_cons] at fills
  obtain ⟨version, upto, count, hash, buffer, _⟩ := fills
  have array := array_written cp.buffer BufferedResponse.Variant BufferedResponse.toJson buffered_to_json_variant
  intro piece listed
  simp only [Checkpoint.pieces, List.mem_cons, List.not_mem_nil, or_false] at listed
  rcases listed with same | same | same | same | same <;> rw [same]
  · exact fills_read _ "version" _ _ _ version (by decide +kernel) (by decide +kernel)
  · exact fills_read _ "committed_upto" _ _ _ upto (by decide +kernel) rfl
  · exact fills_read _ "event_count" _ _ _ count (by decide +kernel) rfl
  · exact fills_read _ "history_hash" _ _ _ hash (by decide +kernel) rfl
  · exact fills_read _ "buffer" _ _ _ buffer (by decide +kernel) array

theorem read_checkpoint_then (cp : Checkpoint) (fits : cp.Fits) (rest : List UInt8) :
    Parser.enclosed ⟨cp.toJson ++ rest, true⟩ (ch '{') (ch '}') Checkpoint.field {} = .ok (cp, ⟨rest, true⟩) := by
  have read := enclosed_read (ch '}') Checkpoint.field (ch '{') (by decide) (by decide) (by decide) cp.pieces
    (checkpoint_reads cp fits) {} rest
  have whole : cp.pieces.foldl (fun out piece => piece.effect out) {} = cp := by
    simp [Checkpoint.pieces]
  rw [whole] at read
  rw [checkpoint_to_json]
  simpa using read

theorem read_checkpoint (cp : Checkpoint) (fits : cp.Fits) : fromJsonCheckpoint cp.toJson = (true, cp) := by
  have read := read_checkpoint_then cp fits []
  rw [List.append_nil] at read
  rw [fromJsonCheckpoint, read]

-- A checkpoint text is never the beginning of another one.
theorem to_json_prefix_free (one two : Checkpoint) (fitsOne : one.Fits) (fitsTwo : two.Fits) (rest : List UInt8)
    (same : two.toJson = one.toJson ++ rest) : one = two ∧ rest = [] := by
  have shorter := read_checkpoint_then one fitsOne rest
  have longer := read_checkpoint_then two fitsTwo []
  rw [List.append_nil, same, shorter] at longer
  simpa using longer

theorem checkpoint_json_round_trip (cp : Checkpoint) (fits : cp.Fits) : fromJsonCheckpoint cp.toJson = (true, cp) :=
  read_checkpoint cp fits

-- A payload of a quote, a backslash, a brace, NUL and a byte above ASCII.
theorem checkpoint_json_round_trip_bytes :
    fromJsonCheckpoint (Checkpoint.toJson ⟨7, 12, 18446744073709551615, [⟨7, [34, 92, 125, 0, 200], 3⟩, ⟨2, [], 0⟩]⟩) =
      (true, ⟨7, 12, 18446744073709551615, [⟨7, [34, 92, 125, 0, 200], 3⟩, ⟨2, [], 0⟩]⟩) :=
  checkpoint_json_round_trip _ ⟨by decide, by decide, by decide⟩

-- ---- replays ----

theorem replay_event_reads (e : ReplayEvent) (fits : e.seq < 2 ^ 64) :
    ∀ piece ∈ e.pieces, Reads (ch '}') ReplayEvent.field piece := by
  have fills := replay_event_fills e fits
  rw [ReplayEvent.slots] at fills
  intro piece listed
  rw [ReplayEvent.pieces, ReplayEvent.carried] at listed
  cases kind : e.isResponse with
  | true =>
      simp only [kind, if_true, List.cons_append, List.nil_append, List.forall_mem_cons] at fills
      obtain ⟨t, seq, payload, hash, _⟩ := fills
      simp only [kind, if_true, List.mem_cons, List.not_mem_nil, or_false] at listed
      rcases listed with same | same | same | same <;> rw [same]
      · exact fills_read _ "t" _ _ _ t (by decide +kernel) rfl
      · exact fills_read _ "seq" _ _ _ seq (by decide +kernel) rfl
      · exact fills_read _ "payload" _ _ _ payload (by decide +kernel) rfl
      · exact fills_read _ "hash" _ _ _ hash (by decide +kernel) rfl
  | false =>
      simp only [kind, Bool.false_eq_true, if_false, List.append_nil, List.forall_mem_cons] at fills
      obtain ⟨t, seq, _⟩ := fills
      simp only [kind, Bool.false_eq_true, if_false, List.mem_cons, List.not_mem_nil, or_false] at listed
      rcases listed with same | same <;> rw [same]
      · exact fills_read _ "t" _ _ _ t (by decide +kernel) rfl
      · exact fills_read _ "seq" _ _ _ seq (by decide +kernel) rfl

theorem replay_element_reads (e : ReplayEvent) (fits : e.seq < 2 ^ 64) (bare : e.Bare) :
    Reads (ch ']') Replay.element ⟨e.toJson, fun out => { out with events := out.events ++ [e] }⟩ :=
  reads_of_reaches (ch ']') Replay.element _ (replay_element_fills e fits bare _ (replay_event_to_json_variant e))

theorem replay_reads (rp : Replay) (fits : rp.Fits) (bare : ∀ e ∈ rp.events, e.Bare) :
    ∀ piece ∈ rp.pieces, Reads (ch '}') Replay.field piece := by
  have fills := replay_fills rp fits bare
  simp only [Replay.slots, List.forall_mem_cons] at fills
  obtain ⟨position, events, _⟩ := fills
  have array := array_written rp.events ReplayEvent.Variant ReplayEvent.toJson replay_event_to_json_variant
  intro piece listed
  simp only [Replay.pieces, List.mem_cons, List.not_mem_nil, or_false] at listed
  cases listed with
  | inl same => exact same ▸ fills_read _ "from" _ _ _ position (by decide +kernel) rfl
  | inr same => exact same ▸ fills_read _ "events" _ _ _ events (by decide +kernel) array

theorem read_replay (rp : Replay) (fits : rp.Fits) (bare : ∀ e ∈ rp.events, e.Bare) :
    fromJsonReplay rp.toJson = (true, rp) := by
  have read := enclosed_read (ch '}') Replay.field (ch '{') (by decide) (by decide) (by decide) rp.pieces
    (replay_reads rp fits bare) {} []
  have whole : rp.pieces.foldl (fun out piece => piece.effect out) {} = rp := by
    simp [Replay.pieces]
  rw [fromJsonReplay, replay_to_json, read, whole]

-- ---- the replays a client builds ----

theorem build_replay_bare (c : Client) (fromIndex : Nat) : ∀ e ∈ (c.buildReplay fromIndex).events, e.Bare := by
  intro e listed request
  obtain ⟨event, _, same⟩ := List.mem_map.mp listed
  rw [← same] at request ⊢
  have kind : event.isResponse = false := request
  simp [Client.replayEvent, kind]

theorem run_next_seq (actions : List ClientAction) (c : Client) : c.nextSeq ≤ (c.run actions).nextSeq := by
  induction actions generalizing c with
  | nil => exact Nat.le_refl _
  | cons action rest ih =>
      have step : c.nextSeq ≤ (c.act action).nextSeq := by
        cases action with
        | generate p => exact Nat.le_succ _
        | respond resp =>
            rw [Client.act, Client.onResponse]
            split <;> exact Nat.le_refl _
      exact Nat.le_trans step (ih (c.act action))

-- Ids stay 64-bit numbers: its own while next_seq_ does, others come in responses.
theorem run_seqs_fit (actions : List ClientAction) (c : Client) (final : (c.run actions).nextSeq ≤ 2 ^ 64)
    (responses : ∀ resp ∈ responsesOf actions, resp.seq < 2 ^ 64) (events : ∀ e ∈ c.history.events, e.seq < 2 ^ 64)
    (pending : ∀ i ∈ c.pendingNew, i < 2 ^ 64) : ∀ e ∈ (c.run actions).history.events, e.seq < 2 ^ 64 := by
  induction actions generalizing c with
  | nil => exact events
  | cons action rest ih =>
      cases action with
      | generate p =>
          apply ih (c.generateRequest p).2 final responses
          · intro e listed
            have own : c.nextSeq + 1 ≤ (c.run (.generate p :: rest)).nextSeq := run_next_seq rest (c.generateRequest p).2
            have appended : (c.generateRequest p).2.history.events =
                c.history.events ++ commitEvents c.pendingNew c.nextSeq := commit_request_events _ _ _
            rw [appended, commitEvents] at listed
            simp only [List.mem_append, List.mem_map, List.mem_singleton] at listed
            rcases listed with old | ⟨i, waiting, same⟩ | same
            · exact events e old
            · exact same ▸ pending i waiting
            · rw [same]
              exact Nat.lt_of_lt_of_le (Nat.lt_succ_self _) (Nat.le_trans own final)
          · exact fun i none => absurd none List.not_mem_nil
      | respond resp =>
          have own : resp.seq < 2 ^ 64 := responses resp (by simp [responsesOf])
          have history : (c.onResponse resp).2.history = c.history := by
            rw [Client.onResponse]
            split <;> rfl
          apply ih (c.onResponse resp).2 final (fun other member => responses other (by
            simp only [responsesOf, List.filterMap_cons]
            exact List.mem_cons_of_mem resp member))
          · exact history ▸ events
          · intro i listed
            rw [Client.onResponse] at listed
            split at listed
            · exact pending i listed
            · simp only at listed
              split at listed
              · exact pending i listed
              · cases List.mem_append.mp listed with
                | inl old => exact pending i old
                | inr new => exact List.mem_singleton.mp new ▸ own

-- Any replay whose request events are bare, and so every replay a client
-- builds, whatever it was sent.
theorem replay_json_round_trip :
    (∀ rp : Replay, rp.Fits → (∀ e ∈ rp.events, e.Bare) → fromJsonReplay rp.toJson = (true, rp)) ∧
    ∀ (setHash : Bool) (actions : List ClientAction) (fromIndex : Nat),
      ((Client.fresh setHash).run actions).nextSeq ≤ 2 ^ 64 → (∀ resp ∈ responsesOf actions, resp.seq < 2 ^ 64) →
      fromIndex < 2 ^ 64 →
      fromJsonReplay (((Client.fresh setHash).run actions).buildReplay fromIndex).toJson =
        (true, ((Client.fresh setHash).run actions).buildReplay fromIndex) := by
  refine ⟨read_replay, ?_⟩
  intro setHash actions fromIndex final responses position
  apply read_replay _ ⟨position, ?_⟩ (build_replay_bare _ fromIndex)
  intro e listed
  obtain ⟨event, inside, same⟩ := List.mem_map.mp listed
  rw [← same]
  exact run_seqs_fit actions (Client.fresh setHash) final responses (by simp [Client.fresh]) (by simp [Client.fresh])
    event (List.mem_of_mem_drop inside)

-- A replay with both kinds of events, and the whole history of a client that
-- received a quote for its first request.
theorem replay_json_round_trip_quote :
    fromJsonReplay (Replay.toJson ⟨1, [⟨false, 1, [], 0⟩, ⟨true, 1, [34, 125], 5⟩]⟩) =
      (true, ⟨1, [⟨false, 1, [], 0⟩, ⟨true, 1, [34, 125], 5⟩]⟩) ∧
    fromJsonReplay (((Client.fresh true).run
        [.generate [], .respond { seq := 1, payload := [34] }, .generate []]).buildReplay 0).toJson =
      (true, ((Client.fresh true).run
        [.generate [], .respond { seq := 1, payload := [34] }, .generate []]).buildReplay 0) := by
  constructor
  · apply replay_json_round_trip.1
    · exact ⟨by decide, by decide⟩
    · simp [ReplayEvent.Bare]
  · apply replay_json_round_trip.2
    · decide +kernel
    · simp [responsesOf]
    · decide

end Color
