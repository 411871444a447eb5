import Color.JsonMembers

set_option autoImplicit false

namespace Color

-- ---- the texts as lists of pieces ----

def BufferedResponse.pieces (b : BufferedResponse) : List (Piece BufferedResponse) :=
  [⟨member "seq" (decimal b.seq), fun out => { out with seq := b.seq }⟩,
    ⟨member "payload" (quoted b.payload), fun out => { out with payload := b.payload }⟩,
    ⟨member "hash" (decimal b.hash.toNat), fun out => { out with hash := b.hash.toNat.toUInt64 }⟩]

theorem buffered_to_json (b : BufferedResponse) :
    b.toJson = ch '{' :: (joined (b.pieces.map Piece.text) ++ ch '}' :: []) := by
  simp [BufferedResponse.toJson, BufferedResponse.pieces, appendEscaped, joined, member, quoted, text, ch, kQuote]

def bufferText (cp : Checkpoint) : List UInt8 :=
  ch '[' :: (joined (cp.buffer.map BufferedResponse.toJson) ++ ch ']' :: [])

def Checkpoint.pieces (cp : Checkpoint) : List (Piece Checkpoint) :=
  [⟨member "version" [ch '1'], id⟩,
    ⟨member "committed_upto" (decimal cp.committedUpto), fun out => { out with committedUpto := cp.committedUpto }⟩,
    ⟨member "event_count" (decimal cp.eventCount), fun out => { out with eventCount := cp.eventCount }⟩,
    ⟨member "history_hash" (decimal cp.historyHash.toNat),
      fun out => { out with historyHash := cp.historyHash.toNat.toUInt64 }⟩,
    ⟨member "buffer" (bufferText cp), fun out => { out with buffer := out.buffer ++ cp.buffer }⟩]

theorem checkpoint_to_json (cp : Checkpoint) :
    cp.toJson = ch '{' :: (joined (cp.pieces.map Piece.text) ++ ch '}' :: []) := by
  simp [Checkpoint.toJson, Checkpoint.pieces, bufferText, joined, member, text, ch, kQuote]

-- The counters of the source are 64-bit numbers.
structure Checkpoint.Fits (cp : Checkpoint) : Prop where
  upto : cp.committedUpto < 2 ^ 64
  count : cp.eventCount < 2 ^ 64
  seqs : ∀ b ∈ cp.buffer, b.seq < 2 ^ 64

def ReplayEvent.kind (e : ReplayEvent) : List UInt8 := if e.isResponse then text "r" else text "R"

-- Only a response carries a payload and a hash.
def ReplayEvent.carried (e : ReplayEvent) : List (Piece ReplayEvent) :=
  if e.isResponse then
    [⟨member "payload" (quoted e.payload), fun out => { out with payload := e.payload }⟩,
      ⟨member "hash" (decimal e.hash.toNat), fun out => { out with hash := e.hash.toNat.toUInt64 }⟩]
  else []

def ReplayEvent.pieces (e : ReplayEvent) : List (Piece ReplayEvent) :=
  ⟨member "t" (quoted e.kind), fun out => { out with isResponse := e.kind = text "r" }⟩ ::
    ⟨member "seq" (decimal e.seq), fun out => { out with seq := e.seq }⟩ :: e.carried

def ReplayEvent.Bare (e : ReplayEvent) : Prop := e.isResponse = false → e.payload = [] ∧ e.hash = 0

structure Replay.Fits (rp : Replay) : Prop where
  position : rp.fromIndex < 2 ^ 64
  seqs : ∀ e ∈ rp.events, e.seq < 2 ^ 64

theorem replay_event_to_json (e : ReplayEvent) :
    e.toJson = ch '{' :: (joined (e.pieces.map Piece.text) ++ ch '}' :: []) := by
  cases kind : e.isResponse with
  | true =>
      simp [ReplayEvent.toJson, ReplayEvent.pieces, ReplayEvent.carried, ReplayEvent.kind, kind, appendEscaped, joined,
        member, quoted, text, ch, kQuote, escape, kBackslash]
  | false =>
      simp [ReplayEvent.toJson, ReplayEvent.pieces, ReplayEvent.carried, ReplayEvent.kind, kind, joined, member, quoted,
        text, ch, kQuote, escape, kBackslash]

def eventsText (rp : Replay) : List UInt8 :=
  ch '[' :: (joined (rp.events.map ReplayEvent.toJson) ++ ch ']' :: [])

def Replay.pieces (rp : Replay) : List (Piece Replay) :=
  [⟨member "from" (decimal rp.fromIndex), fun out => { out with fromIndex := rp.fromIndex }⟩,
    ⟨member "events" (eventsText rp), fun out => { out with events := out.events ++ rp.events }⟩]

theorem replay_to_json (rp : Replay) :
    rp.toJson = ch '{' :: (joined (rp.pieces.map Piece.text) ++ ch '}' :: []) := by
  simp [Replay.toJson, Replay.pieces, eventsText, joined, member, text, ch, kQuote]

-- ---- texts that say the same ----

def BufferedResponse.Variant (b : BufferedResponse) : List UInt8 → Prop :=
  ObjectText ["seq", "payload", "hash"]
    [MemberText "seq" (· = decimal b.seq), MemberText "payload" (· = quoted b.payload),
      MemberText "hash" (· = decimal b.hash.toNat)]

def Checkpoint.Variant (cp : Checkpoint) : List UInt8 → Prop :=
  ObjectText ["committed_upto", "event_count", "history_hash", "buffer"]
    [MemberText "version" (· = text "1"), MemberText "committed_upto" (· = decimal cp.committedUpto),
      MemberText "event_count" (· = decimal cp.eventCount), MemberText "history_hash" (· = decimal cp.historyHash.toNat),
      MemberText "buffer" (ArrayText (cp.buffer.map BufferedResponse.Variant))]

def ReplayEvent.Variant (e : ReplayEvent) : List UInt8 → Prop :=
  ObjectText ["t", "seq", "payload", "hash"]
    ([MemberText "t" (· = quoted e.kind), MemberText "seq" (· = decimal e.seq)] ++
      if e.isResponse then [MemberText "payload" (· = quoted e.payload), MemberText "hash" (· = decimal e.hash.toNat)]
      else [])

def Replay.Variant (rp : Replay) : List UInt8 → Prop :=
  ObjectText ["from", "events"]
    [MemberText "from" (· = decimal rp.fromIndex), MemberText "events" (ArrayText (rp.events.map ReplayEvent.Variant))]

theorem buffered_to_json_variant (b : BufferedResponse) : b.Variant b.toJson := by
  rw [buffered_to_json]
  apply object_written
  exact .cons (member_written "seq" _ _ (by decide +kernel) rfl) (.cons (member_written "payload" _ _ (by decide +kernel) rfl)
    (.cons (member_written "hash" _ _ (by decide +kernel) rfl) .nil))

theorem checkpoint_to_json_variant (cp : Checkpoint) : cp.Variant cp.toJson := by
  rw [checkpoint_to_json]
  apply object_written
  have buffer := array_written cp.buffer BufferedResponse.Variant BufferedResponse.toJson buffered_to_json_variant
  exact .cons (member_written "version" _ _ (by decide +kernel) (by decide +kernel))
    (.cons (member_written "committed_upto" _ _ (by decide +kernel) rfl)
      (.cons (member_written "event_count" _ _ (by decide +kernel) rfl)
        (.cons (member_written "history_hash" _ _ (by decide +kernel) rfl)
          (.cons (member_written "buffer" _ _ (by decide +kernel) buffer) .nil))))

theorem replay_event_to_json_variant (e : ReplayEvent) : e.Variant e.toJson := by
  rw [replay_event_to_json]
  apply object_written
  have kind := member_written "t" (· = quoted e.kind) _ (by decide +kernel) rfl
  have seq := member_written "seq" (· = decimal e.seq) _ (by decide +kernel) rfl
  rw [ReplayEvent.pieces, ReplayEvent.carried]
  cases e.isResponse with
  | true =>
      exact .cons kind (.cons seq (.cons (member_written "payload" _ _ (by decide +kernel) rfl)
        (.cons (member_written "hash" _ _ (by decide +kernel) rfl) .nil)))
  | false => exact .cons kind (.cons seq .nil)

theorem replay_to_json_variant (rp : Replay) : rp.Variant rp.toJson := by
  rw [replay_to_json]
  apply object_written
  have events := array_written rp.events ReplayEvent.Variant ReplayEvent.toJson replay_event_to_json_variant
  exact .cons (member_written "from" _ _ (by decide +kernel) rfl)
    (.cons (member_written "events" _ _ (by decide +kernel) events) .nil)

-- ---- checkpoints ----

theorem buffered_value_blanks (b : BufferedResponse) (k w rest : List UInt8) (blanks : Json.Blanks w) :
    b.value k ⟨w ++ rest, true⟩ = b.value k ⟨rest, true⟩ := by
  rw [BufferedResponse.value, BufferedResponse.value, parse_u64_blanks w rest blanks, parse_string_blanks w rest blanks,
    skip_value_blanks w rest blanks]

theorem buffered_value_unknown (b : BufferedResponse) (k : List UInt8) (p : Parser)
    (other : ∀ name ∈ ["seq", "payload", "hash"], k ≠ text name) : b.value k p = .ok (b, p.skipValue) := by
  simp only [List.forall_mem_cons] at other
  simp only [BufferedResponse.value, other.1, other.2.1, other.2.2.1, if_false]

def BufferedResponse.slots (b : BufferedResponse) : List (Slot BufferedResponse) :=
  [⟨MemberText "seq" (· = decimal b.seq), fun out => { out with seq := b.seq }⟩,
    ⟨MemberText "payload" (· = quoted b.payload), fun out => { out with payload := b.payload }⟩,
    ⟨MemberText "hash" (· = decimal b.hash.toNat), fun out => { out with hash := b.hash.toNat.toUInt64 }⟩]

theorem buffered_fills (b : BufferedResponse) (fits : b.seq < 2 ^ 64) :
    ∀ slot ∈ b.slots, Fills (ch '}') BufferedResponse.field slot := by
  have number := number_fills BufferedResponse.field BufferedResponse.value buffered_field_keyed buffered_value_blanks
  have string := string_fills BufferedResponse.field BufferedResponse.value buffered_field_keyed buffered_value_blanks
  simp only [BufferedResponse.slots, List.forall_mem_cons]
  refine ⟨?_, ?_, ?_, fun slot inside => absurd inside List.not_mem_nil⟩
  · apply number "seq" b.seq (fun n out => { out with seq := n }) (plain_key _ (by decide +kernel)) fits
    intro out p
    rw [BufferedResponse.value, if_pos rfl]
  · apply string "payload" b.payload (fun s out => { out with payload := s }) (plain_key _ (by decide +kernel))
    intro out p
    have other : text "payload" ≠ text "seq" := by decide
    rw [BufferedResponse.value, if_neg other, if_pos rfl]
  · apply number "hash" b.hash.toNat (fun n out => { out with hash := n.toUInt64 }) (plain_key _ (by decide +kernel))
      b.hash.toNat_lt
    intro out p
    have other : text "hash" ≠ text "seq" ∧ text "hash" ≠ text "payload" := by decide
    rw [BufferedResponse.value, if_neg other.1, if_neg other.2, if_pos rfl]

theorem buffered_variant_read (b : BufferedResponse) (fits : b.seq < 2 ^ 64) (s rest : List UInt8) (variant : b.Variant s) :
    Parser.enclosed ⟨s ++ rest, true⟩ (ch '{') (ch '}') BufferedResponse.field ⟨0, [], 0⟩ = .ok (b, ⟨rest, true⟩) := by
  have extra := extra_fills BufferedResponse.field BufferedResponse.value buffered_field_keyed buffered_value_blanks
    ["seq", "payload", "hash"] buffered_value_unknown
  have read := object_read BufferedResponse.field b.slots ["seq", "payload", "hash"] (buffered_fills b fits) extra
    (by simp [BufferedResponse.slots]) s variant ⟨0, [], 0⟩ rest
  have whole : b.slots.foldl (fun out slot => slot.effect out) ⟨0, [], 0⟩ = b := by simp [BufferedResponse.slots]
  rw [read, whole]

theorem element_fills {α : Type} {item : α → Parser → Except α (α × Parser)} {known : List String}
    {own : List (List UInt8 → Prop)} {effect : α → α}
    (read : ∀ out s rest, ObjectText known own s → item out ⟨s ++ rest, true⟩ = .ok (effect out, ⟨rest, true⟩)) :
    Fills (ch ']') item ⟨ObjectText known own, effect⟩ := by
  intro s variant
  refine ⟨?_, ?_⟩
  · obtain ⟨_, _, _, body, _, _, _, _, shape⟩ := variant
    exact ⟨ch '{', body ++ [ch '}'], shape, by decide, by decide⟩
  · intro out w next rest _ _
    exact ⟨w, List.suffix_refl w, read out s (w ++ next :: rest) variant⟩

theorem buffered_element_fills (b : BufferedResponse) (fits : b.seq < 2 ^ 64) :
    Fills (ch ']') Checkpoint.element ⟨b.Variant, fun out => { out with buffer := out.buffer ++ [b] }⟩ := by
  apply element_fills
  intro out s rest variant
  rw [Checkpoint.element, buffered_variant_read b fits s rest variant]

theorem buffer_slots_effect (added : List BufferedResponse) (cp : Checkpoint) :
    (added.map (fun b => (⟨b.Variant, fun out => { out with buffer := out.buffer ++ [b] }⟩ : Slot Checkpoint))).foldl
      (fun out slot => slot.effect out) cp = { cp with buffer := cp.buffer ++ added } := by
  induction added generalizing cp with
  | nil => simp
  | cons b added ih => simp [ih]

theorem checkpoint_value_blanks (cp : Checkpoint) (k w rest : List UInt8) (blanks : Json.Blanks w) :
    cp.value k ⟨w ++ rest, true⟩ = cp.value k ⟨rest, true⟩ := by
  rw [Checkpoint.value, Checkpoint.value, parse_u64_blanks w rest blanks, enclosed_blanks w rest _ _ _ _ blanks,
    skip_value_blanks w rest blanks]

theorem checkpoint_value_unknown (cp : Checkpoint) (k : List UInt8) (p : Parser)
    (other : ∀ name ∈ ["committed_upto", "event_count", "history_hash", "buffer"], k ≠ text name) :
    cp.value k p = .ok (cp, p.skipValue) := by
  simp only [List.forall_mem_cons] at other
  simp only [Checkpoint.value, other.1, other.2.1, other.2.2.1, other.2.2.2.1, if_false]

def Checkpoint.slots (cp : Checkpoint) : List (Slot Checkpoint) :=
  [⟨MemberText "version" (· = text "1"), id⟩,
    ⟨MemberText "committed_upto" (· = decimal cp.committedUpto), fun out => { out with committedUpto := cp.committedUpto }⟩,
    ⟨MemberText "event_count" (· = decimal cp.eventCount), fun out => { out with eventCount := cp.eventCount }⟩,
    ⟨MemberText "history_hash" (· = decimal cp.historyHash.toNat),
      fun out => { out with historyHash := cp.historyHash.toNat.toUInt64 }⟩,
    ⟨MemberText "buffer" (ArrayText (cp.buffer.map BufferedResponse.Variant)),
      fun out => { out with buffer := out.buffer ++ cp.buffer }⟩]

theorem checkpoint_fills (cp : Checkpoint) (fits : cp.Fits) : ∀ slot ∈ cp.slots, Fills (ch '}') Checkpoint.field slot := by
  have number := number_fills Checkpoint.field Checkpoint.value checkpoint_field_keyed checkpoint_value_blanks
  simp only [Checkpoint.slots, List.forall_mem_cons]
  refine ⟨?_, ?_, ?_, ?_, ?_, fun slot inside => absurd inside List.not_mem_nil⟩
  · apply member_fills Checkpoint.field Checkpoint.value checkpoint_field_keyed checkpoint_value_blanks "version" _ _
      (plain_key _ (by decide +kernel))
    intro out v w b rest own blanks next
    have other : ∀ name ∈ ["committed_upto", "event_count", "history_hash", "buffer"], text "version" ≠ text name := by
      decide +kernel
    have one : v ≠ [] ∧ ∀ c ∈ v, Json.scalar c = true := by
      rw [own]
      decide +kernel
    refine ⟨[], List.nil_suffix, ?_⟩
    rw [checkpoint_value_unknown out _ _ other, skip_scalar_run v w b rest one.1 one.2 blanks (stop_ends b next).1]
    rfl
  · apply number "committed_upto" cp.committedUpto (fun n out => { out with committedUpto := n })
      (plain_key _ (by decide +kernel)) fits.upto
    intro out p
    rw [Checkpoint.value, if_pos rfl]
  · apply number "event_count" cp.eventCount (fun n out => { out with eventCount := n }) (plain_key _ (by decide +kernel))
      fits.count
    intro out p
    have other : text "event_count" ≠ text "committed_upto" := by decide +kernel
    rw [Checkpoint.value, if_neg other, if_pos rfl]
  · apply number "history_hash" cp.historyHash.toNat (fun n out => { out with historyHash := n.toUInt64 })
      (plain_key _ (by decide +kernel)) cp.historyHash.toNat_lt
    intro out p
    have other : text "history_hash" ≠ text "committed_upto" ∧ text "history_hash" ≠ text "event_count" := by
      decide +kernel
    rw [Checkpoint.value, if_neg other.1, if_neg other.2, if_pos rfl]
  · have array := array_fills Checkpoint.field Checkpoint.value checkpoint_field_keyed checkpoint_value_blanks "buffer"
      Checkpoint.element
      (cp.buffer.map (fun b => (⟨b.Variant, fun out => { out with buffer := out.buffer ++ [b] }⟩ : Slot Checkpoint)))
      (fun slot inside => by
        obtain ⟨b, own, same⟩ := List.mem_map.mp inside
        rw [← same]
        exact buffered_element_fills b (fits.seqs b own))
      (plain_key _ (by decide +kernel)) (fun out p => by
        have other : text "buffer" ≠ text "committed_upto" ∧ text "buffer" ≠ text "event_count" ∧
            text "buffer" ≠ text "history_hash" := by decide +kernel
        rw [Checkpoint.value, if_neg other.1, if_neg other.2.1, if_neg other.2.2, if_pos rfl])
    rw [List.map_map] at array
    simp only [buffer_slots_effect] at array
    exact array

theorem read_checkpoint_variant (cp : Checkpoint) (fits : cp.Fits) (before s after : List UInt8)
    (blanks : Json.Blanks before) (variant : cp.Variant s) : fromJsonCheckpoint (before ++ s ++ after) = (true, cp) := by
  have extra := extra_fills Checkpoint.field Checkpoint.value checkpoint_field_keyed checkpoint_value_blanks
    ["committed_upto", "event_count", "history_hash", "buffer"] checkpoint_value_unknown
  have read := object_read Checkpoint.field cp.slots ["committed_upto", "event_count", "history_hash", "buffer"]
    (checkpoint_fills cp fits) extra (by simp [Checkpoint.slots]) s variant {} after
  have whole : cp.slots.foldl (fun out slot => slot.effect out) {} = cp := by simp [Checkpoint.slots]
  rw [fromJsonCheckpoint, List.append_assoc, enclosed_blanks before (s ++ after) _ _ _ _ blanks, read, whole]

-- ---- replays ----

theorem replay_event_value_blanks (e : ReplayEvent) (k w rest : List UInt8) (blanks : Json.Blanks w) :
    e.value k ⟨w ++ rest, true⟩ = e.value k ⟨rest, true⟩ := by
  rw [ReplayEvent.value, ReplayEvent.value, parse_string_blanks w rest blanks, parse_u64_blanks w rest blanks,
    skip_value_blanks w rest blanks]

theorem replay_event_value_unknown (e : ReplayEvent) (k : List UInt8) (p : Parser)
    (other : ∀ name ∈ ["t", "seq", "payload", "hash"], k ≠ text name) : e.value k p = .ok (e, p.skipValue) := by
  simp only [List.forall_mem_cons] at other
  simp only [ReplayEvent.value, other.1, other.2.1, other.2.2.1, other.2.2.2.1, if_false]

def ReplayEvent.slots (e : ReplayEvent) : List (Slot ReplayEvent) :=
  [⟨MemberText "t" (· = quoted e.kind), fun out => { out with isResponse := e.kind = text "r" }⟩,
    ⟨MemberText "seq" (· = decimal e.seq), fun out => { out with seq := e.seq }⟩] ++
    if e.isResponse then
      [⟨MemberText "payload" (· = quoted e.payload), fun out => { out with payload := e.payload }⟩,
        ⟨MemberText "hash" (· = decimal e.hash.toNat), fun out => { out with hash := e.hash.toNat.toUInt64 }⟩]
    else []

theorem replay_event_slots_texts (e : ReplayEvent) :
    e.Variant = ObjectText ["t", "seq", "payload", "hash"] (e.slots.map Slot.texts) := by
  rw [ReplayEvent.Variant, ReplayEvent.slots]
  split <;> rfl

theorem replay_event_fills (e : ReplayEvent) (fits : e.seq < 2 ^ 64) :
    ∀ slot ∈ e.slots, Fills (ch '}') ReplayEvent.field slot := by
  have number := number_fills ReplayEvent.field ReplayEvent.value replay_event_field_keyed replay_event_value_blanks
  have string := string_fills ReplayEvent.field ReplayEvent.value replay_event_field_keyed replay_event_value_blanks
  have kind : Fills (ch '}') ReplayEvent.field
      ⟨MemberText "t" (· = quoted e.kind), fun out => { out with isResponse := e.kind = text "r" }⟩ := by
    apply string "t" e.kind (fun s out => { out with isResponse := s = text "r" }) (plain_key _ (by decide +kernel))
    intro out p
    rw [ReplayEvent.value, if_pos rfl]
  have seq : Fills (ch '}') ReplayEvent.field
      ⟨MemberText "seq" (· = decimal e.seq), fun out => { out with seq := e.seq }⟩ := by
    apply number "seq" e.seq (fun n out => { out with seq := n }) (plain_key _ (by decide +kernel)) fits
    intro out p
    have other : text "seq" ≠ text "t" := by decide
    rw [ReplayEvent.value, if_neg other, if_pos rfl]
  have payload : Fills (ch '}') ReplayEvent.field
      ⟨MemberText "payload" (· = quoted e.payload), fun out => { out with payload := e.payload }⟩ := by
    apply string "payload" e.payload (fun s out => { out with payload := s }) (plain_key _ (by decide +kernel))
    intro out p
    have other : text "payload" ≠ text "t" ∧ text "payload" ≠ text "seq" := by decide
    rw [ReplayEvent.value, if_neg other.1, if_neg other.2, if_pos rfl]
  have hash : Fills (ch '}') ReplayEvent.field
      ⟨MemberText "hash" (· = decimal e.hash.toNat), fun out => { out with hash := e.hash.toNat.toUInt64 }⟩ := by
    apply number "hash" e.hash.toNat (fun n out => { out with hash := n.toUInt64 }) (plain_key _ (by decide +kernel))
      e.hash.toNat_lt
    intro out p
    have other : text "hash" ≠ text "t" ∧ text "hash" ≠ text "seq" ∧ text "hash" ≠ text "payload" := by decide
    rw [ReplayEvent.value, if_neg other.1, if_neg other.2.1, if_neg other.2.2, if_pos rfl]
  intro slot inside
  rw [ReplayEvent.slots] at inside
  split at inside
  · simp only [List.cons_append, List.nil_append, List.mem_cons, List.not_mem_nil, or_false] at inside
    rcases inside with same | same | same | same <;> rw [same]
    · exact kind
    · exact seq
    · exact payload
    · exact hash
  · simp only [List.append_nil, List.mem_cons, List.not_mem_nil, or_false] at inside
    cases inside with
    | inl same => exact same ▸ kind
    | inr same => exact same ▸ seq

theorem replay_event_slots_effect (e : ReplayEvent) (bare : e.Bare) :
    e.slots.foldl (fun out slot => slot.effect out) ⟨false, 0, [], 0⟩ = e := by
  have distinct : text "R" ≠ text "r" := by decide
  cases kind : e.isResponse with
  | true =>
      simp [ReplayEvent.slots, ReplayEvent.kind, kind]
      rw [← kind]
  | false =>
      obtain ⟨payload, hash⟩ := bare kind
      simp [ReplayEvent.slots, ReplayEvent.kind, kind, distinct]
      rw [← kind, ← payload, ← hash]

theorem replay_event_variant_read (e : ReplayEvent) (fits : e.seq < 2 ^ 64) (bare : e.Bare) (s rest : List UInt8)
    (variant : e.Variant s) :
    Parser.enclosed ⟨s ++ rest, true⟩ (ch '{') (ch '}') ReplayEvent.field ⟨false, 0, [], 0⟩ = .ok (e, ⟨rest, true⟩) := by
  have extra := extra_fills ReplayEvent.field ReplayEvent.value replay_event_field_keyed replay_event_value_blanks
    ["t", "seq", "payload", "hash"] replay_event_value_unknown
  have commute : ∀ one ∈ e.slots, ∀ two ∈ e.slots, ∀ out, two.effect (one.effect out) = one.effect (two.effect out) := by
    rw [ReplayEvent.slots]
    split <;> simp
  rw [replay_event_slots_texts] at variant
  have read := object_read ReplayEvent.field e.slots ["t", "seq", "payload", "hash"] (replay_event_fills e fits) extra
    commute s variant ⟨false, 0, [], 0⟩ rest
  rw [read, replay_event_slots_effect e bare]

theorem replay_element_fills (e : ReplayEvent) (fits : e.seq < 2 ^ 64) (bare : e.Bare) :
    Fills (ch ']') Replay.element ⟨e.Variant, fun out => { out with events := out.events ++ [e] }⟩ := by
  apply element_fills
  intro out s rest variant
  rw [Replay.element, replay_event_variant_read e fits bare s rest variant]

theorem event_slots_effect (added : List ReplayEvent) (rp : Replay) :
    (added.map (fun e => (⟨e.Variant, fun out => { out with events := out.events ++ [e] }⟩ : Slot Replay))).foldl
      (fun out slot => slot.effect out) rp = { rp with events := rp.events ++ added } := by
  induction added generalizing rp with
  | nil => simp
  | cons e added ih => simp [ih]

theorem replay_value_blanks (rp : Replay) (k w rest : List UInt8) (blanks : Json.Blanks w) :
    rp.value k ⟨w ++ rest, true⟩ = rp.value k ⟨rest, true⟩ := by
  rw [Replay.value, Replay.value, parse_u64_blanks w rest blanks, enclosed_blanks w rest _ _ _ _ blanks,
    skip_value_blanks w rest blanks]

theorem replay_value_unknown (rp : Replay) (k : List UInt8) (p : Parser)
    (other : ∀ name ∈ ["from", "events"], k ≠ text name) : rp.value k p = .ok (rp, p.skipValue) := by
  simp only [List.forall_mem_cons] at other
  simp only [Replay.value, other.1, other.2.1, if_false]

def Replay.slots (rp : Replay) : List (Slot Replay) :=
  [⟨MemberText "from" (· = decimal rp.fromIndex), fun out => { out with fromIndex := rp.fromIndex }⟩,
    ⟨MemberText "events" (ArrayText (rp.events.map ReplayEvent.Variant)),
      fun out => { out with events := out.events ++ rp.events }⟩]

theorem replay_fills (rp : Replay) (fits : rp.Fits) (bare : ∀ e ∈ rp.events, e.Bare) :
    ∀ slot ∈ rp.slots, Fills (ch '}') Replay.field slot := by
  simp only [Replay.slots, List.forall_mem_cons]
  refine ⟨?_, ?_, fun slot inside => absurd inside List.not_mem_nil⟩
  · apply number_fills Replay.field Replay.value replay_field_keyed replay_value_blanks "from" rp.fromIndex
      (fun n out => { out with fromIndex := n }) (plain_key _ (by decide +kernel)) fits.position
    intro out p
    rw [Replay.value, if_pos rfl]
  · have array := array_fills Replay.field Replay.value replay_field_keyed replay_value_blanks "events" Replay.element
      (rp.events.map (fun e => (⟨e.Variant, fun out => { out with events := out.events ++ [e] }⟩ : Slot Replay)))
      (fun slot inside => by
        obtain ⟨e, own, same⟩ := List.mem_map.mp inside
        rw [← same]
        exact replay_element_fills e (fits.seqs e own) (bare e own))
      (plain_key _ (by decide +kernel)) (fun out p => by
        have other : text "events" ≠ text "from" := by decide
        rw [Replay.value, if_neg other, if_pos rfl])
    rw [List.map_map] at array
    simp only [event_slots_effect] at array
    exact array

theorem read_replay_variant (rp : Replay) (fits : rp.Fits) (bare : ∀ e ∈ rp.events, e.Bare) (before s after : List UInt8)
    (blanks : Json.Blanks before) (variant : rp.Variant s) : fromJsonReplay (before ++ s ++ after) = (true, rp) := by
  have extra := extra_fills Replay.field Replay.value replay_field_keyed replay_value_blanks ["from", "events"]
    replay_value_unknown
  have read := object_read Replay.field rp.slots ["from", "events"] (replay_fills rp fits bare) extra
    (by simp [Replay.slots]) s variant {} after
  have whole : rp.slots.foldl (fun out slot => slot.effect out) {} = rp := by simp [Replay.slots]
  rw [fromJsonReplay, List.append_assoc, enclosed_blanks before (s ++ after) _ _ _ _ blanks, read, whole]

-- Each text is one of its variants, and every variant is read as the text is.
theorem variants_read :
    (∀ (cp : Checkpoint), cp.Variant cp.toJson ∧ ∀ before s after, cp.Fits → Json.Blanks before → Json.Blanks after →
      cp.Variant s → fromJsonCheckpoint (before ++ s ++ after) = (true, cp)) ∧
    ∀ (rp : Replay), rp.Variant rp.toJson ∧ ∀ before s after, rp.Fits → (∀ e ∈ rp.events, e.Bare) → Json.Blanks before →
      Json.Blanks after → rp.Variant s → fromJsonReplay (before ++ s ++ after) = (true, rp) := by
  refine ⟨fun cp => ⟨checkpoint_to_json_variant cp, ?_⟩, fun rp => ⟨replay_to_json_variant rp, ?_⟩⟩
  · intro before s after fits blanks _ variant
    exact read_checkpoint_variant cp fits before s after blanks variant
  · intro before s after fits bare blanks _ variant
    exact read_replay_variant rp fits bare before s after blanks variant

-- Brackets and a quote inside a string, and both kinds of brackets around it.
theorem nested_value : Json.Value (text "[\"]\x7d\\\"\",\x7b \x7d]") := by
  have string := Json.Value.string [93, 125, 92, 34] (.plain 93 _ (by decide) (by decide) (by decide)
    (.plain 125 _ (by decide) (by decide) (by decide) (.escape 34 [] (by decide) .nil)))
  have space : Json.Blanks [32] := by simp [Json.Blanks, Json.blank]
  have object := Json.Value.object [] [32] (fun m inside => absurd inside List.not_mem_nil) (.none [32] space)
  have nothing := Json.blanks_nil
  have array := Json.Value.array _ _ (List.forall_mem_cons.mpr ⟨string, List.forall_mem_singleton.mpr object⟩)
    (.more [] _ [] _ _ _ nothing nothing (.one [] _ [] nothing nothing))
  exact array

-- A member moved to the front, an extra one before it, and blanks.
theorem variants_read_extra :
    fromJsonCheckpoint (text " \x7b\"x\":[\"]\x7d\\\"\",\x7b \x7d],\"buffer\":[],\"version\":1 ,\"committed_upto\":7," ++
        text "\"event_count\":12,\"history_hash\":5\x7d") = (true, ⟨7, 12, 5, []⟩) ∧
    fromJsonReplay (text "\x7b\"events\":[ \x7b\"seq\":4,\"x\":[\"]\x7d\\\"\",\x7b \x7d],\"t\":\"R\"\x7d],\"from\":3\x7d") =
      (true, ⟨3, [⟨false, 4, [], 0⟩]⟩) := by
  have space : Json.Blanks [32] := by simp [Json.Blanks, Json.blank]
  have nothing := Json.blanks_nil
  constructor
  · have variant : Checkpoint.Variant ⟨7, 12, 5, []⟩ _ :=
      ⟨[member "version" (text "1"), member "committed_upto" (decimal 7), member "event_count" (decimal 12),
          member "history_hash" (decimal 5), member "buffer" (text "[]")], [member "x" (text "[\"]\x7d\\\"\",\x7b \x7d]")],
        [member "x" (text "[\"]\x7d\\\"\",\x7b \x7d]"), member "buffer" (text "[]"), member "version" (text "1"),
          member "committed_upto" (decimal 7), member "event_count" (decimal 12), member "history_hash" (decimal 5)], _,
        .cons (member_written "version" _ _ (by decide +kernel) rfl)
          (.cons (member_written "committed_upto" _ _ (by decide +kernel) rfl)
            (.cons (member_written "event_count" _ _ (by decide +kernel) rfl)
              (.cons (member_written "history_hash" _ _ (by decide +kernel) rfl)
                (.cons (member_written "buffer" _ _ (by decide +kernel) ⟨[], [], .nil, .none [] nothing, by decide +kernel⟩)
                  .nil)))),
        List.forall_mem_singleton.mpr (extra_written _ "x" _ (by decide +kernel) (by decide +kernel) nested_value),
        by decide +kernel,
        .more [] _ [] _ _ _ nothing nothing (.more [] _ [] _ _ _ nothing nothing (.more [] _ [32] _ _ _ nothing space
          (.more [] _ [] _ _ _ nothing nothing (.more [] _ [] _ _ _ nothing nothing (.one [] _ [] nothing nothing))))), rfl⟩
    have read := (variants_read.1 ⟨7, 12, 5, []⟩).2 [32] _ [] ⟨by decide, by decide, by decide⟩ space nothing variant
    refine Eq.trans (congrArg fromJsonCheckpoint ?_) read
    decide +kernel
  · have event : ReplayEvent.Variant ⟨false, 4, [], 0⟩ _ :=
      ⟨[member "t" (quoted (text "R")), member "seq" (decimal 4)], [member "x" (text "[\"]\x7d\\\"\",\x7b \x7d]")],
        [member "seq" (decimal 4), member "x" (text "[\"]\x7d\\\"\",\x7b \x7d]"), member "t" (quoted (text "R"))], _,
        .cons (member_written "t" _ _ (by decide +kernel) rfl) (.cons (member_written "seq" _ _ (by decide +kernel) rfl) .nil),
        List.forall_mem_singleton.mpr (extra_written _ "x" _ (by decide +kernel) (by decide +kernel) nested_value),
        by decide +kernel,
        .more [] _ [] _ _ _ nothing nothing (.more [] _ [] _ _ _ nothing nothing (.one [] _ [] nothing nothing)), rfl⟩
    have variant : Replay.Variant ⟨3, [⟨false, 4, [], 0⟩]⟩ _ :=
      ⟨[member "from" (decimal 3), member "events" _], [], [member "events" _, member "from" (decimal 3)], _,
        .cons (member_written "from" _ _ (by decide +kernel) rfl)
          (.cons (member_written "events" _ _ (by decide +kernel)
            ⟨[_], _, .cons event .nil, .one [32] _ [] space nothing, rfl⟩) .nil),
        fun t inside => absurd inside List.not_mem_nil, List.Perm.swap _ _ _,
        .more [] _ [] _ _ _ nothing nothing (.one [] _ [] nothing nothing), rfl⟩
    have read := (variants_read.2 ⟨3, [⟨false, 4, [], 0⟩]⟩).2 [] _ [] ⟨by decide, by decide⟩ (by simp [ReplayEvent.Bare])
      nothing nothing variant
    refine Eq.trans (congrArg fromJsonReplay ?_) read
    decide +kernel

end Color
