import Color.ParserBounds
import Color.ParserFlag

set_option autoImplicit false

namespace Color

open Scanner

section Bounds

variable {m : Machine} {i : Nat} {ok : Bool}

-- ---- members ----

section Members

variable {α : Type} {close : UInt8} {parse : α → Parser → Except α (α × Parser)} {fuel : Nat} {out out' : α}
  {p q q' : Parser}

theorem members_ended (here : Bool) (peeked : (here, q) = p.peek close) (stop : here = true ∨ q.ok = false) :
    Parser.members close parse (fuel + 1) out p = .ok (out, q) := by
  have ends : (here || !q.ok) = true := by
    cases stop with
    | inl closed => rw [closed, Bool.true_or]
    | inr failed => rw [failed, Bool.not_false, Bool.or_true]
  rw [Parser.members, ← peeked]
  simp only [ends, if_true]

theorem members_left (peeked : (false, q) = p.peek close) (going : q.ok = true) (left : parse out q = .error out') :
    Parser.members close parse (fuel + 1) out p = .error out' := by
  rw [Parser.members, ← peeked]
  simp [going, left]

theorem members_again (here : Bool) (peeked : (false, q) = p.peek close) (going : q.ok = true)
    (read : parse out q = .ok (out', q')) {after : Parser} (peeked' : (here, after) = q'.peek close) :
    Parser.members close parse (fuel + 1) out p =
      Parser.members close parse fuel out' (if here then after else (after.eat (ch ',')).2) := by
  rw [Parser.members, ← peeked]
  simp [going, read, ← peeked']

-- An item that hands back an error has left the parser, and any other has moved the cursor.
def Machine.Follows (m : Machine) (item : Scan Bool (Except α α)) (i : Nat) (ok : Bool)
    (result : Except α (α × Parser)) : Prop :=
  Runs m.finish item i ok (fun r j ok' =>
    (∀ out, r = .ok out → i < j) ∧ (m.Fits → r.map (·, m.parser j ok') = result))

def Machine.Tracks (m : Machine) (item : α → Scan Bool (Except α α)) (parse : α → Parser → Except α (α × Parser)) :
    Prop :=
  ∀ out i ok, i ≤ m.finish → m.Follows (item out) i ok (parse out (m.parser i ok))

-- At the head of a turn: the turns of the list-level loop are enough for the bytes left.
def Machine.Membered (m : Machine) (close : UInt8) (parse : α → Parser → Except α (α × Parser))
    (result : Except α (α × Parser)) (out : α) (i : Nat) (ok : Bool) : Prop :=
  m.Fits → ∃ fuel, m.finish - i < fuel ∧ Parser.members close parse fuel out (m.parser i ok) = result

theorem membered_turn {result : Except α (α × Parser)} (inv : m.Membered close parse result out i ok) (fits : m.Fits) :
    ∃ fuel, m.finish - i ≤ fuel ∧ Parser.members close parse (fuel + 1) out (m.parser i ok) = result := by
  obtain ⟨fuel, bound, final⟩ := inv fits
  cases fuel with
  | zero => omega
  | succ fuel => exact ⟨fuel, Nat.le_of_lt_succ bound, final⟩

theorem members_body_runs {item : α → Scan Bool (Except α α)} {result : Except α (α × Parser)} {k : Nat} {flag : Bool}
    (tracks : m.Tracks item parse)
    (inv : m.Membered close parse result out i ok) (forward : i ≤ k) (inside : k ≤ m.finish)
    (peeked : (false, m.parser k flag) = (m.parser i ok).peek close) (going : flag = true) :
    Runs m.finish ((m.members close item).body out) k flag
      (Round (fun r j ok' => m.Fits → r.map (·, m.parser j ok') = result) (m.Membered close parse result) k) := by
  apply runs_then (tracks out k flag inside)
  intro r n _ _ within followed
  cases r with
  | error left =>
      apply runs_pure _ within
      intro fits
      obtain ⟨fuel, _, final⟩ := membered_turn inv fits
      rw [← final, members_left peeked going (followed.2 fits).symm, Except.map]
  | ok out' =>
      have advanced : k < n := followed.1 out' rfl
      apply runs_then (peek_runs close within)
      intro here n' _ forward' within' peeked'
      cases here with
      | true =>
          apply runs_pure _ within'
          refine ⟨Nat.lt_of_lt_of_le advanced forward', fun fits => ?_⟩
          obtain ⟨fuel, bound, final⟩ := membered_turn inv fits
          refine ⟨fuel, by omega, ?_⟩
          rw [← final, members_again true peeked going (followed.2 fits).symm peeked', if_pos rfl]
      | false =>
          apply runs_then (eat_runs (ch ',') within')
          intro _ n'' _ forward'' within'' comma
          apply runs_pure _ within''
          refine ⟨by omega, fun fits => ?_⟩
          obtain ⟨fuel, bound, final⟩ := membered_turn inv fits
          refine ⟨fuel, by omega, ?_⟩
          rw [← final, members_again false peeked going (followed.2 fits).symm peeked', if_neg Bool.false_ne_true,
            ← comma.1]

theorem members_runs {item : α → Scan Bool (Except α α)}
    (tracks : m.Tracks item parse)
    (inside : i ≤ m.finish) :
    Runs m.finish ((m.members close item).run out) i ok (fun r j ok' => m.Fits →
      r.map (·, m.parser j ok') = Parser.members close parse ((m.left i).length + 2) out (m.parser i ok)) := by
  apply while_runs (m.Membered close parse (Parser.members close parse ((m.left i).length + 2) out (m.parser i ok)))
  · intro out j ok' inside' inv
    apply runs_then (peek_runs close inside')
    intro here k flag forward inside'' peeked
    cases here with
    | true =>
        rw [if_pos rfl]
        apply runs_pure false inside''
        refine ⟨fun _ fits => ?_, fun go => Bool.noConfusion go⟩
        obtain ⟨fuel, _, final⟩ := membered_turn inv fits
        rw [← final, members_ended true peeked (.inl rfl), Except.map]
    | false =>
        rw [if_neg Bool.false_ne_true]
        apply runs_current inside''
        refine ⟨fun failed fits => ?_, members_body_runs tracks inv forward inside'' peeked⟩
        obtain ⟨fuel, _, final⟩ := membered_turn inv fits
        rw [← final, members_ended false peeked (.inr failed), Except.map]
  · exact inside
  · exact fun _ => ⟨(m.left i).length + 2, by rw [left_length]; omega, rfl⟩

-- ---- objects, arrays and what they hold ----

-- The same without the cursor: a value may take nothing.
def Machine.Reads (m : Machine) (value : Scan Bool (Except α α)) (i : Nat) (ok : Bool)
    (result : Except α (α × Parser)) : Prop :=
  Runs m.finish value i ok (fun r j ok' => m.Fits → r.map (·, m.parser j ok') = result)

theorem follows_reads {item : Scan Bool (Except α α)} {result : Except α (α × Parser)}
    (follows : m.Follows item i ok result) : m.Reads item i ok result :=
  runs_mono follows (fun _ _ _ _ _ followed => followed.2)

theorem enclosed_absent {opened : UInt8} (eaten : (false, q) = p.eat opened) :
    p.enclosed opened close parse out = .error out := by
  rw [Parser.enclosed, ← eaten]

theorem enclosed_abandoned {opened : UInt8} (eaten : (true, q) = p.eat opened)
    (left : .error out' = Parser.members close parse (q.rest.length + 2) out q) :
    p.enclosed opened close parse out = .error out' := by
  rw [Parser.enclosed, ← eaten]
  simp only [← left]

theorem enclosed_whole {opened : UInt8} (eaten : (true, q) = p.eat opened)
    (read : .ok (out', q') = Parser.members close parse (q.rest.length + 2) out q) :
    p.enclosed opened close parse out = .ok (out', (q'.eat close).2) := by
  rw [Parser.enclosed, ← eaten]
  simp only [← read]

theorem abandoned {P : Prop} (same : (.error out : Except α α) = .ok out') : P := by
  cases same

theorem enclosed_runs {item : α → Scan Bool (Except α α)} (opened : UInt8)
    (tracks : m.Tracks item parse)
    (inside : i ≤ m.finish) :
    m.Follows (m.enclosed opened close item out) i ok ((m.parser i ok).enclosed opened close parse out) := by
  apply runs_then (eat_runs opened inside)
  intro taken j ok' _ inside' eaten
  cases taken with
  | false =>
      apply runs_pure _ inside'
      exact ⟨fun _ same => abandoned same, fun _ => (enclosed_absent eaten.1).symm⟩
  | true =>
      have advanced : i < j := eaten.2 rfl
      apply runs_then (members_runs tracks inside')
      intro r k ok'' forward inside'' read
      cases r with
      | error out' =>
          apply runs_pure _ inside''
          exact ⟨fun _ same => abandoned same, fun fits => (enclosed_abandoned eaten.1 (read fits)).symm⟩
      | ok out' =>
          apply runs_then (eat_runs close inside'')
          intro closed n flag forward' within eaten'
          apply runs_pure _ within
          refine ⟨fun _ _ => by omega, fun fits => ?_⟩
          rw [enclosed_whole eaten.1 (read fits), ← eaten'.1]
          rfl

theorem keyed_runs {value : List UInt8 → Scan Bool (Except α α)}
    {parseValue : List UInt8 → Parser → Except α (α × Parser)}
    (reads : ∀ k j ok', j ≤ m.finish → m.Reads (value k) j ok' (parseValue k (m.parser j ok')))
    (inside : i ≤ m.finish) : m.Follows (m.keyed out value) i ok ((m.parser i ok).keyed out parseValue) := by
  apply runs_then (parse_string_runs inside)
  intro k j ok' forward inside' key
  rw [Parser.keyed, ← key.1]
  apply runs_then (eat_runs (ch ':') inside')
  intro colon n ok'' forward' inside'' eaten
  dsimp only
  rw [← eaten.1]
  cases colon with
  | false =>
      apply runs_pure _ inside''
      exact ⟨fun _ same => abandoned same, fun _ => rfl⟩
  | true =>
      have advanced : j < n := eaten.2 rfl
      apply runs_mono (reads k n ok'' inside'')
      intro r _ _ forward'' _ read
      exact ⟨fun _ _ => by omega, read⟩

theorem value_runs {γ : Type} {value : Scan Bool γ} {result : γ × Parser} {store : γ → α}
    (run : Runs m.finish value i ok (fun a j ok' => (a, m.parser j ok') = result)) :
    m.Reads (do return .ok (store (← value))) i ok (.ok (store result.1, result.2)) := by
  apply runs_then run
  intro a j ok' _ inside' read
  apply runs_pure _ inside'
  intro _
  rw [← read]
  rfl

theorem unknown_runs (inside : i ≤ m.finish) :
    m.Reads (do m.skipValue; return .ok out) i ok (.ok (out, (m.parser i ok).skipValue)) := by
  apply runs_then (skip_value_runs inside)
  intro _ j ok' _ inside' skipped
  apply runs_pure _ inside'
  intro fits
  rw [← skipped fits]
  rfl

theorem stored_runs {β : Type} {field : β → Scan Bool (Except β β)} {parseField : β → Parser → Except β (β × Parser)}
    {fresh : β} {store : β → α}
    (tracks : m.Tracks field parseField)
    (inside : i ≤ m.finish) :
    m.Follows (m.stored field fresh out store) i ok ((m.parser i ok).stored parseField fresh out store) := by
  apply runs_then (enclosed_runs (ch '{') tracks inside)
  intro r j ok' _ inside' read
  rw [Parser.stored]
  cases r with
  | error x =>
      apply runs_pure _ inside'
      refine ⟨fun _ same => abandoned same, fun fits => ?_⟩
      rw [← read.2 fits]
      rfl
  | ok x =>
      apply runs_pure _ inside'
      refine ⟨fun _ _ => read.1 x rfl, fun fits => ?_⟩
      rw [← read.2 fits]
      rfl

theorem decoded_runs {field : α → Scan Bool (Except α α)}
    (tracks : m.Tracks field parse)
    (inside : i ≤ m.finish) :
    Runs m.finish (m.decoded field out) i ok (fun r _ _ => m.Fits →
      r = decoded ((m.parser i ok).enclosed (ch '{') (ch '}') parse out)) := by
  apply runs_then (enclosed_runs (ch '{') tracks inside)
  intro r j ok' _ inside' read
  cases r with
  | error out' =>
      apply runs_pure _ inside'
      intro fits
      rw [← read.2 fits]
      rfl
  | ok out' =>
      apply runs_bind
      apply runs_current inside'
      apply runs_pure _ inside'
      intro fits
      rw [← read.2 fits]
      rfl

end Members

theorem string_value_runs (inside : i ≤ m.finish) :
    Runs m.finish m.parseString i ok (fun s j ok' => (s, m.parser j ok') = (m.parser i ok).parseString) :=
  runs_mono (parse_string_runs inside) (fun _ _ _ _ _ read => read.1)

theorem response_field_tracks : m.Tracks m.responseField BufferedResponse.field := by
  intro b i ok inside
  rw [buffered_field_keyed]
  apply keyed_runs _ inside
  intro k j ok' inside'
  rw [BufferedResponse.value]
  split
  · exact value_runs (parse_u64_runs inside')
  · split
    · exact value_runs (string_value_runs inside')
    · split
      · exact value_runs (parse_u64_runs inside')
      · exact unknown_runs inside'

theorem checkpoint_element_tracks : m.Tracks m.checkpointElement Checkpoint.element := by
  intro out i ok inside
  rw [checkpoint_element_stored]
  exact stored_runs response_field_tracks inside

theorem checkpoint_field_tracks : m.Tracks m.checkpointField Checkpoint.field := by
  intro out i ok inside
  rw [checkpoint_field_keyed]
  apply keyed_runs _ inside
  intro key j ok' inside'
  rw [Checkpoint.value]
  split
  · exact value_runs (parse_u64_runs inside')
  · split
    · exact value_runs (parse_u64_runs inside')
    · split
      · exact value_runs (parse_u64_runs inside')
      · split
        · exact follows_reads (enclosed_runs (ch '[') checkpoint_element_tracks inside')
        · exact unknown_runs inside'

theorem event_field_tracks : m.Tracks m.eventField ReplayEvent.field := by
  intro e i ok inside
  rw [replay_event_field_keyed]
  apply keyed_runs _ inside
  intro k j ok' inside'
  rw [ReplayEvent.value]
  split
  · exact value_runs (string_value_runs inside')
  · split
    · exact value_runs (parse_u64_runs inside')
    · split
      · exact value_runs (string_value_runs inside')
      · split
        · exact value_runs (parse_u64_runs inside')
        · exact unknown_runs inside'

theorem replay_element_tracks : m.Tracks m.replayElement Replay.element := by
  intro out i ok inside
  rw [replay_element_stored]
  exact stored_runs event_field_tracks inside

theorem replay_field_tracks : m.Tracks m.replayField Replay.field := by
  intro out i ok inside
  rw [replay_field_keyed]
  apply keyed_runs _ inside
  intro key j ok' inside'
  rw [Replay.value]
  split
  · exact value_runs (parse_u64_runs inside')
  · split
    · exact follows_reads (enclosed_runs (ch '[') replay_element_tracks inside')
    · exact unknown_runs inside'

end Bounds

-- ---- the decoders ----

theorem from_json_checkpoint_runs (m : Machine) :
    Runs m.finish m.fromJsonCheckpoint 0 true (fun r _ _ => m.Fits → r = fromJsonCheckpoint (m.left 0)) := by
  rw [from_json_checkpoint_decoded]
  exact decoded_runs checkpoint_field_tracks (Nat.zero_le _)

theorem from_json_replay_runs (m : Machine) :
    Runs m.finish m.fromJsonReplay 0 true (fun r _ _ => m.Fits → r = fromJsonReplay (m.left 0)) := by
  rw [from_json_replay_decoded]
  exact decoded_runs replay_field_tracks (Nat.zero_le _)

section Text

variable (input : List UInt8) (beyond : Nat → UInt8) (overflow : Int → Int)

theorem holding_left : (Machine.holding input beyond overflow).left 0 = input := by
  apply List.ext_getElem
  · rw [left_length]
    rfl
  · intro i _ below
    simp [Buffer.left, Machine.holding, below]

-- Both decoders come back on every text. Their cursor goes forward only and no
-- further than the end, they read nothing from there on, and every turn that is
-- followed by another has advanced.
theorem decoders_stay_inside :
    (∃ result s, (Machine.holding input beyond overflow).fromJsonCheckpoint ⟨0, true, []⟩ = some (result, s) ∧
      s.pos ≤ input.length ∧ ∀ access ∈ s.log, access.Within input.length) ∧
    (∃ result s, (Machine.holding input beyond overflow).fromJsonReplay ⟨0, true, []⟩ = some (result, s) ∧
      s.pos ≤ input.length ∧ ∀ access ∈ s.log, access.Within input.length) := by
  constructor
  · obtain ⟨result, s, ran, inside, within, _⟩ :=
      runs_inside (from_json_checkpoint_runs (Machine.holding input beyond overflow))
    exact ⟨result, s, ran, inside, within⟩
  · obtain ⟨result, s, ran, inside, within, _⟩ :=
      runs_inside (from_json_replay_runs (Machine.holding input beyond overflow))
    exact ⟨result, s, ran, inside, within⟩

-- Neither what lies beyond the end nor an overflow shows in the result.
theorem holding_decodes_checkpoint (fits : input.length < 2 ^ 31) :
    ∃ s, (Machine.holding input beyond overflow).fromJsonCheckpoint ⟨0, true, []⟩ = some (fromJsonCheckpoint input, s) := by
  obtain ⟨result, s, ran, _, _, read⟩ :=
    runs_inside (from_json_checkpoint_runs (Machine.holding input beyond overflow))
  rw [read fits, holding_left] at ran
  exact ⟨s, ran⟩

theorem holding_decodes_replay (fits : input.length < 2 ^ 31) :
    ∃ s, (Machine.holding input beyond overflow).fromJsonReplay ⟨0, true, []⟩ = some (fromJsonReplay input, s) := by
  obtain ⟨result, s, ran, _, _, read⟩ := runs_inside (from_json_replay_runs (Machine.holding input beyond overflow))
  rw [read fits, holding_left] at ran
  exact ⟨s, ran⟩

end Text

end Color
