import Color.ParserCursor

set_option autoImplicit false

namespace Color

open Scanner

-- ---- the parser over memory does what the parser over the bytes left does ----

def Machine.parser (m : Machine) (i : Nat) (ok : Bool) : Parser := ⟨m.left i, ok⟩

section Bounds

variable {m : Machine} {i : Nat} {ok : Bool}

theorem ws_runs (inside : i ≤ m.finish) :
    Runs m.finish m.ws i ok (fun _ j ok' => m.parser j ok' = (m.parser i ok).ws) := by
  apply runs_mono (skip_runs isBlank inside)
  intro _ j ok' _ _ skipped
  rw [Machine.parser, skipped.1, skipped.2]
  rfl

theorem parser_here (below : i < m.finish) : m.parser i ok = ⟨m.cells i :: m.left (i + 1), ok⟩ := by
  rw [Machine.parser, left_here below]

theorem parser_finish (outside : ¬ i < m.finish) : m.parser i ok = ⟨[], ok⟩ := by
  rw [Machine.parser, left_finish (Nat.le_of_not_lt outside)]

theorem peek_runs (c : UInt8) (inside : i ≤ m.finish) :
    Runs m.finish (m.peek c) i ok (fun a j ok' => (a, m.parser j ok') = (m.parser i ok).peek c) := by
  apply runs_then (ws_runs inside)
  intro _ j ok' _ inside' blank
  rw [Parser.peek, ← blank]
  apply runs_sees inside'
  · intro below found
    simp [parser_here below, of_decide_eq_true found]
  · intro stopped
    by_cases below : j < m.finish
    · simpa [parser_here below] using stopped below
    · simp [parser_finish below]

theorem eat_runs (c : UInt8) (inside : i ≤ m.finish) :
    Runs m.finish (m.eat c) i ok (fun a j ok' =>
      (a, m.parser j ok') = (m.parser i ok).eat c ∧ (a = true → i < j)) := by
  apply runs_then (ws_runs inside)
  intro _ j ok' forward inside' blank
  rw [Parser.eat, ← blank]
  apply runs_bind
  apply runs_sees inside'
  · intro below found
    apply runs_bind
    apply runs_bump below
    apply runs_pure true below
    refine ⟨?_, fun _ => Nat.lt_succ_of_le forward⟩
    rw [parser_here below, Machine.parser]
    simp only [of_decide_eq_true found, if_true]
  · intro stopped
    apply runs_bind
    apply runs_assign false inside'
    apply runs_pure false inside'
    refine ⟨?_, fun taken => Bool.noConfusion taken⟩
    by_cases below : j < m.finish
    · simp [parser_here below, of_decide_eq_false (stopped below)]
    · simp [parser_finish below]

-- What a string comes to with s read so far and the bytes of rest ahead.
def ahead (s rest : List UInt8) : List UInt8 × List UInt8 := (s ++ (stringBody rest).1, (stringBody rest).2)

theorem escaped_runs (s : List UInt8) (below : i < m.finish) :
    Runs m.finish (m.escaped s) i ok (fun s' j ok' =>
      i < j ∧ ok' = ok ∧ ahead s' (m.left j) = ahead s (kBackslash :: m.left i)) := by
  apply runs_bind
  apply runs_next below
  by_cases unicoded : m.cells i = ch 'u'
  · rw [if_pos unicoded]
    apply runs_bind
    apply runs_position below
    by_cases room : m.finish - (i + 1) ≥ 4
    · rw [if_pos room]
      apply runs_bind
      apply runs_next (by omega)
      apply runs_bind
      apply runs_next (by omega)
      apply runs_bind
      apply runs_next (by omega)
      apply runs_bind
      apply runs_next (by omega)
      apply runs_pure _ (by omega)
      refine ⟨by omega, rfl, ?_⟩
      have bytes : m.left i = ch 'u' :: m.cells (i + 1) :: m.cells (i + 1 + 1) :: m.cells (i + 1 + 1 + 1) ::
          m.cells (i + 1 + 1 + 1 + 1) :: m.left (i + 1 + 1 + 1 + 1 + 1) := by
        rw [left_here below, unicoded, left_here (by omega), left_here (by omega), left_here (by omega),
          left_here (by omega)]
      rw [ahead, ahead, bytes, string_body_unicode, List.append_assoc]
    · rw [if_neg room]
      apply runs_pure _ below
      refine ⟨Nat.lt_succ_self i, rfl, ?_⟩
      have few : (m.left (i + 1)).length < 4 := by
        rw [left_length]
        omega
      rw [ahead, ahead, left_here below, unicoded, string_body_short _ few]
  · rw [if_neg unicoded]
    apply runs_pure _ below
    refine ⟨Nat.lt_succ_self i, rfl, ?_⟩
    rw [ahead, ahead, left_here below, string_body_escape _ _ unicoded, List.append_assoc]
    rfl

theorem string_turn_runs (s : List UInt8) (below : i < m.finish) (unquoted : m.cells i ≠ kQuote) :
    Runs m.finish (m.stringTurn s) i ok (fun s' j ok' =>
      i < j ∧ ok' = ok ∧ ahead s' (m.left j) = ahead s (m.left i)) := by
  apply runs_bind
  apply runs_next below
  apply runs_bind
  apply runs_more below
  by_cases starts : m.cells i = kBackslash ∧ decide (i + 1 < m.finish) = true
  · rw [if_pos starts]
    apply runs_mono (escaped_runs s (of_decide_eq_true starts.2))
    intro s' j ok' _ _ read
    refine ⟨Nat.lt_of_succ_lt read.1, read.2.1, ?_⟩
    rw [read.2.2, left_here below, starts.1]
  · rw [if_neg starts]
    apply runs_pure _ below
    refine ⟨Nat.lt_succ_self i, rfl, ?_⟩
    by_cases backslash : m.cells i = kBackslash
    · -- the text ends behind the backslash
      have last : m.finish ≤ i + 1 := by
        by_contra further
        exact starts ⟨backslash, decide_eq_true (Nat.lt_of_not_le further)⟩
      rw [ahead, ahead, left_here below, backslash, left_finish last, string_body_last, stringBody, List.append_nil]
    · rw [ahead, ahead, left_here below, string_body_plain _ _ unquoted backslash, List.append_assoc]
      rfl

theorem string_loop_runs (inside : i ≤ m.finish) :
    Runs m.finish (repeated (fun _ => m.sees (· ≠ kQuote)) m.stringTurn []) i ok (fun s j ok' =>
      ok' = ok ∧ stringBody (m.left i) = (s, m.left j) ∧ (j < m.finish → m.cells j = kQuote)) := by
  apply repeated_runs (fun s j ok' => ok' = ok ∧ ahead s (m.left j) = stringBody (m.left i))
  · intro s j ok' inside' inv
    apply runs_sees inside'
    · intro below other
      refine ⟨fun stop => Bool.noConfusion stop, fun _ => ?_⟩
      apply runs_mono (string_turn_runs s below (of_decide_eq_true other))
      intro s' k ok'' _ _ read
      exact ⟨read.1, read.2.1.trans inv.1, read.2.2.trans inv.2⟩
    · intro stopped
      refine ⟨fun _ => ⟨inv.1, ?_, fun below => by simpa using stopped below⟩, fun go => Bool.noConfusion go⟩
      rw [← inv.2, ahead]
      by_cases below : j < m.finish
      · have quote : m.cells j = kQuote := by simpa using stopped below
        rw [left_here below, quote, string_body_quote, List.append_nil]
      · rw [left_finish (Nat.le_of_not_lt below), stringBody, List.append_nil]
  · exact inside
  · exact ⟨rfl, rfl⟩

theorem parse_string_runs (inside : i ≤ m.finish) :
    Runs m.finish m.parseString i ok (fun s j ok' =>
      (s, m.parser j ok') = (m.parser i ok).parseString ∧ (i < m.finish → m.cells i = kQuote → i < j)) := by
  apply runs_then (eat_runs kQuote inside)
  intro taken j ok' forward inside' eaten
  rw [Parser.parseString, ← eaten.1]
  cases taken with
  | false =>
      apply runs_pure [] inside'
      refine ⟨rfl, fun below quote => ?_⟩
      have opening : Parser.eat (m.parser i ok) kQuote = (true, ⟨m.left (i + 1), ok⟩) := by
        rw [parser_here below, quote, eat_here kQuote _ ok (by decide)]
      rw [opening] at eaten
      exact Bool.noConfusion (Prod.ext_iff.mp eaten.1).1
  | true =>
      apply runs_then (string_loop_runs inside')
      intro s k ok'' forward' inside'' read
      obtain ⟨rfl, body, stopped⟩ := read
      have advanced : i < k := Nat.lt_of_lt_of_le (eaten.2 rfl) forward'
      apply runs_bind
      apply runs_bind
      apply runs_sees inside''
      · intro below _
        apply runs_bump below
        apply runs_pure s below
        refine ⟨?_, fun _ _ => Nat.lt_succ_of_lt advanced⟩
        simp [Machine.parser, body, left_here below, stopped below]
      · intro ended
        have outside : ¬ k < m.finish := fun below => by simpa [stopped below] using ended below
        apply runs_assign false inside''
        apply runs_pure s inside''
        refine ⟨?_, fun _ _ => advanced⟩
        simp [Machine.parser, body, left_finish (Nat.le_of_not_lt outside)]

theorem parse_u64_runs (inside : i ≤ m.finish) :
    Runs m.finish m.parseU64 i ok (fun n j ok' => (n, m.parser j ok') = (m.parser i ok).parseU64) := by
  apply runs_then (ws_runs inside)
  intro _ start ok' _ inside' blank
  rw [Parser.parseU64, ← blank]
  apply runs_bind
  apply runs_position inside'
  apply runs_then (skip_runs isNumeral inside')
  rintro _ j _ forward inside'' ⟨rfl, skipped⟩
  apply runs_bind
  apply runs_position inside''
  apply runs_then (copy_runs start (j - start) (by omega) inside'')
  intro digits k kept _ within copied
  apply runs_pure _ within
  have whole : start + (j - start) = j := Nat.add_sub_cancel' forward
  have taken : digits = (m.left start).takeWhile isNumeral := by
    apply (List.append_left_inj (m.left j)).mp
    calc
      digits ++ m.left j = m.left start := by rw [copied.2.2, whole]
      _ = (m.left start).takeWhile isNumeral ++ m.left j := by rw [skipped, List.takeWhile_append_dropWhile]
  rw [taken, copied.1, copied.2.1, Machine.parser, Machine.parser, skipped]

-- ---- skip_value ----

-- An int holds the depth of a text shorter than its range.
def Machine.Fits (m : Machine) : Prop := m.finish < 2 ^ 31

theorem int_fits {n : Int} (lower : 0 ≤ n) (upper : n < 2 ^ 31) : m.int n = n := by
  rw [Machine.int, if_pos ⟨by omega, upper⟩]

-- At the head of a turn: each byte behind the cursor may have opened one bracket.
def Machine.Nested (m : Machine) (opened close : UInt8) (skipped : Parser) (depth : Int) (i : Nat) (ok : Bool) : Prop :=
  m.Fits → ∃ d fuel : Nat, depth = (d : Int) ∧ d ≤ i ∧ m.finish - i ≤ fuel ∧
    Parser.skipNested opened close fuel d (m.parser i ok) = skipped

-- Where the loop goes on there is a bracket to close and a turn left.
theorem nested_inside {opened close : UInt8} {skipped : Parser} {depth : Int}
    (inv : m.Nested opened close skipped depth i ok) (fits : m.Fits) (below : i < m.finish) (inner : 0 < depth) :
    ∃ d fuel : Nat, depth = ((d + 1 : Nat) : Int) ∧ d + 1 ≤ i ∧ m.finish - i ≤ fuel + 1 ∧
      Parser.skipNested opened close (fuel + 1) (d + 1) (m.parser i ok) = skipped := by
  obtain ⟨d, fuel, rfl, bound, left, final⟩ := inv fits
  cases d with
  | zero => exact absurd inner (by decide)
  | succ d =>
      cases fuel with
      | zero => omega
      | succ fuel => exact ⟨d, fuel, rfl, bound, left, final⟩

theorem skip_nested_closed (opened close : UInt8) (fuel : Nat) (p : Parser) : p.skipNested opened close fuel 0 = p := by
  cases fuel <;> rfl

theorem skip_nested_empty (opened close : UInt8) (fuel depth : Nat) (ok : Bool) :
    Parser.skipNested opened close fuel depth ⟨[], ok⟩ = ⟨[], ok⟩ := by
  cases fuel with
  | zero => rfl
  | succ fuel => cases depth <;> rfl

theorem nested_done {opened close : UInt8} {skipped : Parser} {depth : Int}
    (inv : m.Nested opened close skipped depth i ok) (fits : m.Fits) (stopped : i < m.finish → depth ≤ 0) :
    m.parser i ok = skipped := by
  obtain ⟨d, fuel, rfl, _, _, final⟩ := inv fits
  by_cases below : i < m.finish
  · have closed : d = 0 := by
      have := stopped below
      omega
    rw [← final, closed, skip_nested_closed]
  · rw [← final, parser_finish below, skip_nested_empty]

theorem nested_string {opened close : UInt8} {skipped : Parser} {depth : Int} {s : List UInt8} {j : Nat} {ok' : Bool}
    (inv : m.Nested opened close skipped depth i ok) (below : i < m.finish) (inner : 0 < depth)
    (quote : m.cells i = kQuote) (read : (s, m.parser j ok') = (m.parser i ok).parseString) (advanced : i < j) :
    m.Nested opened close skipped depth j ok' := by
  intro fits
  obtain ⟨d, fuel, rfl, bound, left, final⟩ := nested_inside inv fits below inner
  refine ⟨d + 1, fuel, rfl, by omega, by omega, ?_⟩
  rw [parser_here below, quote] at read
  rw [← final, parser_here below, quote, Parser.skipNested]
  simp only [if_true, ← read]

theorem nested_byte {opened close : UInt8} {skipped : Parser} {depth : Int}
    (inv : m.Nested opened close skipped depth i ok) (below : i < m.finish) (inner : 0 < depth)
    (plain : m.cells i ≠ kQuote) :
    m.Nested opened close skipped
      (if m.cells i = opened then m.int (depth + 1) else if m.cells i = close then m.int (depth - 1) else depth)
      (i + 1) ok := by
  intro fits
  obtain ⟨d, fuel, rfl, bound, left, final⟩ := nested_inside inv fits below inner
  have range : m.finish < 2 ^ 31 := fits
  have deeper : m.int (((d + 1 : Nat) : Int) + 1) = ((d + 2 : Nat) : Int) := by
    rw [int_fits (by omega) (by omega)]
    omega
  have shallower : m.int (((d + 1 : Nat) : Int) - 1) = ((d : Nat) : Int) := by
    rw [int_fits (by omega) (by omega)]
    omega
  refine ⟨if m.cells i = opened then d + 2 else if m.cells i = close then d else d + 1, fuel, ?_, ?_, by omega, ?_⟩
  · rw [deeper, shallower]
    split
    · rfl
    · split <;> rfl
  · split
    · omega
    · split <;> omega
  · rw [← final, parser_here below, Parser.skipNested]
    simp only [plain, if_false, Machine.parser]

theorem nested_turn_runs (opened close : UInt8) (skipped : Parser) (depth : Int)
    (below : i < m.finish) (inner : 0 < depth) (inv : m.Nested opened close skipped depth i ok) :
    Runs m.finish (m.nestedTurn opened close depth) i ok (fun depth' j ok' =>
      i < j ∧ m.Nested opened close skipped depth' j ok') := by
  apply runs_bind
  apply runs_deref below
  by_cases quote : m.cells i = kQuote
  · rw [if_pos quote]
    apply runs_then (parse_string_runs (Nat.le_of_lt below))
    intro s j ok' _ inside' read
    have advanced := read.2 below quote
    exact runs_pure depth inside' ⟨advanced, nested_string inv below inner quote read.1 advanced⟩
  · rw [if_neg quote]
    apply runs_bind
    apply runs_bump below
    exact runs_pure _ below ⟨Nat.lt_succ_self i, nested_byte inv below inner quote⟩

theorem skip_nested_runs (opened close : UInt8) (below : i < m.finish) :
    Runs m.finish (m.skipNested opened close) i ok (fun _ j ok' => m.Fits →
      m.parser j ok' = Parser.skipNested opened close (m.left (i + 1)).length 1 (m.parser (i + 1) ok)) := by
  apply runs_bind
  apply runs_bump below
  have whole : Runs m.finish
      (repeated (fun depth => do return (← m.more) && decide (0 < depth)) (m.nestedTurn opened close) (1 : Int))
      (i + 1) ok (fun _ j ok' => m.Fits →
        m.parser j ok' = Parser.skipNested opened close (m.left (i + 1)).length 1 (m.parser (i + 1) ok)) := by
    apply repeated_runs (m.Nested opened close
      (Parser.skipNested opened close (m.left (i + 1)).length 1 (m.parser (i + 1) ok)))
    · intro depth j ok' inside' inv
      apply runs_bind
      apply runs_more inside'
      apply runs_pure _ inside'
      refine ⟨fun stop fits => nested_done inv fits ?_, fun go => ?_⟩
      · simpa using stop
      · have goes : j < m.finish ∧ 0 < depth := by simpa using go
        exact nested_turn_runs opened close _ depth goes.1 goes.2 inv
    · exact below
    · exact fun _ => ⟨1, (m.left (i + 1)).length, rfl, Nat.le_add_left 1 i, by rw [left_length], rfl⟩
  apply runs_then whole
  intro depth j ok' _ inside' skipped
  exact runs_pure () inside' skipped

theorem skip_value_runs (inside : i ≤ m.finish) :
    Runs m.finish m.skipValue i ok (fun _ j ok' => m.Fits → m.parser j ok' = (m.parser i ok).skipValue) := by
  apply runs_then (ws_runs inside)
  intro _ j ok' _ inside' blank
  rw [Parser.skipValue, ← blank]
  apply runs_bind
  apply runs_more inside'
  by_cases below : j < m.finish
  · rw [if_pos (decide_eq_true below), parser_here below]
    apply runs_bind
    apply runs_deref below
    dsimp only
    by_cases quote : m.cells j = kQuote
    · rw [if_pos quote, if_pos quote, ← parser_here below]
      apply runs_then (parse_string_runs inside')
      intro s k ok'' _ inside'' read
      apply runs_pure () inside''
      intro _
      rw [← read.1]
    · rw [if_neg quote, if_neg quote]
      by_cases object : m.cells j = ch '{'
      · rw [if_pos object, if_pos object]
        exact skip_nested_runs _ _ below
      · rw [if_neg object, if_neg object]
        by_cases array : m.cells j = ch '['
        · rw [if_pos array, if_pos array]
          exact skip_nested_runs _ _ below
        · rw [if_neg array, if_neg array, ← left_here below]
          apply runs_mono (skip_runs _ inside')
          intro _ k ok'' _ _ skipped _
          rw [Machine.parser, skipped.1, skipped.2]
  · rw [if_neg (by simpa using below), parser_finish below]
    apply runs_assign false inside'
    intro _
    rw [parser_finish below]

end Bounds

end Color
