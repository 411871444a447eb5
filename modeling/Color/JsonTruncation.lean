import Color.JsonRoundTrip
import Color.ParserFlag

set_option autoImplicit false

namespace Color

-- ---- a parser that has failed or has nothing left ----

def Parser.Starved (p : Parser) : Prop := p.ok = false ∨ p.rest = []

def Starves {α : Type} : Except α (α × Parser) → Prop
  | .error _ => True
  | .ok (_, p) => p.Starved

theorem fails_starves {α : Type} (result : Except α (α × Parser)) (fails : Fails result) : Starves result := by
  cases result with
  | error out => trivial
  | ok pair => exact Or.inl fails

theorem ws_starved (p : Parser) (starved : p.Starved) : p.ws.Starved := by
  cases starved with
  | inl down => exact Or.inl down
  | inr empty => exact Or.inr (by rw [Parser.ws, empty, List.dropWhile_nil])

theorem eat_starved (p : Parser) (c : UInt8) (starved : p.Starved) : (p.eat c).2.ok = false := by
  cases starved with
  | inl down => exact eat_down p c down
  | inr empty =>
      have nothing : p.ws.rest = [] := by rw [Parser.ws, empty, List.dropWhile_nil]
      rw [Parser.eat, nothing]

theorem parse_string_starved (p : Parser) (starved : p.Starved) : p.parseString.2.ok = false :=
  parse_string_eaten p (eat_starved p kQuote starved)

theorem keyed_starved {α : Type} (p : Parser) (out : α) (value : List UInt8 → Parser → Except α (α × Parser))
    (keeps : ∀ k q, q.ok = false → Fails (value k q)) (starved : p.parseString.2.Starved) : Fails (p.keyed out value) := by
  have eaten := eat_starved p.parseString.2 (ch ':') starved
  rw [Parser.keyed]
  simp only
  split
  · trivial
  · rename_i q shape
    rw [shape] at eaten
    exact keeps _ q eaten

theorem enclosed_starved {α : Type} (p : Parser) (opened close : UInt8) (item : α → Parser → Except α (α × Parser)) (out : α)
    (starved : p.Starved) : Fails (p.enclosed opened close item out) :=
  enclosed_eaten p opened close item out (eat_starved p opened starved)

theorem stored_starves {α β : Type} (p : Parser) (field : β → Parser → Except β (β × Parser)) (fresh : β) (out : α)
    (store : β → α) (inner : Starves (p.enclosed (ch '{') (ch '}') field fresh)) : Starves (p.stored field fresh out store) := by
  rw [Parser.stored]
  split
  · trivial
  · rename_i x q shape
    rw [shape] at inner
    exact inner

theorem stored_hungry {α β : Type} (p : Parser) (field : β → Parser → Except β (β × Parser)) (fresh : β) (out : α)
    (store : β → α) (starved : p.Starved) : Starves (p.stored field fresh out store) :=
  stored_starves p field fresh out store (fails_starves _ (enclosed_starved p (ch '{') (ch '}') field fresh starved))

-- ---- strings and numbers cut short ----

theorem prefix_append_cases (part a b : List UInt8) (pre : part <+: a ++ b) :
    part <+: a ∨ ∃ later, part = a ++ later ∧ later <+: b := by
  cases List.prefix_or_prefix_of_prefix pre (List.prefix_append a b) with
  | inl short => exact Or.inl short
  | inr long =>
      obtain ⟨later, same⟩ := long
      rw [← same, List.prefix_append_right_inj] at pre
      exact Or.inr ⟨later, same.symm, pre⟩

theorem escape_cut (c : UInt8) (part : List UInt8) (pre : part <+: escape c) (short : part ≠ escape c) :
    (stringBody part).2 = [] := by
  have every : ∀ n : Nat, n < 256 → ∀ k : Nat, k < (escape n.toUInt8).length →
      (stringBody ((escape n.toUInt8).take k)).2 = [] := by decide +kernel
  have same : c.toNat.toUInt8 = c := UInt8.ofNat_toNat
  have cut := List.prefix_iff_eq_take.mp pre
  have shorter : part.length < (escape c).length :=
    Nat.lt_of_le_of_ne pre.length_le (fun equal => short (pre.eq_of_length equal))
  have open_ := every c.toNat c.toNat_lt part.length
  rw [same, ← cut] at open_
  exact open_ shorter

theorem escaped_cut (s part : List UInt8) (pre : part <+: s.flatMap escape) : (stringBody part).2 = [] := by
  induction s generalizing part with
  | nil =>
      rw [List.flatMap_nil, List.prefix_nil] at pre
      rw [pre]
      rfl
  | cons c s ih =>
      rw [List.flatMap_cons] at pre
      have whole (later : List UInt8) (rest : later <+: s.flatMap escape) : (stringBody (escape c ++ later)).2 = [] := by
        rw [escape_read]
        exact ih later rest
      cases prefix_append_cases part _ _ pre with
      | inl inside =>
          by_cases short : part = escape c
          · have alone := whole [] (List.nil_prefix)
            rwa [List.append_nil, ← short] at alone
          · exact escape_cut c part inside short
      | inr beyond =>
          obtain ⟨later, same, rest⟩ := beyond
          rw [same]
          exact whole later rest

theorem plain_cut (part : List UInt8) (plain : ∀ c ∈ part, c ≠ kQuote ∧ c ≠ kBackslash) : (stringBody part).2 = [] := by
  induction part with
  | nil => rfl
  | cons c part ih =>
      have own := plain c List.mem_cons_self
      rw [string_body_plain c part own.1 own.2]
      exact ih (fun d inside => plain d (List.mem_cons_of_mem c inside))

theorem parse_string_open (part : List UInt8) (open_ : (stringBody part).2 = []) :
    (Parser.parseString ⟨kQuote :: part, true⟩).2.ok = false := by
  have shape : stringBody part = ((stringBody part).1, []) := by rw [← open_]
  rw [Parser.parseString, eat_here kQuote part true (by decide)]
  simp only
  rw [shape]

theorem parse_string_cut (body s part : List UInt8) (read : stringBody (body ++ [kQuote]) = (s, [kQuote]))
    (open_ : ∀ part, part <+: body → (stringBody part).2 = []) (pre : part <+: kQuote :: (body ++ [kQuote])) :
    (Parser.parseString ⟨part, true⟩).2.Starved := by
  rcases List.prefix_cons_iff.mp pre with empty | ⟨inside, shape, within⟩
  · rw [empty]
    exact Or.inl rfl
  · rw [shape]
    rcases List.prefix_concat_iff.mp within with full | short
    · have whole := parse_string_here body s [] read
      rw [full, whole]
      exact Or.inr rfl
    · exact Or.inl (parse_string_open inside (open_ inside short))

theorem parse_quoted_cut (s part : List UInt8) (pre : part <+: quoted s) :
    (Parser.parseString ⟨part, true⟩).2.Starved :=
  parse_string_cut (s.flatMap escape) s part (string_body_escaped s []) (escaped_cut s) pre

theorem parse_u64_cut (n : Nat) (part : List UInt8) (pre : part <+: decimal n) :
    (Parser.parseU64 ⟨part, true⟩).2.Starved := by
  have numeral : ∀ c ∈ part, isNumeral c = true :=
    fun c inside => (numeral_solid c (Numerals.written_digits n c (pre.subset inside))).2
  apply Or.inr
  change (part.dropWhile isBlank).dropWhile isNumeral = []
  rw [List.dropWhile_eq_nil_iff]
  exact fun c inside => numeral c ((List.dropWhile_suffix isBlank).subset inside)

-- ---- objects and arrays cut short ----

theorem members_starved {α : Type} (close : UInt8) (item : α → Parser → Except α (α × Parser))
    (hungry : ∀ out p, p.Starved → Starves (item out p)) (fuel : Nat) (out : α) (p : Parser) (starved : p.Starved) :
    Starves (Parser.members close item fuel out p) := by
  induction fuel generalizing out p with
  | zero => trivial
  | succ fuel ih =>
      have left : (p.peek close).2.Starved := ws_starved p starved
      rw [Parser.members]
      simp only
      split
      · exact left
      · have read := hungry out _ left
        split
        · trivial
        · rename_i next q shape
          rw [shape] at read
          apply ih
          split
          · exact ws_starved q read
          · exact Or.inl (eat_starved _ _ (ws_starved q read))

-- A piece that is read in full, and no further than the input goes where it is cut.
structure Cut {α : Type} (close : UInt8) (item : α → Parser → Except α (α × Parser)) (piece : Piece α) : Prop where
  reads : Reads close item piece
  short : ∀ out part, part <+: piece.text → Starves (item out ⟨part, true⟩)

section Enclosed

variable {α : Type} (close : UInt8) (item : α → Parser → Except α (α × Parser))
  (hungry : ∀ out p, p.Starved → Starves (item out p))

include hungry

theorem members_turn_cut (piece : Piece α) (cut : Cut close item piece) (fuel : Nat) (out : α) (part : List UInt8)
    (pre : part <+: piece.text) : Starves (Parser.members close item fuel out ⟨part, true⟩) := by
  cases part with
  | nil => exact members_starved close item hungry fuel out _ (Or.inr rfl)
  | cons b tail =>
      cases fuel with
      | zero => trivial
      | succ fuel =>
          obtain ⟨first, later, shape, solid, open_⟩ := cut.reads.starts
          have same : b = first := by
            rw [shape] at pre
            exact (List.cons_prefix_cons.mp pre).1
          have read := cut.short out (b :: tail) pre
          rw [Parser.members, peek_here b close tail true (same ▸ solid), decide_eq_false (same ▸ open_)]
          simp only [Bool.not_true, Bool.or_false, Bool.false_eq_true, if_false]
          split
          · trivial
          · rename_i next q result
            rw [result] at read
            apply members_starved close item hungry
            split
            · exact ws_starved q read
            · exact Or.inl (eat_starved _ _ (ws_starved q read))

theorem members_cut (distinct : ch ',' ≠ close) (pieces : List (Piece α))
    (cut : ∀ piece ∈ pieces, Cut close item piece) (fuel : Nat) (out : α) (part : List UInt8)
    (pre : part <+: joined (pieces.map Piece.text)) : Starves (Parser.members close item fuel out ⟨part, true⟩) := by
  induction pieces generalizing fuel out part with
  | nil =>
      rw [List.prefix_nil.mp pre]
      exact members_starved close item hungry fuel out _ (Or.inr rfl)
  | cons piece pieces ih =>
      have own := cut piece List.mem_cons_self
      have later := fun other member => cut other (List.mem_cons_of_mem piece member)
      cases pieces with
      | nil => exact members_turn_cut close item hungry piece own fuel out part pre
      | cons next pieces =>
          cases prefix_append_cases part _ _ pre with
          | inl inside => exact members_turn_cut close item hungry piece own fuel out part inside
          | inr beyond =>
              obtain ⟨rest, shape, left⟩ := beyond
              rcases List.prefix_cons_iff.mp left with empty | ⟨more, split, inside⟩
              · rw [shape, empty, List.append_nil]
                exact members_turn_cut close item hungry piece own fuel out _ (List.prefix_refl _)
              · cases fuel with
                | zero => trivial
                | succ fuel =>
                    rw [shape, split, members_turn close item piece own.reads fuel out (ch ',') more (Or.inl rfl) (by decide),
                      if_neg distinct]
                    exact ih later fuel _ more inside

theorem enclosed_cut (opened : UInt8) (openSolid : isBlank opened = false) (distinct : ch ',' ≠ close)
    (pieces : List (Piece α)) (cut : ∀ piece ∈ pieces, Cut close item piece) (out : α)
    (part : List UInt8) (pre : part <+: opened :: (joined (pieces.map Piece.text) ++ [close]))
    (short : part ≠ opened :: (joined (pieces.map Piece.text) ++ [close])) :
    Fails (Parser.enclosed ⟨part, true⟩ opened close item out) := by
  rcases List.prefix_cons_iff.mp pre with empty | ⟨body, shape, inside⟩
  · rw [empty]
    trivial
  · have within : body <+: joined (pieces.map Piece.text) := by
      rcases List.prefix_concat_iff.mp inside with full | within
      · exact absurd (shape.trans (by rw [full])) short
      · exact within
    have read := members_cut close item hungry distinct pieces cut (body.length + 2) out body within
    rw [shape, Parser.enclosed, eat_here opened body true openSolid]
    simp only
    split
    · trivial
    · rename_i result q members
      rw [members] at read
      exact eat_starved q close read

theorem enclosed_part (opened : UInt8) (openSolid : isBlank opened = false) (solid : isBlank close = false)
    (distinct : ch ',' ≠ close) (pieces : List (Piece α)) (cut : ∀ piece ∈ pieces, Cut close item piece) (out : α)
    (part : List UInt8) (pre : part <+: opened :: (joined (pieces.map Piece.text) ++ [close])) :
    Starves (Parser.enclosed ⟨part, true⟩ opened close item out) := by
  by_cases whole : part = opened :: (joined (pieces.map Piece.text) ++ [close])
  · rw [whole, enclosed_read close item opened openSolid solid distinct pieces (fun piece listed => (cut piece listed).reads)
      out []]
    exact Or.inr rfl
  · exact fails_starves _ (enclosed_cut close item hungry opened openSolid distinct pieces cut out part pre whole)

end Enclosed

-- ---- members cut short ----

theorem parse_key (key : String) (value rest : List UInt8) (plain : ∀ c ∈ text key, c ≠ kQuote ∧ c ≠ kBackslash) :
    Parser.parseString ⟨member key value ++ rest, true⟩ = (text key, ⟨ch ':' :: (value ++ rest), true⟩) := by
  have read := parse_string_here (text key) (text key) (ch ':' :: (value ++ rest)) (string_body_key (text key) _ plain)
  simpa [member] using read

section Keyed

variable {α : Type} (value : List UInt8 → Parser → Except α (α × Parser))
  (keeps : ∀ k q, q.ok = false → Fails (value k q))

include keeps

theorem keyed_hungry (out : α) (p : Parser) (starved : p.Starved) : Starves (p.keyed out value) :=
  fails_starves _ (keyed_starved p out value keeps (Or.inl (parse_string_starved p starved)))

-- The cut falls in the key, before the colon or in the value.
theorem keyed_cut (key : String) (plain : ∀ c ∈ text key, c ≠ kQuote ∧ c ≠ kBackslash) (body : List UInt8) (out : α)
    (short : ∀ part, part <+: body → Starves (value (text key) ⟨part, true⟩)) (part : List UInt8)
    (pre : part <+: member key body) : Starves (Parser.keyed ⟨part, true⟩ out value) := by
  have inKey (front : List UInt8) (within : front <+: kQuote :: (text key ++ [kQuote])) :
      Starves (Parser.keyed ⟨front, true⟩ out value) := by
    apply fails_starves
    apply keyed_starved ⟨front, true⟩ out value keeps
    apply parse_string_cut (text key) (text key) front (string_body_key (text key) [] plain) _ within
    exact fun part inside => plain_cut part (fun c listed => plain c (inside.subset listed))
  have shape : member key body = (kQuote :: (text key ++ [kQuote])) ++ ch ':' :: body := by simp [member]
  rw [shape] at pre
  cases prefix_append_cases part _ _ pre with
  | inl within => exact inKey part within
  | inr beyond =>
      obtain ⟨later, same, left⟩ := beyond
      rcases List.prefix_cons_iff.mp left with empty | ⟨more, split, inside⟩
      · rw [same, empty, List.append_nil]
        exact inKey _ (List.prefix_refl _)
      · have whole : part = member key more ++ [] := by
          rw [same, split]
          simp [member]
        rw [whole, Parser.keyed, parse_key key more [] plain, List.append_nil]
        simp only [eat_here (ch ':') more true (by decide)]
        exact short more inside

end Keyed

-- ---- checkpoints cut short ----

theorem buffered_hungry (b : BufferedResponse) (p : Parser) (starved : p.Starved) : Starves (b.field p) :=
  keyed_hungry b.value (buffered_value_down b) b p starved

theorem buffered_cut (b : BufferedResponse) (fits : b.seq < 2 ^ 64) :
    ∀ piece ∈ b.pieces, Cut (ch '}') BufferedResponse.field piece := by
  intro piece listed
  refine ⟨buffered_reads b fits piece listed, ?_⟩
  intro out part pre
  rw [buffered_field_keyed]
  simp only [BufferedResponse.pieces, List.mem_cons, List.not_mem_nil, or_false] at listed
  rcases listed with same | same | same <;> rw [same] at pre
  · apply keyed_cut out.value (buffered_value_down out) "seq" (plain_key _ (by decide +kernel)) _ out _ part pre
    exact fun part inside => parse_u64_cut b.seq part inside
  · apply keyed_cut out.value (buffered_value_down out) "payload" (plain_key _ (by decide +kernel)) _ out _ part pre
    exact fun part inside => parse_quoted_cut b.payload part inside
  · apply keyed_cut out.value (buffered_value_down out) "hash" (plain_key _ (by decide +kernel)) _ out _ part pre
    exact fun part inside => parse_u64_cut b.hash.toNat part inside

theorem buffered_element_hungry (out : Checkpoint) (p : Parser) (starved : p.Starved) : Starves (out.element p) := by
  rw [checkpoint_element_stored]
  exact stored_hungry p BufferedResponse.field ⟨0, [], 0⟩ out _ starved

theorem buffered_element_cut (b : BufferedResponse) (fits : b.seq < 2 ^ 64) :
    Cut (ch ']') Checkpoint.element ⟨b.toJson, fun out => { out with buffer := out.buffer ++ [b] }⟩ := by
  refine ⟨buffered_element_reads b fits, ?_⟩
  intro out part pre
  have whole : part <+: ch '{' :: (joined (b.pieces.map Piece.text) ++ ch '}' :: []) := buffered_to_json b ▸ pre
  rw [checkpoint_element_stored]
  apply stored_starves
  exact enclosed_part (ch '}') BufferedResponse.field buffered_hungry (ch '{') (by decide) (by decide) (by decide)
    b.pieces (buffered_cut b fits) ⟨0, [], 0⟩ part whole

theorem checkpoint_hungry (cp : Checkpoint) (p : Parser) (starved : p.Starved) : Starves (cp.field p) :=
  keyed_hungry cp.value (checkpoint_value_down cp) cp p starved

theorem buffer_cut (cp : Checkpoint) (fits : ∀ b ∈ cp.buffer, b.seq < 2 ^ 64) (out : Checkpoint) (part : List UInt8)
    (pre : part <+: bufferText cp) : Starves (Parser.enclosed ⟨part, true⟩ (ch '[') (ch ']') Checkpoint.element out) := by
  apply enclosed_part (ch ']') Checkpoint.element buffered_element_hungry (ch '[') (by decide) (by decide) (by decide)
    (cp.buffer.map (fun b => ⟨b.toJson, fun out => { out with buffer := out.buffer ++ [b] }⟩))
  · intro piece listed
    obtain ⟨b, inside, same⟩ := List.mem_map.mp listed
    rw [← same]
    exact buffered_element_cut b (fits b inside)
  · rw [List.map_map]
    exact pre

theorem checkpoint_cut (cp : Checkpoint) (fits : cp.Fits) : ∀ piece ∈ cp.pieces, Cut (ch '}') Checkpoint.field piece := by
  intro piece listed
  refine ⟨checkpoint_reads cp fits piece listed, ?_⟩
  intro out part pre
  have cut (key : String) (body : List UInt8) (plain : ∀ c ∈ text key, c ≠ kQuote ∧ c ≠ kBackslash)
      (short : ∀ part, part <+: body → Starves (out.value (text key) ⟨part, true⟩)) (within : part <+: member key body) :
      Starves (out.field ⟨part, true⟩) :=
    keyed_cut out.value (checkpoint_value_down out) key plain body out short part within
  simp only [Checkpoint.pieces, List.mem_cons, List.not_mem_nil, or_false] at listed
  rcases listed with same | same | same | same | same <;> rw [same] at pre
  · apply cut "version" _ (plain_key _ (by decide +kernel)) _ pre
    intro part inside
    rcases List.prefix_cons_iff.mp inside with empty | ⟨tail, whole, nothing⟩
    · rw [empty]
      exact Or.inl rfl
    · rw [whole, List.prefix_nil.mp nothing]
      exact Or.inr rfl
  · exact cut "committed_upto" _ (plain_key _ (by decide +kernel)) (fun part inside => parse_u64_cut cp.committedUpto part inside) pre
  · exact cut "event_count" _ (plain_key _ (by decide +kernel)) (fun part inside => parse_u64_cut cp.eventCount part inside) pre
  · exact cut "history_hash" _ (plain_key _ (by decide +kernel)) (fun part inside => parse_u64_cut cp.historyHash.toNat part inside) pre
  · exact cut "buffer" _ (plain_key _ (by decide +kernel)) (fun part inside => buffer_cut cp fits.seqs out part inside) pre

theorem checkpoint_truncated (cp : Checkpoint) (fits : cp.Fits) (part : List UInt8) (pre : part <+: cp.toJson)
    (short : part ≠ cp.toJson) : (fromJsonCheckpoint part).1 = false := by
  rw [checkpoint_to_json] at pre short
  have fails := enclosed_cut (ch '}') Checkpoint.field checkpoint_hungry (ch '{') (by decide) (by decide) cp.pieces
    (checkpoint_cut cp fits) {} part pre short
  rw [from_json_checkpoint_decoded]
  exact fails_decoded _ fails

-- ---- replays cut short ----

theorem replay_event_hungry (e : ReplayEvent) (p : Parser) (starved : p.Starved) : Starves (e.field p) :=
  keyed_hungry e.value (replay_event_value_down e) e p starved

theorem replay_event_cut (e : ReplayEvent) (fits : e.seq < 2 ^ 64) :
    ∀ piece ∈ e.pieces, Cut (ch '}') ReplayEvent.field piece := by
  intro piece listed
  refine ⟨replay_event_reads e fits piece listed, ?_⟩
  intro out part pre
  have cut (key : String) (body : List UInt8) (plain : ∀ c ∈ text key, c ≠ kQuote ∧ c ≠ kBackslash)
      (short : ∀ part, part <+: body → Starves (out.value (text key) ⟨part, true⟩)) (within : part <+: member key body) :
      Starves (out.field ⟨part, true⟩) :=
    keyed_cut out.value (replay_event_value_down out) key plain body out short part within
  simp only [ReplayEvent.pieces, List.mem_cons] at listed
  rcases listed with same | same | rest
  · rw [same] at pre
    exact cut "t" _ (plain_key _ (by decide +kernel)) (fun part inside => parse_quoted_cut e.kind part inside) pre
  · rw [same] at pre
    exact cut "seq" _ (plain_key _ (by decide +kernel)) (fun part inside => parse_u64_cut e.seq part inside) pre
  · rw [ReplayEvent.carried] at rest
    split at rest
    · simp only [List.mem_cons, List.not_mem_nil, or_false] at rest
      cases rest with
      | inl same =>
          rw [same] at pre
          exact cut "payload" _ (plain_key _ (by decide +kernel)) (fun part inside => parse_quoted_cut e.payload part inside) pre
      | inr same =>
          rw [same] at pre
          exact cut "hash" _ (plain_key _ (by decide +kernel)) (fun part inside => parse_u64_cut e.hash.toNat part inside) pre
    · cases rest

theorem replay_element_hungry (out : Replay) (p : Parser) (starved : p.Starved) : Starves (out.element p) := by
  rw [replay_element_stored]
  exact stored_hungry p ReplayEvent.field ⟨false, 0, [], 0⟩ out _ starved

theorem replay_element_cut (e : ReplayEvent) (fits : e.seq < 2 ^ 64) (bare : e.Bare) :
    Cut (ch ']') Replay.element ⟨e.toJson, fun out => { out with events := out.events ++ [e] }⟩ := by
  refine ⟨replay_element_reads e fits bare, ?_⟩
  intro out part pre
  have whole : part <+: ch '{' :: (joined (e.pieces.map Piece.text) ++ ch '}' :: []) := replay_event_to_json e ▸ pre
  rw [replay_element_stored]
  apply stored_starves
  exact enclosed_part (ch '}') ReplayEvent.field replay_event_hungry (ch '{') (by decide) (by decide) (by decide)
    e.pieces (replay_event_cut e fits) ⟨false, 0, [], 0⟩ part whole

theorem replay_hungry (rp : Replay) (p : Parser) (starved : p.Starved) : Starves (rp.field p) :=
  keyed_hungry rp.value (replay_value_down rp) rp p starved

theorem events_cut (rp : Replay) (fits : rp.Fits) (bare : ∀ e ∈ rp.events, e.Bare) (out : Replay) (part : List UInt8)
    (pre : part <+: eventsText rp) : Starves (Parser.enclosed ⟨part, true⟩ (ch '[') (ch ']') Replay.element out) := by
  apply enclosed_part (ch ']') Replay.element replay_element_hungry (ch '[') (by decide) (by decide) (by decide)
    (rp.events.map (fun e => ⟨e.toJson, fun out => { out with events := out.events ++ [e] }⟩))
  · intro piece listed
    obtain ⟨e, inside, same⟩ := List.mem_map.mp listed
    rw [← same]
    exact replay_element_cut e (fits.seqs e inside) (bare e inside)
  · rw [List.map_map]
    exact pre

theorem replay_cut (rp : Replay) (fits : rp.Fits) (bare : ∀ e ∈ rp.events, e.Bare) :
    ∀ piece ∈ rp.pieces, Cut (ch '}') Replay.field piece := by
  intro piece listed
  refine ⟨replay_reads rp fits bare piece listed, ?_⟩
  intro out part pre
  simp only [Replay.pieces, List.mem_cons, List.not_mem_nil, or_false] at listed
  cases listed with
  | inl same =>
      rw [same] at pre
      exact keyed_cut out.value (replay_value_down out) "from" (plain_key _ (by decide +kernel)) _ out
        (fun part inside => parse_u64_cut rp.fromIndex part inside) part pre
  | inr same =>
      rw [same] at pre
      exact keyed_cut out.value (replay_value_down out) "events" (plain_key _ (by decide +kernel)) _ out
        (fun part inside => events_cut rp fits bare out part inside) part pre

-- What a request event carries is not written.
def ReplayEvent.bared (e : ReplayEvent) : ReplayEvent := if e.isResponse then e else ⟨false, e.seq, [], 0⟩

def Replay.bared (rp : Replay) : Replay := { rp with events := rp.events.map ReplayEvent.bared }

theorem bared_to_json (e : ReplayEvent) : e.bared.toJson = e.toJson := by
  cases kind : e.isResponse with
  | true => rw [ReplayEvent.bared, if_pos kind]
  | false => simp [ReplayEvent.bared, ReplayEvent.toJson, kind]

theorem replay_bared_to_json (rp : Replay) : rp.bared.toJson = rp.toJson := by
  have same : (rp.events.map ReplayEvent.bared).map ReplayEvent.toJson = rp.events.map ReplayEvent.toJson := by
    rw [List.map_map]
    exact List.map_congr_left (fun e _ => bared_to_json e)
  simp only [Replay.toJson, Replay.bared, same]

theorem bared_bare (e : ReplayEvent) : e.bared.Bare := by
  intro request
  cases kind : e.isResponse with
  | true =>
      rw [ReplayEvent.bared, if_pos kind, kind] at request
      cases request
  | false => simp [ReplayEvent.bared, kind]

theorem bared_seq (e : ReplayEvent) : e.bared.seq = e.seq := by
  rw [ReplayEvent.bared]
  split <;> rfl

theorem replay_bared_fits (rp : Replay) (fits : rp.Fits) : rp.bared.Fits := by
  refine ⟨fits.position, ?_⟩
  intro e listed
  obtain ⟨own, inside, same⟩ := List.mem_map.mp listed
  rw [← same, bared_seq]
  exact fits.seqs own inside

theorem replay_truncated (rp : Replay) (fits : rp.Fits) (part : List UInt8) (pre : part <+: rp.toJson)
    (short : part ≠ rp.toJson) : (fromJsonReplay part).1 = false := by
  have bare : ∀ e ∈ rp.bared.events, e.Bare := by
    intro e listed
    obtain ⟨own, _, same⟩ := List.mem_map.mp listed
    exact same ▸ bared_bare own
  rw [← replay_bared_to_json, replay_to_json] at pre short
  have fails := enclosed_cut (ch '}') Replay.field replay_hungry (ch '{') (by decide) (by decide) rp.bared.pieces
    (replay_cut rp.bared (replay_bared_fits rp fits) bare) {} part pre short
  rw [from_json_replay_decoded]
  exact fails_decoded _ fails

theorem truncation_rejected :
    (∀ (cp : Checkpoint) (t : List UInt8), cp.Fits → t <+: cp.toJson → t ≠ cp.toJson → (fromJsonCheckpoint t).1 = false) ∧
    ∀ (rp : Replay) (t : List UInt8), rp.Fits → t <+: rp.toJson → t ≠ rp.toJson → (fromJsonReplay t).1 = false :=
  ⟨fun cp t fits pre short => checkpoint_truncated cp fits t pre short,
    fun rp t fits pre short => replay_truncated rp fits t pre short⟩

-- A cut before the key of a member that follows a payload with a bracket, and
-- one within the first escape of a payload.
theorem truncation_rejected_inside :
    (fromJsonCheckpoint ((Checkpoint.toJson ⟨7, 12, 5, [⟨7, [34, 125, 0, 93], 3⟩]⟩).take 109)).1 = false ∧
    (fromJsonReplay ((Replay.toJson ⟨1, [⟨false, 1, [34], 0⟩, ⟨true, 1, [34, 125], 5⟩]⟩).take 67)).1 = false :=
  ⟨truncation_rejected.1 _ _ ⟨by decide, by decide, by decide⟩ (List.take_prefix 109 _) (by decide +kernel),
    truncation_rejected.2 _ _ ⟨by decide, by decide⟩ (List.take_prefix 67 _) (by decide +kernel)⟩

end Color
