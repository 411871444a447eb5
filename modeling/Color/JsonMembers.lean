import Mathlib.Data.List.Perm.Basic
import Color.ParserFlag
import Color.SkipValue

set_option autoImplicit false

namespace Color

-- ---- escaped strings ----

theorem control_unicode (c : UInt8) (control : c < 0x20) :
    unicode [ch '0', ch '0', hex ((c >>> 4) &&& 0xf), hex (c &&& 0xf)] = [c] := by
  have every : ∀ n : Nat, n < 32 →
      unicode [ch '0', ch '0', hex ((n.toUInt8 >>> 4) &&& 0xf), hex (n.toUInt8 &&& 0xf)] = [n.toUInt8] := by
    decide +kernel
  have same : c.toNat.toUInt8 = c := UInt8.ofNat_toNat
  have small := every c.toNat (UInt8.lt_iff_toNat_lt.mp control)
  rwa [same] at small

-- One escaped byte is read back as that byte, whatever follows.
theorem escape_read (c : UInt8) (rest : List UInt8) :
    stringBody (escape c ++ rest) = (c :: (stringBody rest).1, (stringBody rest).2) := by
  by_cases quote : c = kQuote
  · rw [quote]
    exact string_body_escape kQuote rest (by decide)
  by_cases backslash : c = kBackslash
  · rw [backslash]
    exact string_body_escape kBackslash rest (by decide)
  by_cases newline : c = ch '\n'
  · rw [newline]
    exact string_body_escape (ch 'n') rest (by decide)
  by_cases carriage : c = ch '\r'
  · rw [carriage]
    exact string_body_escape (ch 'r') rest (by decide)
  by_cases tab : c = ch '\t'
  · rw [tab]
    exact string_body_escape (ch 't') rest (by decide)
  by_cases control : c < 0x20
  · simp only [escape, quote, backslash, newline, carriage, tab, control, if_true, if_false, List.cons_append,
      List.nil_append]
    rw [string_body_unicode, control_unicode c control]
    rfl
  · simp only [escape, quote, backslash, newline, carriage, tab, control, if_false, List.cons_append, List.nil_append]
    exact string_body_plain c rest quote backslash

theorem string_body_escaped (s rest : List UInt8) :
    stringBody (s.flatMap escape ++ kQuote :: rest) = (s, kQuote :: rest) := by
  induction s with
  | nil => exact string_body_quote rest
  | cons c s ih => rw [List.flatMap_cons, List.append_assoc, escape_read, ih]

-- A key is looked through byte by byte, not over all bytes there are.
theorem plain_key (key : List UInt8) (all : key.all (fun c => c != kQuote && c != kBackslash) = true) :
    ∀ c ∈ key, c ≠ kQuote ∧ c ≠ kBackslash := by
  simpa using all

theorem string_body_key (key rest : List UInt8) (plain : ∀ c ∈ key, c ≠ kQuote ∧ c ≠ kBackslash) :
    stringBody (key ++ kQuote :: rest) = (key, kQuote :: rest) := by
  induction key with
  | nil => exact string_body_quote rest
  | cons c key ih =>
      have own := plain c List.mem_cons_self
      rw [List.cons_append, string_body_plain c _ own.1 own.2, ih (fun d member => plain d (List.mem_cons_of_mem c member))]

def quoted (s : List UInt8) : List UInt8 := kQuote :: (s.flatMap escape ++ [kQuote])

theorem parse_string_quoted (s rest : List UInt8) : Parser.parseString ⟨quoted s ++ rest, true⟩ = (s, ⟨rest, true⟩) := by
  have read := parse_string_here (s.flatMap escape) s rest (string_body_escaped s rest)
  simpa [quoted] using read

-- ---- members, objects and arrays ----

-- A piece of an object or an array: its text, and what reading it does to the
-- value under construction.
structure Piece (α : Type) where
  text : List UInt8
  effect : α → α

def member (key : String) (value : List UInt8) : List UInt8 := kQuote :: (text key ++ kQuote :: ch ':' :: value)

-- A member with this key and one of these value texts.
def MemberText (key : String) (value : List UInt8 → Prop) (t : List UInt8) : Prop :=
  ∃ m : Json.Member, m.key = text key ∧ value m.value ∧ t = m.text

-- A member with another key, written without escapes, and any value.
def ExtraMember (known : List String) (t : List UInt8) : Prop :=
  ∃ m : Json.Member, (∀ c ∈ m.key, c ≠ kBackslash) ∧ (∀ name ∈ known, m.key ≠ text name) ∧ Json.Value m.value ∧ t = m.text

-- The members in any order, extra ones anywhere among them.
def ObjectText (known : List String) (own : List (List UInt8 → Prop)) (s : List UInt8) : Prop :=
  ∃ texts extras order body, List.Forall₂ (fun p t => p t) own texts ∧ (∀ t ∈ extras, ExtraMember known t) ∧
    order.Perm (texts ++ extras) ∧ Json.Listed order body ∧ s = ch '{' :: (body ++ [ch '}'])

def ArrayText (elements : List (List UInt8 → Prop)) (s : List UInt8) : Prop :=
  ∃ texts body, List.Forall₂ (fun p t => p t) elements texts ∧ Json.Listed texts body ∧ s = ch '[' :: (body ++ [ch ']'])

theorem joined_listed (texts : List (List UInt8)) : Json.Listed texts (joined texts) := by
  induction texts with
  | nil => exact .none [] Json.blanks_nil
  | cons t texts ih =>
      cases texts with
      | nil =>
          have one := Json.Listed.one [] t [] Json.blanks_nil Json.blanks_nil
          rwa [List.append_nil] at one
      | cons next texts =>
          have more := Json.Listed.more [] t [] next texts _ Json.blanks_nil Json.blanks_nil ih
          rwa [List.append_nil] at more

theorem member_written (key : String) (texts : List UInt8 → Prop) (value : List UInt8)
    (plain : (text key).all (fun c => 32 ≤ c && c != 34 && c != 92) = true) (own : texts value) :
    MemberText key texts (member key value) :=
  ⟨⟨text key, [], [], value, Json.chars_of_plain _ plain, Json.blanks_nil, Json.blanks_nil⟩, rfl, own, rfl⟩

theorem extra_written (known : List String) (key : String) (value : List UInt8)
    (plain : (text key).all (fun c => 32 ≤ c && c != 34 && c != 92) = true) (other : ∀ name ∈ known, text key ≠ text name)
    (well : Json.Value value) : ExtraMember known (member key value) := by
  refine ⟨⟨text key, [], [], value, Json.chars_of_plain _ plain, Json.blanks_nil, Json.blanks_nil⟩, ?_, other, well, rfl⟩
  intro c inside same
  have own := List.all_eq_true.mp plain c inside
  rw [same] at own
  revert own
  decide

theorem object_written (known : List String) (own : List (List UInt8 → Prop)) (texts : List (List UInt8))
    (each : List.Forall₂ (fun p t => p t) own texts) : ObjectText known own (ch '{' :: (joined texts ++ [ch '}'])) := by
  refine ⟨texts, [], texts, joined texts, each, ?_, ?_, joined_listed texts, rfl⟩
  · exact fun t inside => absurd inside List.not_mem_nil
  · rw [List.append_nil]

theorem array_written {β : Type} (values : List β) (variant : β → List UInt8 → Prop) (written : β → List UInt8)
    (each : ∀ x, variant x (written x)) :
    ArrayText (values.map variant) (ch '[' :: (joined (values.map written) ++ [ch ']'])) := by
  refine ⟨values.map written, joined (values.map written), ?_, joined_listed _, rfl⟩
  rw [List.forall₂_map_left_iff, List.forall₂_map_right_iff, List.forall₂_same]
  exact fun x _ => each x

-- ---- blanks before what is read ----

theorem eat_blanks (w rest : List UInt8) (c : UInt8) (blanks : Json.Blanks w) :
    Parser.eat ⟨w ++ rest, true⟩ c = Parser.eat ⟨rest, true⟩ c := by
  rw [Parser.eat, Parser.eat, ws_blanks w rest true blanks]

theorem peek_blanks (w : List UInt8) (b c : UInt8) (rest : List UInt8) (blanks : Json.Blanks w) (solid : isBlank b = false) :
    Parser.peek ⟨w ++ b :: rest, true⟩ c = (decide (b = c), ⟨b :: rest, true⟩) := by
  have here := peek_here b c rest true solid
  rw [Parser.peek] at here ⊢
  rw [ws_blanks w (b :: rest) true blanks, here]

theorem parse_string_blanks (w rest : List UInt8) (blanks : Json.Blanks w) :
    Parser.parseString ⟨w ++ rest, true⟩ = Parser.parseString ⟨rest, true⟩ := by
  rw [Parser.parseString, Parser.parseString, eat_blanks w rest kQuote blanks]

theorem parse_u64_blanks (w rest : List UInt8) (blanks : Json.Blanks w) :
    Parser.parseU64 ⟨w ++ rest, true⟩ = Parser.parseU64 ⟨rest, true⟩ := by
  rw [Parser.parseU64, Parser.parseU64, ws_blanks w rest true blanks]

theorem skip_value_blanks (w rest : List UInt8) (blanks : Json.Blanks w) :
    Parser.skipValue ⟨w ++ rest, true⟩ = Parser.skipValue ⟨rest, true⟩ := by
  rw [Parser.skipValue, Parser.skipValue, ws_blanks w rest true blanks]

theorem enclosed_blanks {α : Type} (w rest : List UInt8) (opened close : UInt8)
    (item : α → Parser → Except α (α × Parser)) (out : α) (blanks : Json.Blanks w) :
    Parser.enclosed ⟨w ++ rest, true⟩ opened close item out = Parser.enclosed ⟨rest, true⟩ opened close item out := by
  rw [Parser.enclosed, Parser.enclosed, eat_blanks w rest opened blanks]

-- ---- objects and arrays with blanks ----

-- The piece is read wherever it stands; of the blanks behind it some are left.
structure Reaches {α : Type} (close : UInt8) (item : α → Parser → Except α (α × Parser)) (piece : Piece α) : Prop where
  starts : ∃ b tail, piece.text = b :: tail ∧ isBlank b = false ∧ b ≠ close
  read : ∀ out w b rest, Json.Blanks w → b = ch ',' ∨ b = close → ∃ w', w' <:+ w ∧
    item out ⟨piece.text ++ (w ++ b :: rest), true⟩ = .ok (piece.effect out, ⟨w' ++ b :: rest, true⟩)

section Enclosed

variable {α : Type} (close : UInt8) (item : α → Parser → Except α (α × Parser))

theorem members_turn_blanks (piece : Piece α) (reaches : Reaches close item piece) (fuel : Nat) (out : α)
    (before after : List UInt8) (b : UInt8) (rest : List UInt8) (blanks : Json.Blanks before ∧ Json.Blanks after)
    (next : b = ch ',' ∨ b = close) (solid : isBlank b = false) :
    Parser.members close item (fuel + 1) out ⟨before ++ (piece.text ++ (after ++ b :: rest)), true⟩ =
      Parser.members close item fuel (piece.effect out) (if b = close then ⟨b :: rest, true⟩ else ⟨rest, true⟩) := by
  obtain ⟨first, tail, shape, firstSolid, open_⟩ := reaches.starts
  obtain ⟨left, within, read⟩ := reaches.read out after b rest blanks.2 next
  have leftBlanks : Json.Blanks left := fun c inside => blanks.2 c (within.subset inside)
  have peeked : Parser.peek ⟨before ++ (piece.text ++ (after ++ b :: rest)), true⟩ close =
      (false, ⟨piece.text ++ (after ++ b :: rest), true⟩) := by
    rw [shape, List.cons_append, peek_blanks before first close _ blanks.1 firstSolid, decide_eq_false open_]
  rw [Parser.members, peeked]
  simp only [Bool.not_true, Bool.or_false, Bool.false_eq_true, if_false]
  rw [read]
  simp only [peek_blanks left b close rest leftBlanks solid, decide_eq_true_eq]
  by_cases closing : b = close
  · simp only [closing, if_true]
  · have comma : b = ch ',' := next.resolve_right closing
    subst comma
    simp only [closing, if_false, eat_here (ch ',') rest true solid]

theorem members_listed (solid : isBlank close = false) (distinct : ch ',' ≠ close) (pieces : List (Piece α))
    (reaches : ∀ piece ∈ pieces, Reaches close item piece) (s : List UInt8)
    (listed : Json.Listed (pieces.map Piece.text) s) (fuel : Nat) (enough : pieces.length < fuel) (out : α)
    (rest : List UInt8) :
    Parser.members close item fuel out ⟨s ++ close :: rest, true⟩ =
      .ok (pieces.foldl (fun out piece => piece.effect out) out, ⟨close :: rest, true⟩) := by
  induction pieces generalizing s fuel out with
  | nil =>
      cases listed with
      | none _ blanks =>
          cases fuel with
          | zero => simp at enough
          | succ fuel => simp [Parser.members, peek_blanks s close close rest blanks solid]
  | cons piece pieces ih =>
      have own := reaches piece List.mem_cons_self
      have later := fun other member => reaches other (List.mem_cons_of_mem piece member)
      cases fuel with
      | zero => simp at enough
      | succ fuel =>
          have left : pieces.length < fuel := by simpa using enough
          cases pieces with
          | nil =>
              cases listed with
              | one w _ w' before after =>
                  have turn := members_turn_blanks close item piece own fuel out w w' close rest ⟨before, after⟩
                    (Or.inr rfl) solid
                  rw [if_pos rfl] at turn
                  have closed := ih later [] (.none [] Json.blanks_nil) fuel left (piece.effect out)
                  simpa using turn.trans closed
          | cons next pieces =>
              cases listed with
              | more w _ w' _ _ s before after listed =>
                  have turn := members_turn_blanks close item piece own fuel out w w' (ch ',') (s ++ close :: rest)
                    ⟨before, after⟩ (Or.inl rfl) (by decide)
                  rw [if_neg distinct] at turn
                  have onward := ih later s listed fuel left (piece.effect out)
                  simpa [ch] using turn.trans onward

theorem enclosed_listed (opened : UInt8) (openSolid : isBlank opened = false) (solid : isBlank close = false)
    (distinct : ch ',' ≠ close) (pieces : List (Piece α)) (reaches : ∀ piece ∈ pieces, Reaches close item piece)
    (s : List UInt8) (listed : Json.Listed (pieces.map Piece.text) s) (out : α) (rest : List UInt8) :
    Parser.enclosed ⟨opened :: (s ++ close :: rest), true⟩ opened close item out =
      .ok (pieces.foldl (fun out piece => piece.effect out) out, ⟨rest, true⟩) := by
  have nonempty : ∀ t ∈ pieces.map Piece.text, t ≠ [] := by
    intro t member
    obtain ⟨piece, inside, same⟩ := List.mem_map.mp member
    obtain ⟨b, tail, shape, _⟩ := (reaches piece inside).starts
    rw [← same, shape]
    exact List.cons_ne_nil b tail
  have bound := Json.listed_length _ s listed nonempty
  rw [List.length_map] at bound
  rw [Parser.enclosed, eat_here opened _ true openSolid]
  simp only
  rw [members_listed close item solid distinct pieces reaches s listed _ (by simp only [List.length_append]; omega) out rest]
  simp only [eat_here close rest true solid]

end Enclosed

-- What may be written for a piece, and what reading it does.
structure Slot (α : Type) where
  texts : List UInt8 → Prop
  effect : α → α

def Fills {α : Type} (close : UInt8) (item : α → Parser → Except α (α × Parser)) (slot : Slot α) : Prop :=
  ∀ t, slot.texts t → Reaches close item ⟨t, slot.effect⟩

section Slots

variable {α : Type} (item : α → Parser → Except α (α × Parser))

theorem slots_filled (close : UInt8) (slots : List (Slot α)) (fills : ∀ slot ∈ slots, Fills close item slot)
    (texts : List (List UInt8)) (each : List.Forall₂ (fun p t => p t) (slots.map Slot.texts) texts) :
    ∃ pieces : List (Piece α), pieces.map Piece.text = texts ∧ pieces.map Piece.effect = slots.map Slot.effect ∧
      ∀ piece ∈ pieces, Reaches close item piece := by
  induction slots generalizing texts with
  | nil =>
      cases each with
      | nil => exact ⟨[], rfl, rfl, fun piece inside => absurd inside List.not_mem_nil⟩
  | cons slot slots ih =>
      cases each with
      | @cons _ t _ texts own others =>
          obtain ⟨pieces, written, done, reaches⟩ := ih (fun other member => fills other (List.mem_cons_of_mem slot member))
            texts others
          refine ⟨⟨t, slot.effect⟩ :: pieces, ?_, ?_, ?_⟩
          · rw [List.map_cons, written]
          · rw [List.map_cons, done, List.map_cons]
          · rw [List.forall_mem_cons]
            exact ⟨fills slot List.mem_cons_self t own, reaches⟩

theorem effects_fold (pieces : List (Piece α)) (slots : List (Slot α))
    (same : pieces.map Piece.effect = slots.map Slot.effect) (out : α) :
    pieces.foldl (fun out piece => piece.effect out) out = slots.foldl (fun out slot => slot.effect out) out := by
  have asPieces : (pieces.map Piece.effect).foldl (fun out e => e out) out =
      pieces.foldl (fun out piece => piece.effect out) out := List.foldl_map
  have asSlots : (slots.map Slot.effect).foldl (fun out e => e out) out =
      slots.foldl (fun out slot => slot.effect out) out := List.foldl_map
  rw [← asPieces, same, asSlots]

theorem array_read (slots : List (Slot α)) (fills : ∀ slot ∈ slots, Fills (ch ']') item slot) (s : List UInt8)
    (array : ArrayText (slots.map Slot.texts) s) (out : α) (rest : List UInt8) :
    Parser.enclosed ⟨s ++ rest, true⟩ (ch '[') (ch ']') item out =
      .ok (slots.foldl (fun out slot => slot.effect out) out, ⟨rest, true⟩) := by
  obtain ⟨texts, body, each, listed, shape⟩ := array
  obtain ⟨pieces, written, done, reaches⟩ := slots_filled item (ch ']') slots fills texts each
  have read := enclosed_listed (ch ']') item (ch '[') (by decide) (by decide) (by decide) pieces reaches body
    (written ▸ listed) out rest
  rw [effects_fold pieces slots done out] at read
  rw [shape]
  simpa using read

theorem pieces_arranged (pieces : List (Piece α)) (order : List (List UInt8))
    (perm : order.Perm (pieces.map Piece.text)) :
    ∃ moved : List (Piece α), order = moved.map Piece.text ∧ moved.Perm pieces := by
  have both : Relation.Comp (fun order pieces => order = pieces.map Piece.text) List.Perm order pieces := by
    rw [List.eq_map_comp_perm]
    exact perm
  exact both

def idlePieces (α : Type) (extras : List (List UInt8)) : List (Piece α) := extras.map (fun t => ⟨t, id⟩)

theorem idle_texts (extras : List (List UInt8)) : (idlePieces α extras).map Piece.text = extras := by
  rw [idlePieces, List.map_map]
  exact List.map_id extras

theorem idle_fold (extras : List (List UInt8)) (out : α) :
    (idlePieces α extras).foldl (fun out piece => piece.effect out) out = out := by
  calc (idlePieces α extras).foldl (fun out piece => piece.effect out) out
    _ = extras.foldl (fun out _ => out) out := List.foldl_map
    _ = out := List.foldl_fixed extras

-- Extra members do nothing, and what the others do does not depend on the order.
theorem arranged_fold (slots : List (Slot α)) (pieces moved : List (Piece α)) (extras : List (List UInt8))
    (same : pieces.map Piece.effect = slots.map Slot.effect) (perm : moved.Perm (pieces ++ idlePieces α extras))
    (commute : ∀ one ∈ slots, ∀ two ∈ slots, ∀ out, two.effect (one.effect out) = one.effect (two.effect out)) (out : α) :
    moved.foldl (fun out piece => piece.effect out) out = slots.foldl (fun out slot => slot.effect out) out := by
  have kinds : ∀ piece ∈ moved, piece.effect = id ∨ ∃ slot ∈ slots, slot.effect = piece.effect := by
    intro piece inside
    cases List.mem_append.mp (perm.subset inside) with
    | inl own =>
        have among : piece.effect ∈ slots.map Slot.effect := same ▸ List.mem_map_of_mem own
        exact Or.inr (List.mem_map.mp among)
    | inr new =>
        obtain ⟨t, _, made⟩ := List.mem_map.mp new
        exact Or.inl (by rw [← made])
  have swaps : ∀ one ∈ moved, ∀ two ∈ moved, ∀ out, two.effect (one.effect out) = one.effect (two.effect out) := by
    intro one oneInside two twoInside out
    rcases kinds one oneInside with idle | ⟨first, firstInside, firstIs⟩
    · rw [idle, id, id]
    · rcases kinds two twoInside with idle | ⟨second, secondInside, secondIs⟩
      · rw [idle, id, id]
      · rw [← firstIs, ← secondIs]
        exact commute first firstInside second secondInside out
  rw [perm.foldl_eq' swaps, List.foldl_append, idle_fold, effects_fold pieces slots same out]

theorem object_read (slots : List (Slot α)) (known : List String) (fills : ∀ slot ∈ slots, Fills (ch '}') item slot)
    (extra : Fills (ch '}') item ⟨ExtraMember known, id⟩)
    (commute : ∀ one ∈ slots, ∀ two ∈ slots, ∀ out, two.effect (one.effect out) = one.effect (two.effect out))
    (s : List UInt8) (object : ObjectText known (slots.map Slot.texts) s) (out : α) (rest : List UInt8) :
    Parser.enclosed ⟨s ++ rest, true⟩ (ch '{') (ch '}') item out =
      .ok (slots.foldl (fun out slot => slot.effect out) out, ⟨rest, true⟩) := by
  obtain ⟨texts, extras, order, body, each, extraTexts, arranged, listed, shape⟩ := object
  obtain ⟨pieces, written, done, reaches⟩ := slots_filled item (ch '}') slots fills texts each
  have all : (pieces ++ idlePieces α extras).map Piece.text = texts ++ extras := by
    rw [List.map_append, written, idle_texts]
  obtain ⟨moved, sameTexts, perm⟩ := pieces_arranged (pieces ++ idlePieces α extras) order (all ▸ arranged)
  have reachesAll : ∀ piece ∈ moved, Reaches (ch '}') item piece := by
    intro piece inside
    cases List.mem_append.mp (perm.subset inside) with
    | inl own => exact reaches piece own
    | inr new =>
        obtain ⟨t, among, made⟩ := List.mem_map.mp new
        rw [← made]
        exact extra t (extraTexts t among)
  have read := enclosed_listed (ch '}') item (ch '{') (by decide) (by decide) (by decide) moved reachesAll body
    (sameTexts ▸ listed) out rest
  rw [arranged_fold slots pieces moved extras done perm commute out] at read
  rw [shape]
  simpa using read

end Slots

-- ---- members with blanks ----

theorem member_text_starts (m : Json.Member) : ∃ b tail, m.text = b :: tail ∧ isBlank b = false ∧ b ≠ ch '}' :=
  ⟨kQuote, _, rfl, by decide, by decide⟩

theorem stop_ends (b : UInt8) (next : b = ch ',' ∨ b = ch '}') : endsValue b = true ∧ isNumeral b = false := by
  cases next with
  | inl comma => rw [comma]; decide
  | inr closing => rw [closing]; decide

theorem parse_u64_then (n : Nat) (w : List UInt8) (b : UInt8) (rest : List UInt8) (fits : n < 2 ^ 64)
    (blanks : Json.Blanks w) (stop : isNumeral b = false) :
    Parser.parseU64 ⟨decimal n ++ (w ++ b :: rest), true⟩ = (n, ⟨w ++ b :: rest, true⟩) := by
  cases w with
  | nil => exact parse_u64_here n b rest fits stop
  | cons c w =>
      have blank : Json.blank c = true := blanks c List.mem_cons_self
      have other : isNumeral c = false := by
        simp only [Json.blank, Bool.or_eq_true, decide_eq_true_eq] at blank
        rcases blank with ((same | same) | same) | same <;>
          · rw [same]
            decide
      exact parse_u64_here n c (w ++ b :: rest) fits other

section Keyed

variable {α : Type} (item : α → Parser → Except α (α × Parser)) (value : α → List UInt8 → Parser → Except α (α × Parser))
  (keyed : ∀ out p, item out p = p.keyed out (value out))
  (spaced : ∀ out k w rest, Json.Blanks w → value out k ⟨w ++ rest, true⟩ = value out k ⟨rest, true⟩)

include keyed spaced

theorem keyed_member (m : Json.Member) (plain : ∀ c ∈ m.key, c ≠ kQuote ∧ c ≠ kBackslash) (out : α) (rest : List UInt8) :
    item out ⟨m.text ++ rest, true⟩ = value out m.key ⟨m.value ++ rest, true⟩ := by
  have read := parse_string_here m.key m.key (m.before ++ ch ':' :: (m.after ++ (m.value ++ rest)))
    (string_body_key m.key _ plain)
  have shape : m.text ++ rest = kQuote :: (m.key ++ kQuote :: (m.before ++ ch ':' :: (m.after ++ (m.value ++ rest)))) := by
    simp [Json.Member.text, kQuote, ch]
  rw [keyed, Parser.keyed, shape, read]
  simp only [eat_blanks m.before _ (ch ':') m.blanks.1, eat_here (ch ':') _ true (by decide)]
  exact spaced out m.key m.after (m.value ++ rest) m.blanks.2

theorem member_fills (key : String) (texts : List UInt8 → Prop) (effect : α → α)
    (plain : ∀ c ∈ text key, c ≠ kQuote ∧ c ≠ kBackslash)
    (branch : ∀ out v w b rest, texts v → Json.Blanks w → b = ch ',' ∨ b = ch '}' → ∃ w', w' <:+ w ∧
      value out (text key) ⟨v ++ (w ++ b :: rest), true⟩ = .ok (effect out, ⟨w' ++ b :: rest, true⟩)) :
    Fills (ch '}') item ⟨MemberText key texts, effect⟩ := by
  intro t written
  obtain ⟨m, named, own, shape⟩ := written
  refine ⟨shape ▸ member_text_starts m, ?_⟩
  intro out w b rest blanks next
  have read := keyed_member item value keyed spaced m (named ▸ plain) out (w ++ b :: rest)
  rw [← shape, named] at read
  rw [read]
  exact branch out m.value w b rest own blanks next

theorem number_fills (key : String) (n : Nat) (store : Nat → α → α)
    (plain : ∀ c ∈ text key, c ≠ kQuote ∧ c ≠ kBackslash) (fits : n < 2 ^ 64)
    (branch : ∀ out p, value out (text key) p = .ok (store p.parseU64.1 out, p.parseU64.2)) :
    Fills (ch '}') item ⟨MemberText key (· = decimal n), store n⟩ := by
  apply member_fills item value keyed spaced key _ _ plain
  intro out v w b rest own blanks next
  refine ⟨w, List.suffix_refl w, ?_⟩
  rw [own, branch, parse_u64_then n w b rest fits blanks (stop_ends b next).2]

theorem string_fills (key : String) (s : List UInt8) (store : List UInt8 → α → α)
    (plain : ∀ c ∈ text key, c ≠ kQuote ∧ c ≠ kBackslash)
    (branch : ∀ out p, value out (text key) p = .ok (store p.parseString.1 out, p.parseString.2)) :
    Fills (ch '}') item ⟨MemberText key (· = quoted s), store s⟩ := by
  apply member_fills item value keyed spaced key _ _ plain
  intro out v w b rest own blanks _
  refine ⟨w, List.suffix_refl w, ?_⟩
  rw [own, branch, parse_string_quoted]

theorem array_fills (key : String) (element : α → Parser → Except α (α × Parser)) (slots : List (Slot α))
    (fills : ∀ slot ∈ slots, Fills (ch ']') element slot) (plain : ∀ c ∈ text key, c ≠ kQuote ∧ c ≠ kBackslash)
    (branch : ∀ out p, value out (text key) p = p.enclosed (ch '[') (ch ']') element out) :
    Fills (ch '}') item
      ⟨MemberText key (ArrayText (slots.map Slot.texts)), fun out => slots.foldl (fun out slot => slot.effect out) out⟩ := by
  apply member_fills item value keyed spaced key _ _ plain
  intro out v w b rest own blanks _
  refine ⟨w, List.suffix_refl w, ?_⟩
  rw [branch, array_read element slots fills v own]

theorem extra_fills (known : List String)
    (unknown : ∀ out k p, (∀ name ∈ known, k ≠ text name) → value out k p = .ok (out, p.skipValue)) :
    Fills (ch '}') item ⟨ExtraMember known, id⟩ := by
  intro t written
  obtain ⟨m, escapeFree, other, well, shape⟩ := written
  have plain : ∀ c ∈ m.key, c ≠ kQuote ∧ c ≠ kBackslash :=
    fun c inside => ⟨Json.chars_unquoted m.key m.chars escapeFree c inside, escapeFree c inside⟩
  refine ⟨shape ▸ member_text_starts m, ?_⟩
  intro out w b rest blanks next
  obtain ⟨left, within, skipped⟩ := skip_well_formed m.value w b rest well blanks (stop_ends b next).1
  have read := keyed_member item value keyed spaced m plain out (w ++ b :: rest)
  rw [← shape] at read
  refine ⟨left, within, ?_⟩
  rw [read, unknown out m.key _ other, skipped]
  rfl

end Keyed

end Color
