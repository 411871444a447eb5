import Color.Parser
import Color.Library.Json

set_option autoImplicit false

namespace Color

-- ---- blanks and strings of well-formed texts ----

theorem ws_blanks (w rest : List UInt8) (ok : Bool) (blanks : Json.Blanks w) :
    Parser.ws ⟨w ++ rest, ok⟩ = Parser.ws ⟨rest, ok⟩ := by
  have left : (w ++ rest).dropWhile isBlank = rest.dropWhile isBlank := Json.blanks_skip w rest blanks
  rw [Parser.ws, Parser.ws, left]

theorem string_body_chars (s rest : List UInt8) (chars : Json.Chars s) :
    (stringBody (s ++ kQuote :: rest)).2 = kQuote :: rest := by
  induction chars with
  | nil => rw [List.nil_append, string_body_quote]
  | plain c s _ unquoted unescaped _ ih => rw [List.cons_append, string_body_plain c _ unquoted unescaped, ih]
  | escape e s known _ ih =>
      have single : e ≠ ch 'u' := by
        intro same
        rw [same] at known
        revert known
        decide
      rw [List.cons_append, List.cons_append]
      have read := string_body_escape e (s ++ kQuote :: rest) single
      rw [kBackslash] at read
      rw [read, ih]
  | unicode h₁ h₂ h₃ h₄ s _ _ ih =>
      have read := string_body_unicode h₁ h₂ h₃ h₄ (s ++ kQuote :: rest)
      simp only [List.cons_append]
      rw [kBackslash] at read
      exact (congrArg Prod.snd read).trans ih

theorem parse_string_chars (s rest : List UInt8) (chars : Json.Chars s) :
    (Parser.parseString ⟨kQuote :: (s ++ kQuote :: rest), true⟩).2 = ⟨rest, true⟩ := by
  have left := string_body_chars s rest chars
  have read : stringBody (s ++ kQuote :: rest) = ((stringBody (s ++ kQuote :: rest)).1, kQuote :: rest) :=
    Prod.ext rfl left
  rw [parse_string_here s _ rest read]

-- ---- what the bracket counter passes over ----

-- Within its brackets the counter gets past the text and is as deep as before,
-- at a cost of at most one turn a byte.
def Crossed (opened close : UInt8) (t : List UInt8) : Prop :=
  ∀ fuel depth rest, t.length ≤ fuel → ∃ left, fuel ≤ left + t.length ∧
    Parser.skipNested opened close fuel (depth + 1) ⟨t ++ rest, true⟩ =
      Parser.skipNested opened close left (depth + 1) ⟨rest, true⟩

section Crossed

variable (opened close : UInt8)

theorem crossed_nil : Crossed opened close [] := by
  intro fuel depth rest _
  exact ⟨fuel, Nat.le_refl fuel, rfl⟩

theorem crossed_append (one two : List UInt8) (first : Crossed opened close one) (second : Crossed opened close two) :
    Crossed opened close (one ++ two) := by
  intro fuel depth rest enough
  rw [List.length_append] at enough ⊢
  obtain ⟨middle, cost, read⟩ := first fuel depth (two ++ rest) (by omega)
  obtain ⟨left, later, onward⟩ := second middle depth rest (by omega)
  refine ⟨left, by omega, ?_⟩
  rw [List.append_assoc, read, onward]

theorem crossed_byte (b : UInt8) (unquoted : b ≠ kQuote) (inner : b ≠ opened ∧ b ≠ close) : Crossed opened close [b] := by
  intro fuel depth rest enough
  cases fuel with
  | zero => exact absurd enough (by simp)
  | succ fuel =>
      refine ⟨fuel, Nat.le_refl _, ?_⟩
      rw [List.singleton_append, Parser.skipNested]
      simp only [unquoted, inner.1, inner.2, if_false]

theorem crossed_string (s : List UInt8) (chars : Json.Chars s) : Crossed opened close (kQuote :: (s ++ [kQuote])) := by
  intro fuel depth rest enough
  cases fuel with
  | zero => exact absurd enough (by simp)
  | succ fuel =>
      refine ⟨fuel, by simp only [List.length_cons]; omega, ?_⟩
      have shape : kQuote :: (s ++ [kQuote]) ++ rest = kQuote :: (s ++ kQuote :: rest) := by simp
      rw [shape, Parser.skipNested]
      simp only [if_true]
      rw [parse_string_chars s rest chars]

theorem crossed_enclosed (s : List UInt8) (inner : Crossed opened close s) (distinct : opened ≠ close)
    (unquoted : opened ≠ kQuote ∧ close ≠ kQuote) : Crossed opened close (opened :: (s ++ [close])) := by
  intro fuel depth rest enough
  simp only [List.length_cons, List.length_append, List.length_nil] at enough ⊢
  cases fuel with
  | zero => exact absurd enough (by omega)
  | succ fuel =>
      obtain ⟨middle, cost, read⟩ := inner fuel (depth + 1) (close :: rest) (by omega)
      cases middle with
      | zero => exact absurd cost (by omega)
      | succ left =>
          refine ⟨left, by omega, ?_⟩
          have shape : opened :: (s ++ [close]) ++ rest = opened :: (s ++ close :: rest) := by simp
          rw [shape, Parser.skipNested]
          simp only [unquoted.1, if_false, if_true]
          rw [read, Parser.skipNested]
          simp only [unquoted.2, distinct.symm, if_false, if_true]

end Crossed

-- ---- the counter over a well-formed value ----

-- One of the two kinds of brackets the counter is started for.
def Brackets (opened close : UInt8) : Prop := opened = ch '{' ∧ close = ch '}' ∨ opened = ch '[' ∧ close = ch ']'

def between (b : UInt8) : Bool := Json.scalar b || Json.blank b || b = ch ',' || b = ch ':'

theorem between_byte (b : UInt8) (passes : between b = true) :
    b ≠ kQuote ∧ b ≠ ch '{' ∧ b ≠ ch '}' ∧ b ≠ ch '[' ∧ b ≠ ch ']' := by
  refine ⟨?_, ?_, ?_, ?_, ?_⟩ <;>
    · intro same
      rw [same] at passes
      revert passes
      decide

section Values

variable (opened close : UInt8) (pair : Brackets opened close)

include pair

theorem crossed_between (t : List UInt8) (passes : ∀ b ∈ t, between b = true) : Crossed opened close t := by
  induction t with
  | nil => exact crossed_nil opened close
  | cons b t ih =>
      obtain ⟨unquoted, noBrace, noBraceEnd, noBracket, noBracketEnd⟩ := between_byte b (passes b List.mem_cons_self)
      have inner : b ≠ opened ∧ b ≠ close := by
        rcases pair with ⟨isOpen, isClose⟩ | ⟨isOpen, isClose⟩
        · rw [isOpen, isClose]
          exact ⟨noBrace, noBraceEnd⟩
        · rw [isOpen, isClose]
          exact ⟨noBracket, noBracketEnd⟩
      exact crossed_append opened close [b] t (crossed_byte opened close b unquoted inner)
        (ih (fun c inside => passes c (List.mem_cons_of_mem b inside)))

theorem crossed_blanks (w : List UInt8) (blanks : Json.Blanks w) : Crossed opened close w := by
  apply crossed_between opened close pair
  intro b inside
  simp [between, blanks b inside]

theorem crossed_scalar (t : List UInt8) (scalar : ∀ b ∈ t, Json.scalar b = true) : Crossed opened close t := by
  apply crossed_between opened close pair
  intro b inside
  simp [between, scalar b inside]

theorem crossed_listed (texts : List (List UInt8)) (s : List UInt8) (each : ∀ t ∈ texts, Crossed opened close t)
    (listed : Json.Listed texts s) : Crossed opened close s := by
  have spaced (w t w' : List UInt8) (before : Json.Blanks w) (after : Json.Blanks w') (own : Crossed opened close t) :
      Crossed opened close (w ++ t ++ w') :=
    crossed_append opened close _ _ (crossed_append opened close _ _ (crossed_blanks opened close pair w before) own)
      (crossed_blanks opened close pair w' after)
  induction listed with
  | none w blanks => exact crossed_blanks opened close pair w blanks
  | one w t w' before after => exact spaced w t w' before after (each t List.mem_cons_self)
  | more w t w' next texts s before after _ ih =>
      have later := ih (fun u inside => each u (List.mem_cons_of_mem t inside))
      have comma : Crossed opened close (ch ',' :: s) :=
        crossed_append opened close [ch ','] s (crossed_between opened close pair _ (List.forall_mem_singleton.mpr (by decide))) later
      exact crossed_append opened close _ _ (spaced w t w' before after (each t List.mem_cons_self)) comma

theorem crossed_member (m : Json.Member) (value : Crossed opened close m.value) : Crossed opened close m.text := by
  have key := crossed_string opened close m.key m.chars
  have before := crossed_blanks opened close pair m.before m.blanks.1
  have after := crossed_blanks opened close pair m.after m.blanks.2
  have colon := crossed_between opened close pair [ch ':'] (List.forall_mem_singleton.mpr (by decide))
  have whole := crossed_append opened close _ _ key (crossed_append opened close _ _ before
    (crossed_append opened close _ _ colon (crossed_append opened close _ _ after value)))
  have shape : m.text = kQuote :: (m.key ++ [kQuote]) ++ (m.before ++ ([ch ':'] ++ (m.after ++ m.value))) := by
    simp [Json.Member.text, kQuote, ch]
  rw [shape]
  exact whole

theorem crossed_members (members : List Json.Member) (s : List UInt8)
    (each : ∀ m ∈ members, Crossed opened close m.value) (listed : Json.Listed (members.map Json.Member.text) s) :
    Crossed opened close s := by
  apply crossed_listed opened close pair _ s _ listed
  intro t inside
  obtain ⟨m, own, same⟩ := List.mem_map.mp inside
  rw [← same]
  exact crossed_member opened close pair m (each m own)

-- Brackets of the other kind are bytes like any other.
theorem crossed_brackets (b e : UInt8) (kind : Brackets b e) (s : List UInt8) (inner : Crossed opened close s) :
    Crossed opened close (b :: (s ++ [e])) := by
  have asBytes (other : b ≠ opened ∧ b ≠ close) (otherEnd : e ≠ opened ∧ e ≠ close)
      (unquoted : b ≠ kQuote ∧ e ≠ kQuote) : Crossed opened close (b :: (s ++ [e])) :=
    crossed_append opened close [b] _ (crossed_byte opened close b unquoted.1 other)
      (crossed_append opened close s [e] inner (crossed_byte opened close e unquoted.2 otherEnd))
  rcases pair with ⟨isOpen, isClose⟩ | ⟨isOpen, isClose⟩ <;> rcases kind with ⟨starts, ends⟩ | ⟨starts, ends⟩ <;>
    subst isOpen isClose starts ends
  · exact crossed_enclosed (ch '{') (ch '}') s inner (by decide) (by decide)
  · exact asBytes (by decide) (by decide) (by decide)
  · exact asBytes (by decide) (by decide) (by decide)
  · exact crossed_enclosed (ch '[') (ch ']') s inner (by decide) (by decide)

theorem value_crossed (v : List UInt8) (value : Json.Value v) : Crossed opened close v := by
  induction value with
  | string s chars => exact crossed_string opened close s chars
  | number t number => exact crossed_scalar opened close pair t (Json.number_scalar t number)
  | literal t listed =>
      exact crossed_scalar opened close pair t (List.all_eq_true.mp (Json.literal_scalar t listed).2)
  | array values s _ listed ih =>
      apply crossed_brackets opened close pair (ch '[') (ch ']') (Or.inr ⟨rfl, rfl⟩)
      exact crossed_listed opened close pair values s ih listed
  | object members s _ listed ih =>
      apply crossed_brackets opened close pair (ch '{') (ch '}') (Or.inl ⟨rfl, rfl⟩)
      exact crossed_members opened close pair members s ih listed

end Values

-- ---- skip_value on a well-formed value ----

theorem skip_brackets (opened close : UInt8) (pair : Brackets opened close) (s rest : List UInt8)
    (inner : Crossed opened close s) : Parser.skipValue ⟨opened :: (s ++ close :: rest), true⟩ = ⟨rest, true⟩ := by
  have counted : Parser.skipNested opened close (s ++ close :: rest).length 1 ⟨s ++ close :: rest, true⟩ = ⟨rest, true⟩ := by
    have size : (s ++ close :: rest).length = s.length + rest.length + 1 := by
      simp only [List.length_append, List.length_cons]
      omega
    obtain ⟨left, cost, read⟩ := inner (s ++ close :: rest).length 0 (close :: rest) (by omega)
    cases left with
    | zero => exact absurd cost (by omega)
    | succ left =>
        have distinct : close ≠ kQuote ∧ close ≠ opened := by
          rcases pair with ⟨isOpen, isClose⟩ | ⟨isOpen, isClose⟩ <;>
            · rw [isOpen, isClose]
              decide
        rw [read, Parser.skipNested]
        simp only [distinct.1, distinct.2, if_false, if_true]
        cases left <;> rfl
  rcases pair with ⟨isOpen, isClose⟩ | ⟨isOpen, isClose⟩
  · subst isOpen isClose
    have other : ch '{' ≠ kQuote := by decide
    rw [Parser.skipValue, ws_solid _ _ true (by decide)]
    simp only [other, if_false, if_true]
    exact counted
  · subst isOpen isClose
    have other : ch '[' ≠ kQuote ∧ ch '[' ≠ ch '{' := by decide
    rw [Parser.skipValue, ws_solid _ _ true (by decide)]
    simp only [other.1, other.2, if_false, if_true]
    exact counted

theorem scalar_byte (b : UInt8) (scalar : Json.scalar b = true) : isBlank b = false ∧ endsValue b = false := by
  constructor
  · cases spaced : isBlank b with
    | false => rfl
    | true =>
        simp only [isBlank, Bool.or_eq_true, decide_eq_true_eq] at spaced
        rcases spaced with ((same | same) | same) | same <;>
          · rw [same] at scalar
            revert scalar
            decide
  · cases ends : endsValue b with
    | false => rfl
    | true =>
        simp only [endsValue, Bool.or_eq_true, decide_eq_true_eq] at ends
        rcases ends with (same | same) | same <;>
          · rw [same] at scalar
            revert scalar
            decide

theorem blank_byte (b : UInt8) (spaced : Json.blank b = true) : endsValue b = false := by
  simp only [Json.blank, Bool.or_eq_true, decide_eq_true_eq] at spaced
  rcases spaced with ((same | same) | same) | same <;>
    · rw [same]
      decide

theorem skip_scalar_run (t w : List UInt8) (b : UInt8) (rest : List UInt8) (nonempty : t ≠ [])
    (scalar : ∀ c ∈ t, Json.scalar c = true) (blanks : Json.Blanks w) (ends : endsValue b = true) :
    Parser.skipValue ⟨t ++ (w ++ b :: rest), true⟩ = ⟨b :: rest, true⟩ := by
  cases t with
  | nil => exact absurd rfl nonempty
  | cons c t =>
      have first := scalar c List.mem_cons_self
      have passes : between c = true := by simp [between, first]
      obtain ⟨unquoted, noBrace, _, noBracket, _⟩ := between_byte c passes
      have inside : ∀ d ∈ c :: (t ++ w), endsValue d = false := by
        intro d listed
        rw [← List.cons_append] at listed
        cases List.mem_append.mp listed with
        | inl own => exact (scalar_byte d (scalar d own)).2
        | inr spaced => exact blank_byte d (blanks d spaced)
      have skipped := skip_scalar c (t ++ w) rest b ⟨(scalar_byte c first).1, unquoted, noBrace, noBracket⟩ inside ends
      simpa using skipped

-- What skip_value leaves of the blanks before the next comma or bracket.
theorem skip_well_formed (v w : List UInt8) (b : UInt8) (rest : List UInt8) (value : Json.Value v)
    (blanks : Json.Blanks w) (ends : endsValue b = true) :
    ∃ w', w' <:+ w ∧ Parser.skipValue ⟨v ++ (w ++ b :: rest), true⟩ = ⟨w' ++ b :: rest, true⟩ := by
  cases value with
  | string s chars =>
      refine ⟨w, List.suffix_refl w, ?_⟩
      have read := parse_string_chars s (w ++ b :: rest) chars
      have shape : 34 :: (s ++ [34]) ++ (w ++ b :: rest) = kQuote :: (s ++ kQuote :: (w ++ b :: rest)) := by simp [kQuote]
      rw [shape, Parser.skipValue, ws_solid kQuote _ true (by decide)]
      simp only [if_true]
      exact read
  | number _ number =>
      exact ⟨[], List.nil_suffix, skip_scalar_run v w b rest (Json.number_nonempty v number) (Json.number_scalar v number)
        blanks ends⟩
  | literal _ listed =>
      have literal := Json.literal_scalar v listed
      exact ⟨[], List.nil_suffix, skip_scalar_run v w b rest literal.1 (List.all_eq_true.mp literal.2) blanks ends⟩
  | array values s each listed =>
      refine ⟨w, List.suffix_refl w, ?_⟩
      have kind : Brackets (ch '[') (ch ']') := Or.inr ⟨rfl, rfl⟩
      have inner := crossed_listed _ _ kind values s (fun u own => value_crossed _ _ kind u (each u own)) listed
      have skipped := skip_brackets (ch '[') (ch ']') kind s (w ++ b :: rest) inner
      simpa [ch] using skipped
  | object members s each listed =>
      refine ⟨w, List.suffix_refl w, ?_⟩
      have kind : Brackets (ch '{') (ch '}') := Or.inl ⟨rfl, rfl⟩
      have inner := crossed_members _ _ kind members s (fun m own => value_crossed _ _ kind m.value (each m own)) listed
      have skipped := skip_brackets (ch '{') (ch '}') kind s (w ++ b :: rest) inner
      simpa [ch] using skipped

end Color
