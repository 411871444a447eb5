import Color.History
import Color.Library.Numerals

set_option autoImplicit false

namespace Color

def ch (c : Char) : UInt8 := c.toNat.toUInt8

def text (s : String) : List UInt8 := s.toList.map ch

def kQuote : UInt8 := 34
def kBackslash : UInt8 := 92

-- ---- the recursive-descent parser of the failover formats ----

-- The cursor is what is left between p and end.
structure Parser where
  rest : List UInt8
  ok : Bool := true
deriving DecidableEq, Repr

def isBlank (b : UInt8) : Bool := b = ch ' ' || b = ch '\t' || b = ch '\n' || b = ch '\r'

def Parser.ws (p : Parser) : Parser := { p with rest := p.rest.dropWhile isBlank }

def Parser.eat (p : Parser) (c : UInt8) : Bool × Parser :=
  match p.ws.rest with
  | [] => (false, { p.ws with ok := false })
  | b :: rest => if b = c then (true, { p.ws with rest := rest }) else (false, { p.ws with ok := false })

def Parser.peek (p : Parser) (c : UInt8) : Bool × Parser := (p.ws.rest.head? = some c, p.ws)

-- The characters that \" \\ \/ \n \r \t \b \f and an unknown escape stand for.
def unescape (e : UInt8) : UInt8 :=
  if e = ch 'n' then 10 else if e = ch 'r' then 13 else if e = ch 't' then 9
  else if e = ch 'b' then 8 else if e = ch 'f' then 12 else e

-- A character that is no hex digit contributes nothing.
def hexDigit (h : UInt8) : Nat :=
  if ch '0' ≤ h && h ≤ ch '9' then h.toNat - 48
  else if ch 'a' ≤ h && h ≤ ch 'f' then h.toNat - 97 + 10
  else if ch 'A' ≤ h && h ≤ ch 'F' then h.toNat - 65 + 10 else 0

-- \u with four digits; only ASCII is kept.
def unicode (digits : List UInt8) : List UInt8 :=
  let v := digits.foldl (fun v h => 16 * v + hexDigit h) 0
  if v < 0x80 then [v.toUInt8] else []

-- The characters up to the closing quote or the end, and what is left from there on.
def stringBody : List UInt8 → List UInt8 × List UInt8
  | [] => ([], [])
  | c :: rest =>
      let after := stringBody rest
      if c = kQuote then ([], c :: rest)
      else if c = kBackslash then
        match rest with
        | [] => ([c], [])
        | e :: rest =>
            let after := stringBody rest
            if e = ch 'u' then
              match rest with
              | h₁ :: h₂ :: h₃ :: h₄ :: rest =>
                  let after := stringBody rest
                  (unicode [h₁, h₂, h₃, h₄] ++ after.1, after.2)
              | _ => after
            else (unescape e :: after.1, after.2)
      else (c :: after.1, after.2)

def Parser.parseString (p : Parser) : List UInt8 × Parser :=
  match p.eat kQuote with
  | (false, p) => ([], p)
  | (true, p) =>
      match stringBody p.rest with
      | (s, []) => (s, { rest := [], ok := false })
      | (s, b :: rest) => if b = kQuote then (s, { p with rest := rest }) else (s, { rest := b :: rest, ok := false })

def isNumeral (b : UInt8) : Bool := Numerals.isdigit b || b = ch '-'

def Parser.parseU64 (p : Parser) : Nat × Parser :=
  (Numerals.strtoull (p.ws.rest.takeWhile isNumeral), { p.ws with rest := p.ws.rest.dropWhile isNumeral })

-- The loop of skip_value inside brackets. Every turn takes a byte, so the bytes
-- left bound the turns. The depth is an int in the source, which holds that of
-- any text shorter than 2^31 bytes.
def Parser.skipNested (opened close : UInt8) : Nat → Nat → Parser → Parser
  | 0, _, p => p
  | _, 0, p => p
  | fuel + 1, depth + 1, p =>
      match p.rest with
      | [] => p
      | b :: rest =>
          if b = kQuote then Parser.skipNested opened close fuel (depth + 1) p.parseString.2
          else
            let next := if b = opened then depth + 2 else if b = close then depth else depth + 1
            Parser.skipNested opened close fuel next { p with rest := rest }

def endsValue (b : UInt8) : Bool := b = ch ',' || b = ch '}' || b = ch ']'

def Parser.skipValue (p : Parser) : Parser :=
  match p.ws.rest with
  | [] => { p.ws with ok := false }
  | b :: rest =>
      if b = kQuote then p.ws.parseString.2
      else if b = ch '{' then Parser.skipNested b (ch '}') rest.length 1 { p.ws with rest := rest }
      else if b = ch '[' then Parser.skipNested b (ch ']') rest.length 1 { p.ws with rest := rest }
      else { p.ws with rest := p.ws.rest.dropWhile (fun b => !endsValue b) }

-- while (!p.peek(close) && p.ok) { item; if (!p.peek(close)) p.eat(','); }. An
-- item that returns false hands back what was read so far. A turn takes a byte
-- or fails, so the bytes left, and two more, bound the turns.
def Parser.members {α : Type} (close : UInt8) (item : α → Parser → Except α (α × Parser)) :
    Nat → α → Parser → Except α (α × Parser)
  | 0, out, _ => .error out
  | fuel + 1, out, p =>
      let (here, p) := p.peek close
      if here || !p.ok then .ok (out, p)
      else
        match item out p with
        | .error out => .error out
        | .ok (out, p) =>
            let (here, p) := p.peek close
            Parser.members close item fuel out (if here then p else (p.eat (ch ',')).2)

-- An object or an array: the opening bracket, its members, the closing one.
def Parser.enclosed {α : Type} (p : Parser) (opened close : UInt8) (item : α → Parser → Except α (α × Parser))
    (out : α) : Except α (α × Parser) :=
  match p.eat opened with
  | (false, _) => .error out
  | (true, p) =>
      match Parser.members close item (p.rest.length + 2) out p with
      | .error out => .error out
      | .ok (out, p) => .ok (out, (p.eat close).2)

-- ---- what one call reads of a text that starts as expected ----

theorem ws_solid (b : UInt8) (rest : List UInt8) (ok : Bool) (solid : isBlank b = false) :
    Parser.ws ⟨b :: rest, ok⟩ = ⟨b :: rest, ok⟩ := by
  simp [Parser.ws, solid]

theorem eat_here (c : UInt8) (rest : List UInt8) (ok : Bool) (solid : isBlank c = false) :
    Parser.eat ⟨c :: rest, ok⟩ c = (true, ⟨rest, ok⟩) := by
  simp [Parser.eat, ws_solid c rest ok solid]

theorem peek_here (b c : UInt8) (rest : List UInt8) (ok : Bool) (solid : isBlank b = false) :
    Parser.peek ⟨b :: rest, ok⟩ c = (decide (b = c), ⟨b :: rest, ok⟩) := by
  simp [Parser.peek, ws_solid b rest ok solid]

theorem string_body_quote (rest : List UInt8) : stringBody (kQuote :: rest) = ([], kQuote :: rest) := by
  unfold stringBody
  rw [if_pos rfl]

theorem string_body_plain (c : UInt8) (rest : List UInt8) (unquoted : c ≠ kQuote) (unescaped : c ≠ kBackslash) :
    stringBody (c :: rest) = (c :: (stringBody rest).1, (stringBody rest).2) := by
  rw [stringBody.eq_def]
  simp only [unquoted, unescaped, if_false]

theorem string_body_escape (e : UInt8) (rest : List UInt8) (plain : e ≠ ch 'u') :
    stringBody (kBackslash :: e :: rest) = (unescape e :: (stringBody rest).1, (stringBody rest).2) := by
  have other : kBackslash ≠ kQuote := by decide
  rw [stringBody, if_neg other, if_pos rfl]
  simp only [plain, if_false]

theorem string_body_unicode (h₁ h₂ h₃ h₄ : UInt8) (rest : List UInt8) :
    stringBody (kBackslash :: ch 'u' :: h₁ :: h₂ :: h₃ :: h₄ :: rest) =
      (unicode [h₁, h₂, h₃, h₄] ++ (stringBody rest).1, (stringBody rest).2) := by
  have other : kBackslash ≠ kQuote := by decide
  rw [stringBody, if_neg other, if_pos rfl]
  simp only [if_true]

theorem string_body_short (rest : List UInt8) (few : rest.length < 4) :
    stringBody (kBackslash :: ch 'u' :: rest) = stringBody rest := by
  have other : kBackslash ≠ kQuote := by decide
  rw [stringBody, if_neg other, if_pos rfl]
  simp only [if_true]
  rcases rest with _ | ⟨_, _ | ⟨_, _ | ⟨_, _ | ⟨_, rest⟩⟩⟩⟩
  · rfl
  · rfl
  · rfl
  · rfl
  · simp only [List.length_cons] at few
    omega

theorem string_body_last : stringBody [kBackslash] = ([kBackslash], []) := by decide

theorem parse_string_here (body s rest : List UInt8) (read : stringBody (body ++ kQuote :: rest) = (s, kQuote :: rest)) :
    Parser.parseString ⟨kQuote :: (body ++ kQuote :: rest), true⟩ = (s, ⟨rest, true⟩) := by
  simp [Parser.parseString, eat_here kQuote (body ++ kQuote :: rest) true (by decide), read]

theorem numeral_solid (b : UInt8) (digit : Numerals.isdigit b = true) : isBlank b = false ∧ isNumeral b = true := by
  have bounds := (Numerals.isdigit_iff b).mp digit
  constructor
  · simp [isBlank, ch, ← UInt8.toNat_inj]
    omega
  · simp [isNumeral, digit]

theorem decimal_cons (n : Nat) : ∃ b tail, decimal n = b :: tail ∧ Numerals.isdigit b = true := by
  have digits : ∀ b ∈ decimal n, Numerals.isdigit b = true := Numerals.written_digits n
  cases shape : decimal n with
  | nil => exact absurd shape (Numerals.written_ne_nil n)
  | cons b tail => exact ⟨b, tail, rfl, digits b (shape ▸ List.mem_cons_self)⟩

theorem parse_u64_here (n : Nat) (b : UInt8) (rest : List UInt8) (fits : n < 2 ^ 64) (stop : isNumeral b = false) :
    Parser.parseU64 ⟨decimal n ++ b :: rest, true⟩ = (n, ⟨b :: rest, true⟩) := by
  have numeral : ∀ c ∈ decimal n, isNumeral c = true :=
    fun c member => (numeral_solid c (Numerals.written_digits n c member)).2
  have solid : Parser.ws ⟨decimal n ++ b :: rest, true⟩ = ⟨decimal n ++ b :: rest, true⟩ := by
    obtain ⟨c, tail, shape, digit⟩ := decimal_cons n
    rw [shape]
    exact ws_solid c (tail ++ b :: rest) true (numeral_solid c digit).1
  have taken : (decimal n ++ b :: rest).takeWhile isNumeral = decimal n := by
    simp [List.takeWhile_append_of_pos numeral, stop]
  have left : (decimal n ++ b :: rest).dropWhile isNumeral = b :: rest := by
    simp [List.dropWhile_append_of_pos numeral, stop]
  have value := Numerals.strtoull_written n [] fits (by simp)
  rw [List.append_nil] at value
  rw [Parser.parseU64, solid, taken, left]
  exact congrArg (·, _) value

theorem skip_scalar (c : UInt8) (value rest : List UInt8) (b : UInt8)
    (starts : isBlank c = false ∧ c ≠ kQuote ∧ c ≠ ch '{' ∧ c ≠ ch '[')
    (inside : ∀ d ∈ c :: value, endsValue d = false) (ends : endsValue b = true) :
    Parser.skipValue ⟨c :: value ++ b :: rest, true⟩ = ⟨b :: rest, true⟩ := by
  have scanned : (c :: value ++ b :: rest).dropWhile (fun d => !endsValue d) = b :: rest := by
    rw [List.dropWhile_append_of_pos (fun d member => by simp [inside d member])]
    simp [ends]
  rw [List.cons_append] at scanned ⊢
  rw [Parser.skipValue, ws_solid c (value ++ b :: rest) true starts.1]
  simp only [starts.2.1, starts.2.2.1, starts.2.2.2, if_false, scanned]

end Color
