import Color.JsonTruncation
import Color.SkipValue

set_option autoImplicit false

namespace Color

-- ---- what the decoders take for JSON ----

-- The characters of a string and what they are read as. Any byte may be
-- escaped, and any four bytes after \u are its digits; only where the input
-- ends can there be fewer.
inductive LooseString : List UInt8 → List UInt8 → Prop where
  | nil : LooseString [] []
  | plain (c : UInt8) (body s : List UInt8) (unquoted : c ≠ kQuote) (unescaped : c ≠ kBackslash)
      (tail : LooseString body s) : LooseString (c :: body) (c :: s)
  | escape (e : UInt8) (body s : List UInt8) (single : e ≠ ch 'u') (tail : LooseString body s) :
      LooseString (kBackslash :: e :: body) (unescape e :: s)
  | unicode (h₁ h₂ h₃ h₄ : UInt8) (body s : List UInt8) (tail : LooseString body s) :
      LooseString (kBackslash :: ch 'u' :: h₁ :: h₂ :: h₃ :: h₄ :: body) (unicode [h₁, h₂, h₃, h₄] ++ s)
  | short (body s : List UInt8) (few : body.length < 3) (tail : LooseString body s) :
      LooseString (kBackslash :: ch 'u' :: body) s

def LooseQuoted (t s : List UInt8) : Prop := ∃ body, t = kQuote :: (body ++ [kQuote]) ∧ LooseString body s

-- Digits and minus signs, perhaps none. What is stored is said for decimal
-- numbers of 64 bits only.
def LooseNumber (t : List UInt8) (n : Nat) : Prop :=
  (∀ c ∈ t, isNumeral c = true) ∧ (Json.Digits t → Numerals.value t < 2 ^ 64 → n = Numerals.value t)

-- From so many brackets deep to the last of them, strings aside.
inductive LooseNest (opened close : UInt8) : Nat → List UInt8 → Prop where
  | done : LooseNest opened close 0 []
  | string (depth : Nat) (body s t : List UInt8) (chars : LooseString body s) (rest : LooseNest opened close (depth + 1) t) :
      LooseNest opened close (depth + 1) (kQuote :: (body ++ kQuote :: t))
  | deeper (depth : Nat) (t : List UInt8) (rest : LooseNest opened close (depth + 2) t) :
      LooseNest opened close (depth + 1) (opened :: t)
  | closed (depth : Nat) (t : List UInt8) (rest : LooseNest opened close depth t) :
      LooseNest opened close (depth + 1) (close :: t)
  | other (depth : Nat) (b : UInt8) (t : List UInt8) (plain : b ≠ kQuote ∧ b ≠ opened ∧ b ≠ close)
      (rest : LooseNest opened close (depth + 1) t) : LooseNest opened close (depth + 1) (b :: t)

-- A value under a key that is not known.
inductive LooseSkipped : List UInt8 → Prop where
  | string (t s : List UInt8) (chars : LooseQuoted t s) : LooseSkipped t
  | object (t : List UInt8) (nest : LooseNest (ch '{') (ch '}') 1 t) : LooseSkipped (ch '{' :: t)
  | array (t : List UInt8) (nest : LooseNest (ch '[') (ch ']') 1 t) : LooseSkipped (ch '[' :: t)
  | run (t : List UInt8) (starts : ∀ b, t.head? = some b → b ≠ kQuote ∧ b ≠ ch '{' ∧ b ≠ ch '[')
      (inside : ∀ c ∈ t, endsValue c = false) : LooseSkipped t

-- Items with commas between them, and perhaps one comma more.
inductive LooseSeries {α : Type} (item : List UInt8 → α → α → Prop) : List UInt8 → α → α → Prop where
  | none (w : List UInt8) (out : α) (blanks : Json.Blanks w) : LooseSeries item w out out
  | last (w t w' : List UInt8) (out out' : α) (before : Json.Blanks w) (after : Json.Blanks w') (own : item t out out') :
      LooseSeries item (w ++ t ++ w') out out'
  | more (w t w' s : List UInt8) (out mid out' : α) (before : Json.Blanks w) (after : Json.Blanks w')
      (own : item t out mid) (rest : LooseSeries item s mid out') : LooseSeries item (w ++ t ++ w' ++ ch ',' :: s) out out'

def LooseEnclosed {α : Type} (opened close : UInt8) (item : List UInt8 → α → α → Prop) (t : List UInt8) (out out' : α) :
    Prop :=
  ∃ body, t = opened :: (body ++ [close]) ∧ LooseSeries item body out out'

def LooseMember {α : Type} (value : List UInt8 → List UInt8 → α → α → Prop) (t : List UInt8) (out out' : α) : Prop :=
  ∃ name key before after v, LooseQuoted name key ∧ Json.Blanks before ∧ Json.Blanks after ∧
    t = name ++ before ++ ch ':' :: (after ++ v) ∧ value key v out out'

def BufferedResponse.Loose (key t : List UInt8) (b b' : BufferedResponse) : Prop :=
  if key = text "seq" then ∃ n, LooseNumber t n ∧ b' = { b with seq := n }
  else if key = text "payload" then ∃ s, LooseQuoted t s ∧ b' = { b with payload := s }
  else if key = text "hash" then ∃ n, LooseNumber t n ∧ b' = { b with hash := n.toUInt64 }
  else LooseSkipped t ∧ b' = b

def Checkpoint.LooseElement (t : List UInt8) (cp cp' : Checkpoint) : Prop :=
  ∃ b, LooseEnclosed (ch '{') (ch '}') (LooseMember BufferedResponse.Loose) t ⟨0, [], 0⟩ b ∧
    cp' = { cp with buffer := cp.buffer ++ [b] }

def Checkpoint.Loose (key t : List UInt8) (cp cp' : Checkpoint) : Prop :=
  if key = text "committed_upto" then ∃ n, LooseNumber t n ∧ cp' = { cp with committedUpto := n }
  else if key = text "event_count" then ∃ n, LooseNumber t n ∧ cp' = { cp with eventCount := n }
  else if key = text "history_hash" then ∃ n, LooseNumber t n ∧ cp' = { cp with historyHash := n.toUInt64 }
  else if key = text "buffer" then LooseEnclosed (ch '[') (ch ']') Checkpoint.LooseElement t cp cp'
  else LooseSkipped t ∧ cp' = cp

def ReplayEvent.Loose (key t : List UInt8) (e e' : ReplayEvent) : Prop :=
  if key = text "t" then ∃ s, LooseQuoted t s ∧ e' = { e with isResponse := s = text "r" }
  else if key = text "seq" then ∃ n, LooseNumber t n ∧ e' = { e with seq := n }
  else if key = text "payload" then ∃ s, LooseQuoted t s ∧ e' = { e with payload := s }
  else if key = text "hash" then ∃ n, LooseNumber t n ∧ e' = { e with hash := n.toUInt64 }
  else LooseSkipped t ∧ e' = e

def Replay.LooseElement (t : List UInt8) (rp rp' : Replay) : Prop :=
  ∃ e, LooseEnclosed (ch '{') (ch '}') (LooseMember ReplayEvent.Loose) t ⟨false, 0, [], 0⟩ e ∧
    rp' = { rp with events := rp.events ++ [e] }

def Replay.Loose (key t : List UInt8) (rp rp' : Replay) : Prop :=
  if key = text "from" then ∃ n, LooseNumber t n ∧ rp' = { rp with fromIndex := n }
  else if key = text "events" then LooseEnclosed (ch '[') (ch ']') Replay.LooseElement t rp rp'
  else LooseSkipped t ∧ rp' = rp

-- ---- strings ----

theorem four_bytes (rest : List UInt8) (enough : ¬ rest.length < 4) :
    ∃ h₁ h₂ h₃ h₄ left, rest = h₁ :: h₂ :: h₃ :: h₄ :: left := by
  rcases rest with _ | ⟨h₁, _ | ⟨h₂, _ | ⟨h₃, _ | ⟨h₄, left⟩⟩⟩⟩
  · exact absurd (by decide) enough
  · exact absurd (by simp) enough
  · exact absurd (by simp) enough
  · exact absurd (by simp) enough
  · exact ⟨h₁, h₂, h₃, h₄, left, rfl⟩

-- Every case takes at least one character off the input.
theorem string_body_sound (n : Nat) (input s rest : List UInt8) (size : input.length ≤ n)
    (read : stringBody input = (s, kQuote :: rest)) : ∃ body, input = body ++ kQuote :: rest ∧ LooseString body s := by
  induction n generalizing input s with
  | zero =>
      rw [List.length_eq_zero_iff.mp (Nat.le_zero.mp size)] at read
      cases read
  | succ n ih =>
      have onward (left : List UInt8) (shorter : left.length ≤ n) (after : (stringBody left).2 = kQuote :: rest) :
          ∃ body, left = body ++ kQuote :: rest ∧ LooseString body (stringBody left).1 :=
        ih left _ shorter (Prod.ext rfl after)
      cases input with
      | nil => cases read
      | cons c input =>
          rw [List.length_cons] at size
          by_cases quote : c = kQuote
          · rw [quote, string_body_quote, Prod.mk.injEq] at read
            exact ⟨[], by rw [quote, read.2]; rfl, read.1 ▸ .nil⟩
          by_cases backslash : c = kBackslash
          · subst backslash
            cases input with
            | nil => cases read
            | cons e input =>
                rw [List.length_cons] at size
                by_cases single : e = ch 'u'
                · subst single
                  by_cases few : input.length < 4
                  · rw [string_body_short input few] at read
                    obtain ⟨body, shape, loose⟩ := ih input s (by omega) read
                    have inside : body.length < 3 := by
                      rw [shape, List.length_append, List.length_cons] at few
                      omega
                    exact ⟨kBackslash :: ch 'u' :: body, by rw [shape]; rfl, .short body s inside loose⟩
                  · obtain ⟨h₁, h₂, h₃, h₄, left, split⟩ := four_bytes input few
                    subst split
                    simp only [List.length_cons] at size
                    rw [string_body_unicode, Prod.mk.injEq] at read
                    obtain ⟨body, shape, loose⟩ := onward left (by omega) read.2
                    exact ⟨kBackslash :: ch 'u' :: h₁ :: h₂ :: h₃ :: h₄ :: body, by rw [shape]; rfl,
                      read.1 ▸ .unicode h₁ h₂ h₃ h₄ body _ loose⟩
                · rw [string_body_escape e input single, Prod.mk.injEq] at read
                  obtain ⟨body, shape, loose⟩ := onward input (by omega) read.2
                  exact ⟨kBackslash :: e :: body, by rw [shape]; rfl, read.1 ▸ .escape e body _ single loose⟩
          · rw [string_body_plain c input quote backslash, Prod.mk.injEq] at read
            obtain ⟨body, shape, loose⟩ := onward input (by omega) read.2
            exact ⟨c :: body, by rw [shape]; rfl, read.1 ▸ .plain c body _ quote backslash loose⟩

-- ---- what each step takes off the input ----

theorem fed_up (q : Parser) (fed : ¬ q.Starved) : q.ok = true := by
  rw [← Bool.not_eq_false]
  exact fun down => fed (Or.inl down)

theorem ws_taken (s : List UInt8) : ∃ w, Json.Blanks w ∧ s = w ++ (Parser.ws ⟨s, true⟩).rest :=
  ⟨s.takeWhile isBlank, fun _ inside => List.mem_takeWhile_imp inside, (List.takeWhile_append_dropWhile).symm⟩

theorem eat_taken (s : List UInt8) (c : UInt8) (up : (Parser.eat ⟨s, true⟩ c).2.ok = true) :
    ∃ w rest, Json.Blanks w ∧ s = w ++ c :: rest ∧ Parser.eat ⟨s, true⟩ c = (true, ⟨rest, true⟩) := by
  obtain ⟨w, blanks, shape⟩ := ws_taken s
  rw [Parser.eat] at up ⊢
  cases left : (Parser.ws ⟨s, true⟩).rest with
  | nil =>
      rw [left] at up
      cases up
  | cons b rest =>
      rw [left] at up shape
      by_cases same : b = c
      · subst same
        refine ⟨w, rest, blanks, shape, ?_⟩
        simp only [if_true]
        rfl
      · simp only [same, if_false] at up
        cases up

theorem parse_string_taken (s : List UInt8) (up : (Parser.parseString ⟨s, true⟩).2.ok = true) :
    ∃ w t rest, Json.Blanks w ∧ s = w ++ t ++ rest ∧ LooseQuoted t (Parser.parseString ⟨s, true⟩).1 ∧
      (Parser.parseString ⟨s, true⟩).2 = ⟨rest, true⟩ := by
  have eaten : (Parser.eat ⟨s, true⟩ kQuote).2.ok = true := by
    rw [← Bool.not_eq_false]
    intro down
    rw [parse_string_eaten ⟨s, true⟩ down] at up
    cases up
  obtain ⟨w, inside, blanks, shape, eat⟩ := eat_taken s kQuote eaten
  rw [Parser.parseString, eat] at up ⊢
  simp only at up ⊢
  cases read : stringBody inside with
  | mk chars left =>
      rw [read] at up
      cases left with
      | nil => cases up
      | cons b rest =>
          by_cases closed : b = kQuote
          · subst closed
            obtain ⟨body, split, loose⟩ := string_body_sound inside.length inside chars rest (Nat.le_refl _) read
            refine ⟨w, kQuote :: (body ++ [kQuote]), rest, blanks, ?_, ?_, ?_⟩
            · rw [shape, split]
              simp
            · simp only [if_true]
              exact ⟨body, rfl, loose⟩
            · simp only [if_true]
          · simp only [closed, if_false] at up
            cases up

theorem parse_u64_taken (s : List UInt8) :
    ∃ w t rest, Json.Blanks w ∧ s = w ++ t ++ rest ∧ LooseNumber t (Parser.parseU64 ⟨s, true⟩).1 ∧
      (Parser.parseU64 ⟨s, true⟩).2 = ⟨rest, true⟩ := by
  obtain ⟨w, blanks, shape⟩ := ws_taken s
  refine ⟨w, (Parser.ws ⟨s, true⟩).rest.takeWhile isNumeral, (Parser.ws ⟨s, true⟩).rest.dropWhile isNumeral, blanks, ?_, ?_,
    rfl⟩
  · rw [List.append_assoc, List.takeWhile_append_dropWhile]
    exact shape
  · refine ⟨fun _ inside => List.mem_takeWhile_imp inside, ?_⟩
    intro digits fits
    have value := Numerals.strtoull_digits _ [] digits.1 (List.all_eq_true.mp digits.2) fits (by simp)
    rw [List.append_nil] at value
    exact value

-- The bytes left bound the turns, so the counter stops at the last bracket or
-- at the end of the input.
theorem skip_nested_taken (opened close : UInt8) (fuel depth : Nat) (s : List UInt8) (enough : s.length ≤ fuel)
    (fed : ¬ (Parser.skipNested opened close fuel depth ⟨s, true⟩).Starved) :
    ∃ t rest, s = t ++ rest ∧ LooseNest opened close depth t ∧
      Parser.skipNested opened close fuel depth ⟨s, true⟩ = ⟨rest, true⟩ := by
  induction fuel generalizing depth s with
  | zero =>
      have empty : s = [] := List.length_eq_zero_iff.mp (Nat.le_zero.mp enough)
      subst empty
      cases depth with
      | zero => exact ⟨[], [], rfl, .done, rfl⟩
      | succ depth => exact absurd (Or.inr rfl) fed
  | succ fuel ih =>
      cases depth with
      | zero => exact ⟨[], s, rfl, .done, rfl⟩
      | succ depth =>
          cases s with
          | nil => exact absurd (Or.inr rfl) fed
          | cons b s =>
              rw [List.length_cons] at enough
              rw [Parser.skipNested] at fed ⊢
              by_cases quote : b = kQuote
              · subst quote
                simp only [if_true] at fed ⊢
                have up : (Parser.parseString ⟨kQuote :: s, true⟩).2.ok = true := by
                  rw [← Bool.not_eq_false]
                  exact fun down => fed (Or.inl (skip_nested_down opened close fuel (depth + 1) _ down))
                obtain ⟨w, t, rest, blanks, shape, quoted, left⟩ := parse_string_taken (kQuote :: s) up
                obtain ⟨body, written, loose⟩ := quoted
                rw [left] at fed ⊢
                have solid : w = [] := by
                  cases w with
                  | nil => rfl
                  | cons c w =>
                      have first : kQuote = c := (List.cons.inj shape).1
                      exact absurd (blanks c List.mem_cons_self) (first ▸ by decide)
                rw [solid, List.nil_append, written] at shape
                have shorter := congrArg List.length shape
                simp only [List.length_cons, List.length_append, List.length_nil] at shorter
                obtain ⟨later, final, split, nest, skipped⟩ := ih (depth + 1) rest (by omega) fed
                refine ⟨kQuote :: (body ++ kQuote :: later), final, ?_, .string depth body _ later loose nest, skipped⟩
                rw [shape, split]
                simp
              · simp only [quote, if_false] at fed ⊢
                have onward (next : Nat) (hungry : ¬ (Parser.skipNested opened close fuel next ⟨s, true⟩).Starved) :=
                  ih next s (by omega) hungry
                by_cases opening : b = opened
                · simp only [opening, if_true] at fed ⊢
                  obtain ⟨later, final, split, nest, skipped⟩ := onward _ fed
                  exact ⟨opened :: later, final, by rw [split]; rfl, .deeper depth later nest, skipped⟩
                · by_cases closing : b = close
                  · subst closing
                    simp only [opening, if_false, if_true] at fed ⊢
                    obtain ⟨later, final, split, nest, skipped⟩ := onward _ fed
                    exact ⟨b :: later, final, by rw [split]; rfl, .closed depth later nest, skipped⟩
                  · simp only [opening, closing, if_false] at fed ⊢
                    obtain ⟨later, final, split, nest, skipped⟩ := onward _ fed
                    exact ⟨b :: later, final, by rw [split]; rfl, .other depth b later ⟨quote, opening, closing⟩ nest, skipped⟩

theorem skip_value_taken (s : List UInt8) (fed : ¬ (Parser.skipValue ⟨s, true⟩).Starved) :
    ∃ w t rest, Json.Blanks w ∧ s = w ++ t ++ rest ∧ LooseSkipped t ∧ Parser.skipValue ⟨s, true⟩ = ⟨rest, true⟩ := by
  obtain ⟨w, blanks, shape⟩ := ws_taken s
  rw [Parser.skipValue] at fed ⊢
  cases left : (Parser.ws ⟨s, true⟩).rest with
  | nil =>
      rw [left] at fed
      exact absurd (Or.inl rfl) fed
  | cons b rest =>
      have here : Parser.ws ⟨s, true⟩ = ⟨b :: rest, true⟩ := by
        rw [← left]
        rfl
      rw [left] at shape
      rw [here] at fed ⊢
      simp only at fed ⊢
      by_cases quote : b = kQuote
      · simp only [quote, if_true] at fed ⊢
        obtain ⟨w', t, final, more, split, loose, taken⟩ := parse_string_taken (kQuote :: rest) (fed_up _ fed)
        refine ⟨w ++ w', t, final, List.forall_mem_append.mpr ⟨blanks, more⟩, ?_, .string t _ loose, taken⟩
        rw [shape, quote, split]
        simp only [List.append_assoc]
      · by_cases brace : b = ch '{'
        · subst brace
          simp only [quote, if_false, if_true] at fed ⊢
          obtain ⟨t, final, split, nest, skipped⟩ := skip_nested_taken _ _ _ 1 rest (Nat.le_refl _) fed
          refine ⟨w, ch '{' :: t, final, blanks, ?_, .object t nest, skipped⟩
          rw [shape, split]
          simp
        · by_cases bracket : b = ch '['
          · subst bracket
            simp only [quote, brace, if_false, if_true] at fed ⊢
            obtain ⟨t, final, split, nest, skipped⟩ := skip_nested_taken _ _ _ 1 rest (Nat.le_refl _) fed
            refine ⟨w, ch '[' :: t, final, blanks, ?_, .array t nest, skipped⟩
            rw [shape, split]
            simp
          · simp only [quote, brace, bracket, if_false] at fed ⊢
            refine ⟨w, (b :: rest).takeWhile (fun d => !endsValue d), (b :: rest).dropWhile (fun d => !endsValue d), blanks,
              ?_, .run _ ?_ ?_, rfl⟩
            · rw [List.append_assoc, List.takeWhile_append_dropWhile]
              exact shape
            · intro c first
              obtain ⟨tail, front⟩ := List.head?_eq_some_iff.mp first
              have same : c = b := by
                have pre : (b :: rest).takeWhile (fun d => !endsValue d) <+: b :: rest := List.takeWhile_prefix _
                rw [front] at pre
                exact (List.cons_prefix_cons.mp pre).1
              rw [same]
              exact ⟨quote, brace, bracket⟩
            · intro c inside
              have passed := List.mem_takeWhile_imp inside
              simpa using passed

-- ---- objects and arrays ----

-- What the reader takes off an input that it neither refuses nor uses up.
def Takes {α : Type} (read : Parser → Except α (α × Parser)) (text : List UInt8 → α → Prop) : Prop :=
  ∀ s out q, read ⟨s, true⟩ = .ok (out, q) → ¬ q.Starved →
    ∃ w t rest, Json.Blanks w ∧ s = w ++ t ++ rest ∧ text t out ∧ q = ⟨rest, true⟩

theorem series_blanks {α : Type} (text : List UInt8 → α → α → Prop) (s w : List UInt8) (out out' : α)
    (series : LooseSeries text s out out') (blanks : Json.Blanks w) : LooseSeries text (s ++ w) out out' := by
  induction series with
  | none w' out before => exact .none (w' ++ w) out (List.forall_mem_append.mpr ⟨before, blanks⟩)
  | last w₁ t w₂ out out' before after own =>
      rw [List.append_assoc]
      exact .last w₁ t (w₂ ++ w) out out' before (List.forall_mem_append.mpr ⟨after, blanks⟩) own
  | more w₁ t w₂ s out mid out' before after own _ ih =>
      rw [List.append_assoc, List.cons_append]
      exact .more w₁ t w₂ (s ++ w) out mid out' before after own ih

section Enclosed

variable {α : Type} (close : UInt8) (item : α → Parser → Except α (α × Parser)) (text : List UInt8 → α → α → Prop)
  (hungry : ∀ out p, p.Starved → Starves (item out p)) (takes : ∀ out, Takes (item out) (fun t out' => text t out out'))

theorem members_stop (solid : isBlank close = false) (fuel : Nat) (rest : List UInt8) (out out' : α) (q : Parser)
    (read : Parser.members close item fuel out ⟨close :: rest, true⟩ = .ok (out', q)) :
    out' = out ∧ q = ⟨close :: rest, true⟩ := by
  cases fuel with
  | zero => cases read
  | succ fuel =>
      rw [members_close close item solid fuel out rest] at read
      have same := Prod.mk.inj (Except.ok.inj read)
      exact ⟨same.1.symm, same.2.symm⟩

include hungry takes

theorem members_taken (solid : isBlank close = false) (fuel : Nat) (s : List UInt8) (out out' : α) (q : Parser)
    (read : Parser.members close item fuel out ⟨s, true⟩ = .ok (out', q)) (fed : ¬ q.Starved) :
    ∃ body rest, s = body ++ rest ∧ LooseSeries text body out out' ∧ q = ⟨rest, true⟩ := by
  induction fuel generalizing s out with
  | zero => cases read
  | succ fuel ih =>
      obtain ⟨w, blanks, shape⟩ := ws_taken s
      have peeked : (Parser.peek ⟨s, true⟩ close).2 = ⟨(Parser.ws ⟨s, true⟩).rest, true⟩ := rfl
      rw [Parser.members] at read
      simp only [peeked, Bool.not_true, Bool.or_false] at read
      split at read
      · have same := Prod.mk.inj (Except.ok.inj read)
        exact ⟨w, _, shape, same.1 ▸ .none w out blanks, same.2.symm⟩
      · cases result : item out ⟨(Parser.ws ⟨s, true⟩).rest, true⟩ with
        | error mid =>
            rw [result] at read
            cases read
        | ok pair =>
            obtain ⟨mid, left⟩ := pair
            rw [result] at read
            simp only at read
            have next : left.Starved → (if (left.peek close).1 = true then (left.peek close).2
                else ((left.peek close).2.eat (ch ',')).2).Starved := by
              intro starved
              split
              · exact ws_starved left starved
              · exact Or.inl (eat_starved _ _ (ws_starved left starved))
            have onward : ¬ left.Starved := by
              intro starved
              have stuck := members_starved close item hungry fuel mid _ (next starved)
              rw [read] at stuck
              exact fed stuck
            obtain ⟨w₁, t, rest, blanks₁, split₁, own, same⟩ := takes out _ mid left result onward
            obtain ⟨w₂, blanks₂, split₂⟩ := ws_taken rest
            have before : Json.Blanks (w ++ w₁) := List.forall_mem_append.mpr ⟨blanks, blanks₁⟩
            rw [same] at read
            have there : (Parser.peek ⟨rest, true⟩ close).2 = ⟨(Parser.ws ⟨rest, true⟩).rest, true⟩ := rfl
            rw [there] at read
            by_cases here : (Parser.peek ⟨rest, true⟩ close).1 = true
            · rw [if_pos here] at read
              have closing : (Parser.ws ⟨rest, true⟩).rest.head? = some close := of_decide_eq_true here
              obtain ⟨final, last⟩ := List.head?_eq_some_iff.mp closing
              rw [last] at read split₂
              obtain ⟨sameOut, sameLeft⟩ := members_stop close item solid fuel final mid out' q read
              refine ⟨w ++ w₁ ++ t ++ w₂, close :: final, ?_, sameOut ▸ .last (w ++ w₁) t w₂ out mid before blanks₂ own, sameLeft⟩
              rw [shape, split₁, split₂]
              simp only [List.append_assoc]
            · rw [if_neg here] at read
              have up : (Parser.eat ⟨(Parser.ws ⟨rest, true⟩).rest, true⟩ (ch ',')).2.ok = true := by
                rw [← Bool.not_eq_false]
                intro down
                have failed := members_down close item fuel mid _ down
                rw [read] at failed
                exact fed (Or.inl failed)
              obtain ⟨w₃, after, blanks₃, split₃, eaten⟩ := eat_taken _ _ up
              rw [eaten] at read
              obtain ⟨body, final, later, series, sameLeft⟩ := ih after mid read
              refine ⟨w ++ w₁ ++ t ++ (w₂ ++ w₃) ++ ch ',' :: body, final, ?_,
                .more (w ++ w₁) t (w₂ ++ w₃) body out mid out' before (List.forall_mem_append.mpr ⟨blanks₂, blanks₃⟩) own series,
                sameLeft⟩
              rw [shape, split₁, split₂, split₃, later]
              simp only [List.append_assoc, List.cons_append]

theorem enclosed_taken (opened : UInt8) (solid : isBlank close = false) (s : List UInt8) (out out' : α) (q : Parser)
    (read : Parser.enclosed ⟨s, true⟩ opened close item out = .ok (out', q)) (up : q.ok = true) :
    ∃ w t rest, Json.Blanks w ∧ s = w ++ t ++ rest ∧ LooseEnclosed opened close text t out out' ∧ q = ⟨rest, true⟩ := by
  have eaten : (Parser.eat ⟨s, true⟩ opened).2.ok = true := by
    rw [← Bool.not_eq_false]
    intro down
    have failed := enclosed_eaten ⟨s, true⟩ opened close item out down
    rw [read] at failed
    have low : q.ok = false := failed
    rw [up] at low
    cases low
  obtain ⟨w, inside, blanks, shape, eat⟩ := eat_taken s opened eaten
  rw [Parser.enclosed, eat] at read
  simp only at read
  cases result : Parser.members close item (inside.length + 2) out ⟨inside, true⟩ with
  | error mid =>
      rw [result] at read
      cases read
  | ok pair =>
      obtain ⟨mid, left⟩ := pair
      rw [result] at read
      simp only at read
      have same := Prod.mk.inj (Except.ok.inj read)
      rw [← same.2] at up
      have fed : ¬ left.Starved := by
        intro starved
        rw [eat_starved left close starved] at up
        cases up
      obtain ⟨body, rest, split, series, sameLeft⟩ :=
        members_taken close item text hungry takes solid (inside.length + 2) inside out mid left result fed
      rw [sameLeft] at up same
      obtain ⟨w', final, blanks', split', closed⟩ := eat_taken rest close up
      rw [closed] at same
      refine ⟨w, opened :: (body ++ w' ++ [close]), final, blanks, ?_, ⟨body ++ w', rfl, ?_⟩, same.2.symm⟩
      · rw [shape, split, split']
        simp
      · rw [← same.1]
        exact series_blanks text body w' out mid series blanks'

end Enclosed

-- ---- members ----

theorem keyed_taken {α : Type} (out : α) (value : List UInt8 → Parser → Except α (α × Parser))
    (text : List UInt8 → List UInt8 → α → α → Prop) (keeps : ∀ k q, q.ok = false → Fails (value k q))
    (takes : ∀ k, Takes (value k) (fun t out' => text k t out out')) :
    Takes (fun p => p.keyed out value) (fun t out' => LooseMember text t out out') := by
  intro s out' q read fed
  change Parser.keyed ⟨s, true⟩ out value = .ok (out', q) at read
  rw [Parser.keyed] at read
  simp only at read
  cases eaten : (Parser.parseString ⟨s, true⟩).2.eat (ch ':') with
  | mk here p =>
      rw [eaten] at read
      cases here with
      | false => cases read
      | true =>
          simp only at read
          have up : ((Parser.parseString ⟨s, true⟩).2.eat (ch ':')).2.ok = true := by
            rw [← Bool.not_eq_false]
            intro down
            rw [eaten] at down
            have failed := keeps (Parser.parseString ⟨s, true⟩).1 p down
            rw [read] at failed
            exact fed (Or.inl failed)
          have named : (Parser.parseString ⟨s, true⟩).2.ok = true := by
            rw [← Bool.not_eq_false]
            intro down
            rw [eat_down _ (ch ':') down] at up
            cases up
          obtain ⟨w, name, rest, blanks, shape, quoted, left⟩ := parse_string_taken s named
          rw [left] at eaten up
          obtain ⟨before, onward, blanks₁, split₁, colon⟩ := eat_taken rest (ch ':') up
          have same : p = ⟨onward, true⟩ := by
            rw [eaten] at colon
            exact (Prod.mk.inj colon).2
          rw [same] at read
          obtain ⟨after, v, final, blanks₂, split₂, own, last⟩ := takes (Parser.parseString ⟨s, true⟩).1 onward out' q read fed
          refine ⟨w, name ++ before ++ ch ':' :: (after ++ v), final, blanks, ?_,
            ⟨name, (Parser.parseString ⟨s, true⟩).1, before, after, v, quoted, blanks₁, blanks₂, rfl, own⟩, last⟩
          rw [shape, split₁, split₂]
          simp only [List.append_assoc, List.cons_append]

theorem string_takes {α : Type} (store : List UInt8 → α) :
    Takes (fun p => .ok (store p.parseString.1, p.parseString.2)) (fun t out' => ∃ s, LooseQuoted t s ∧ out' = store s) := by
  intro s out q read fed
  have same := Prod.mk.inj (Except.ok.inj read)
  have up : (Parser.parseString ⟨s, true⟩).2.ok = true := by
    rw [← Bool.not_eq_false]
    exact fun down => fed (Or.inl (same.2 ▸ down))
  obtain ⟨w, t, rest, blanks, shape, quoted, left⟩ := parse_string_taken s up
  exact ⟨w, t, rest, blanks, shape, ⟨_, quoted, same.1.symm⟩, same.2.symm.trans left⟩

theorem number_takes {α : Type} (store : Nat → α) :
    Takes (fun p => .ok (store p.parseU64.1, p.parseU64.2)) (fun t out' => ∃ n, LooseNumber t n ∧ out' = store n) := by
  intro s out q read _
  have same := Prod.mk.inj (Except.ok.inj read)
  obtain ⟨w, t, rest, blanks, shape, number, left⟩ := parse_u64_taken s
  exact ⟨w, t, rest, blanks, shape, ⟨_, number, same.1.symm⟩, same.2.symm.trans left⟩

theorem skip_takes {α : Type} (out : α) : Takes (fun p => .ok (out, p.skipValue)) (fun t out' => LooseSkipped t ∧ out' = out) := by
  intro s out' q read fed
  have same := Prod.mk.inj (Except.ok.inj read)
  rw [← same.2] at fed
  obtain ⟨w, t, rest, blanks, shape, skipped, left⟩ := skip_value_taken s fed
  exact ⟨w, t, rest, blanks, shape, ⟨skipped, same.1.symm⟩, same.2.symm.trans left⟩

theorem stored_takes {α β : Type} (field : β → Parser → Except β (β × Parser)) (text : List UInt8 → β → β → Prop)
    (hungry : ∀ x p, p.Starved → Starves (field x p)) (takes : ∀ x, Takes (field x) (fun t x' => text t x x')) (fresh : β)
    (out : α) (store : β → α) :
    Takes (fun p => p.stored field fresh out store)
      (fun t out' => ∃ x, LooseEnclosed (ch '{') (ch '}') text t fresh x ∧ out' = store x) := by
  intro s out' q read fed
  change Parser.stored ⟨s, true⟩ field fresh out store = .ok (out', q) at read
  rw [Parser.stored] at read
  cases result : Parser.enclosed ⟨s, true⟩ (ch '{') (ch '}') field fresh with
  | error x =>
      rw [result] at read
      cases read
  | ok pair =>
      rw [result] at read
      have same := Prod.mk.inj (Except.ok.inj read)
      have up : pair.2.ok = true := same.2 ▸ fed_up q fed
      obtain ⟨w, t, rest, blanks, shape, object, left⟩ :=
        enclosed_taken (ch '}') field text hungry takes (ch '{') (by decide) s fresh pair.1 pair.2 result up
      exact ⟨w, t, rest, blanks, shape, ⟨pair.1, object, same.1.symm⟩, same.2.symm.trans left⟩

-- ---- checkpoints and replays ----

theorem buffered_value_takes (b : BufferedResponse) (k : List UInt8) :
    Takes (b.value k) (fun t b' => BufferedResponse.Loose k t b b') := by
  unfold BufferedResponse.value BufferedResponse.Loose
  by_cases seq : k = text "seq"
  · simp only [if_pos seq]
    exact number_takes (fun n => { b with seq := n })
  by_cases payload : k = text "payload"
  · simp only [if_neg seq, if_pos payload]
    exact string_takes (fun s => { b with payload := s })
  by_cases hash : k = text "hash"
  · simp only [if_neg seq, if_neg payload, if_pos hash]
    exact number_takes (fun n => { b with hash := n.toUInt64 })
  · simp only [if_neg seq, if_neg payload, if_neg hash]
    exact skip_takes b

theorem buffered_field_takes (b : BufferedResponse) :
    Takes b.field (fun t b' => LooseMember BufferedResponse.Loose t b b') :=
  keyed_taken b b.value BufferedResponse.Loose (buffered_value_down b) (buffered_value_takes b)

theorem checkpoint_element_takes (cp : Checkpoint) : Takes cp.element (fun t cp' => Checkpoint.LooseElement t cp cp') := by
  intro s out q read
  rw [checkpoint_element_stored] at read
  exact stored_takes BufferedResponse.field (LooseMember BufferedResponse.Loose) buffered_hungry buffered_field_takes
    ⟨0, [], 0⟩ cp (fun b => { cp with buffer := cp.buffer ++ [b] }) s out q read

theorem checkpoint_value_takes (cp : Checkpoint) (k : List UInt8) :
    Takes (cp.value k) (fun t cp' => Checkpoint.Loose k t cp cp') := by
  unfold Checkpoint.value Checkpoint.Loose
  by_cases upto : k = text "committed_upto"
  · simp only [if_pos upto]
    exact number_takes (fun n => { cp with committedUpto := n })
  by_cases count : k = text "event_count"
  · simp only [if_neg upto, if_pos count]
    exact number_takes (fun n => { cp with eventCount := n })
  by_cases hash : k = text "history_hash"
  · simp only [if_neg upto, if_neg count, if_pos hash]
    exact number_takes (fun n => { cp with historyHash := n.toUInt64 })
  by_cases buffer : k = text "buffer"
  · simp only [if_neg upto, if_neg count, if_neg hash, if_pos buffer]
    intro s cp' q read fed
    exact enclosed_taken (ch ']') Checkpoint.element Checkpoint.LooseElement buffered_element_hungry checkpoint_element_takes
      (ch '[') (by decide) s cp cp' q read (fed_up q fed)
  · simp only [if_neg upto, if_neg count, if_neg hash, if_neg buffer]
    exact skip_takes cp

theorem checkpoint_field_takes (cp : Checkpoint) : Takes cp.field (fun t cp' => LooseMember Checkpoint.Loose t cp cp') :=
  keyed_taken cp cp.value Checkpoint.Loose (checkpoint_value_down cp) (checkpoint_value_takes cp)

theorem checkpoint_accepted (s : List UInt8) (out : Checkpoint) (accepted : fromJsonCheckpoint s = (true, out)) :
    ∃ w t rest, Json.Blanks w ∧ s = w ++ t ++ rest ∧ LooseEnclosed (ch '{') (ch '}') (LooseMember Checkpoint.Loose) t {} out := by
  rw [from_json_checkpoint_decoded] at accepted
  obtain ⟨q, read, up⟩ := decoded_true _ out accepted
  obtain ⟨w, t, rest, blanks, shape, object, _⟩ := enclosed_taken (ch '}') Checkpoint.field (LooseMember Checkpoint.Loose)
    checkpoint_hungry checkpoint_field_takes (ch '{') (by decide) s {} out q read up
  exact ⟨w, t, rest, blanks, shape, object⟩

theorem replay_event_value_takes (e : ReplayEvent) (k : List UInt8) :
    Takes (e.value k) (fun t e' => ReplayEvent.Loose k t e e') := by
  unfold ReplayEvent.value ReplayEvent.Loose
  by_cases kind : k = text "t"
  · simp only [if_pos kind]
    exact string_takes (fun s => { e with isResponse := s = text "r" })
  by_cases seq : k = text "seq"
  · simp only [if_neg kind, if_pos seq]
    exact number_takes (fun n => { e with seq := n })
  by_cases payload : k = text "payload"
  · simp only [if_neg kind, if_neg seq, if_pos payload]
    exact string_takes (fun s => { e with payload := s })
  by_cases hash : k = text "hash"
  · simp only [if_neg kind, if_neg seq, if_neg payload, if_pos hash]
    exact number_takes (fun n => { e with hash := n.toUInt64 })
  · simp only [if_neg kind, if_neg seq, if_neg payload, if_neg hash]
    exact skip_takes e

theorem replay_event_field_takes (e : ReplayEvent) : Takes e.field (fun t e' => LooseMember ReplayEvent.Loose t e e') :=
  keyed_taken e e.value ReplayEvent.Loose (replay_event_value_down e) (replay_event_value_takes e)

theorem replay_element_takes (rp : Replay) : Takes rp.element (fun t rp' => Replay.LooseElement t rp rp') := by
  intro s out q read
  rw [replay_element_stored] at read
  exact stored_takes ReplayEvent.field (LooseMember ReplayEvent.Loose) replay_event_hungry replay_event_field_takes
    ⟨false, 0, [], 0⟩ rp (fun e => { rp with events := rp.events ++ [e] }) s out q read

theorem replay_value_takes (rp : Replay) (k : List UInt8) : Takes (rp.value k) (fun t rp' => Replay.Loose k t rp rp') := by
  unfold Replay.value Replay.Loose
  by_cases position : k = text "from"
  · simp only [if_pos position]
    exact number_takes (fun n => { rp with fromIndex := n })
  by_cases events : k = text "events"
  · simp only [if_neg position, if_pos events]
    intro s rp' q read fed
    exact enclosed_taken (ch ']') Replay.element Replay.LooseElement replay_element_hungry replay_element_takes (ch '[')
      (by decide) s rp rp' q read (fed_up q fed)
  · simp only [if_neg position, if_neg events]
    exact skip_takes rp

theorem replay_field_takes (rp : Replay) : Takes rp.field (fun t rp' => LooseMember Replay.Loose t rp rp') :=
  keyed_taken rp rp.value Replay.Loose (replay_value_down rp) (replay_value_takes rp)

theorem replay_accepted (s : List UInt8) (out : Replay) (accepted : fromJsonReplay s = (true, out)) :
    ∃ w t rest, Json.Blanks w ∧ s = w ++ t ++ rest ∧ LooseEnclosed (ch '{') (ch '}') (LooseMember Replay.Loose) t {} out := by
  rw [from_json_replay_decoded] at accepted
  obtain ⟨q, read, up⟩ := decoded_true _ out accepted
  obtain ⟨w, t, rest, blanks, shape, object, _⟩ := enclosed_taken (ch '}') Replay.field (LooseMember Replay.Loose)
    replay_hungry replay_field_takes (ch '{') (by decide) s {} out q read up
  exact ⟨w, t, rest, blanks, shape, object⟩

-- What is accepted begins with one object, and the object says what is stored.
theorem accepted_objects :
    (∀ s out, fromJsonCheckpoint s = (true, out) → ∃ w t rest, Json.Blanks w ∧ s = w ++ t ++ rest ∧
      LooseEnclosed (ch '{') (ch '}') (LooseMember Checkpoint.Loose) t {} out) ∧
    ∀ s out, fromJsonReplay s = (true, out) → ∃ w t rest, Json.Blanks w ∧ s = w ++ t ++ rest ∧
      LooseEnclosed (ch '{') (ch '}') (LooseMember Replay.Loose) t {} out :=
  ⟨checkpoint_accepted, replay_accepted⟩

-- Leading zeros, a comma and a letter too many; blanks before and after the number.
theorem accepted_objects_trailing :
    (∃ w t rest, Json.Blanks w ∧ text "\x7b\"committed_upto\":007,\x7dx" = w ++ t ++ rest ∧
      LooseEnclosed (ch '{') (ch '}') (LooseMember Checkpoint.Loose) t {} ⟨7, 0, 0, []⟩) ∧
    ∃ w t rest, Json.Blanks w ∧ text " \x7b\"from\":7 \x7d" = w ++ t ++ rest ∧
      LooseEnclosed (ch '{') (ch '}') (LooseMember Replay.Loose) t {} ⟨7, []⟩ :=
  ⟨accepted_objects.1 _ _ (by decide +kernel), accepted_objects.2 _ _ (by decide +kernel)⟩

theorem object_last (t : List UInt8) (value : Json.Value t) (braced : t.head? = some (ch '{')) :
    t.getLast? = some (ch '}') := by
  have bare (scalar : ∀ b ∈ t, Json.scalar b = true) : t.getLast? = some (ch '}') :=
    absurd (scalar (ch '{') (List.mem_of_mem_head? braced)) (by decide)
  cases value with
  | string s chars => exact absurd (Option.some.inj braced) (by decide)
  | number _ number => exact bare (Json.number_scalar t number)
  | literal _ listed => exact bare (List.all_eq_true.mp (Json.literal_scalar t listed).2)
  | array values s each listed => exact absurd (Option.some.inj braced) (by decide)
  | object members s each listed =>
      rw [← List.cons_append, List.getLast?_concat]
      rfl

-- The text is not one object, and the value under from is not a run of digits.
theorem more_accepted :
    fromJsonCheckpoint (text "\x7b\x7dx") = (true, {}) ∧
    (¬ ∃ w t w', Json.Blanks w ∧ Json.Blanks w' ∧ Json.Value t ∧ t.head? = some (ch '{') ∧
      text "\x7b\x7dx" = w ++ t ++ w') ∧
    fromJsonReplay (text "\x7b\"from\":-1\x7d") = (true, ⟨2 ^ 64 - 1, []⟩) ∧ ¬ Json.Digits (text "-1") := by
  refine ⟨by decide +kernel, ?_, by decide +kernel, ?_⟩
  · intro whole
    obtain ⟨w, t, w', _, after, value, braced, shape⟩ := whole
    have last : (w ++ t ++ w').getLast? = some (ch 'x') := by
      rw [← shape]
      decide +kernel
    rw [List.getLast?_append, List.getLast?_append, object_last t value braced] at last
    cases left : w'.getLast? with
    | none =>
        rw [left, Option.none_or, Option.some_or] at last
        exact absurd (Option.some.inj last) (by decide)
    | some b =>
        rw [left] at last
        have same : b = ch 'x' := Option.some.inj last
        have spaced : Json.blank (ch 'x') = true := same ▸ after b (List.mem_of_mem_getLast? left)
        exact absurd spaced (by decide)
  · intro digits
    exact absurd digits.2 (by decide +kernel)

end Color
