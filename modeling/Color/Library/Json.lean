import Mathlib.Data.UInt
import Mathlib.Tactic.Common

set_option autoImplicit false

-- The grammar of JSON texts over bytes. The bytes above ASCII stand for
-- themselves in a string; that they are UTF-8 is not asked for.
namespace Json

def blank (b : UInt8) : Bool := b = 32 || b = 9 || b = 10 || b = 13

def Blanks (w : List UInt8) : Prop := ∀ b ∈ w, blank b = true

def digit (b : UInt8) : Bool := 48 ≤ b && b ≤ 57

def hexadecimal (b : UInt8) : Bool := digit b || (97 ≤ b && b ≤ 102) || (65 ≤ b && b ≤ 70)

-- " \ / b f n r t
def escapes : List UInt8 := [34, 92, 47, 98, 102, 110, 114, 116]

-- What stands between the quotes of a string.
inductive Chars : List UInt8 → Prop where
  | nil : Chars []
  | plain (c : UInt8) (rest : List UInt8) (printable : 32 ≤ c) (unquoted : c ≠ 34) (unescaped : c ≠ 92)
      (tail : Chars rest) : Chars (c :: rest)
  | escape (e : UInt8) (rest : List UInt8) (known : e ∈ escapes) (tail : Chars rest) : Chars (92 :: e :: rest)
  | unicode (h₁ h₂ h₃ h₄ : UInt8) (rest : List UInt8) (digits : [h₁, h₂, h₃, h₄].all hexadecimal = true)
      (tail : Chars rest) : Chars (92 :: 117 :: h₁ :: h₂ :: h₃ :: h₄ :: rest)

def Digits (t : List UInt8) : Prop := t ≠ [] ∧ t.all digit = true

inductive Number : List UInt8 → Prop where
  | written (sign whole fraction exponent : List UInt8) (signed : sign = [] ∨ sign = [45]) (digits : Digits whole)
      (leading : whole.head? = some 48 → whole = [48])
      (fractional : fraction = [] ∨ ∃ ds, Digits ds ∧ fraction = 46 :: ds)
      (scaled : exponent = [] ∨ ∃ e direction ds, (e = 101 ∨ e = 69) ∧ direction ∈ [[], [43], [45]] ∧ Digits ds ∧
        exponent = e :: (direction ++ ds)) :
      Number (sign ++ whole ++ fraction ++ exponent)

-- true, false, null
def literals : List (List UInt8) := [[116, 114, 117, 101], [102, 97, 108, 115, 101], [110, 117, 108, 108]]

-- Texts with commas between them and blanks around each.
inductive Listed : List (List UInt8) → List UInt8 → Prop where
  | none (w : List UInt8) (blanks : Blanks w) : Listed [] w
  | one (w t w' : List UInt8) (before : Blanks w) (after : Blanks w') : Listed [t] (w ++ t ++ w')
  | more (w t w' next : List UInt8) (texts : List (List UInt8)) (s : List UInt8) (before : Blanks w) (after : Blanks w')
      (rest : Listed (next :: texts) s) : Listed (t :: next :: texts) (w ++ t ++ w' ++ 44 :: s)

-- A member of an object: the blanks stand on either side of the colon.
structure Member where
  key : List UInt8
  before : List UInt8
  after : List UInt8
  value : List UInt8
  chars : Chars key
  blanks : Blanks before ∧ Blanks after

def Member.text (m : Member) : List UInt8 := 34 :: (m.key ++ 34 :: (m.before ++ 58 :: (m.after ++ m.value)))

inductive Value : List UInt8 → Prop where
  | string (s : List UInt8) (chars : Chars s) : Value (34 :: (s ++ [34]))
  | number (t : List UInt8) (number : Number t) : Value t
  | literal (t : List UInt8) (listed : t ∈ literals) : Value t
  | array (values : List (List UInt8)) (s : List UInt8) (each : ∀ v ∈ values, Value v) (listed : Listed values s) :
      Value (91 :: (s ++ [93]))
  | object (members : List Member) (s : List UInt8) (each : ∀ m ∈ members, Value m.value)
      (listed : Listed (members.map Member.text) s) : Value (123 :: (s ++ [125]))

-- ---- blanks ----

theorem blanks_nil : Blanks [] := fun _ inside => absurd inside List.not_mem_nil

theorem blanks_skip (w rest : List UInt8) (blanks : Blanks w) : (w ++ rest).dropWhile blank = rest.dropWhile blank :=
  List.dropWhile_append_of_pos blanks

-- ---- strings ----

theorem chars_of_plain (s : List UInt8) (plain : s.all (fun c => 32 ≤ c && c != 34 && c != 92) = true) : Chars s := by
  induction s with
  | nil => exact .nil
  | cons c s ih =>
      simp only [List.all_cons, Bool.and_eq_true, decide_eq_true_eq, bne_iff_ne] at plain
      obtain ⟨⟨⟨printable, unquoted⟩, unescaped⟩, rest⟩ := plain
      exact .plain c s printable unquoted unescaped (ih rest)

theorem chars_unquoted (s : List UInt8) (chars : Chars s) (escapeFree : ∀ c ∈ s, c ≠ 92) : ∀ c ∈ s, c ≠ 34 := by
  induction chars with
  | nil => exact fun c inside => absurd inside List.not_mem_nil
  | plain c rest _ unquoted _ _ ih =>
      rw [List.forall_mem_cons] at escapeFree ⊢
      exact ⟨unquoted, ih escapeFree.2⟩
  | escape e rest _ _ _ => exact absurd rfl (escapeFree 92 List.mem_cons_self)
  | unicode h₁ h₂ h₃ h₄ rest _ _ _ => exact absurd rfl (escapeFree 92 List.mem_cons_self)

-- ---- lists ----

theorem listed_length (texts : List (List UInt8)) (s : List UInt8) (listed : Listed texts s)
    (nonempty : ∀ t ∈ texts, t ≠ []) : texts.length ≤ s.length := by
  induction listed with
  | none w _ => exact Nat.zero_le _
  | one w t w' _ _ =>
      have positive : 1 ≤ t.length := List.length_pos_iff.mpr (nonempty t List.mem_cons_self)
      simp only [List.length_append, List.length_cons, List.length_nil]
      omega
  | more w t w' next texts s _ _ _ ih =>
      have later := ih (fun u inside => nonempty u (List.mem_cons_of_mem t inside))
      simp only [List.length_append, List.length_cons] at later ⊢
      omega

-- ---- scalars ----

-- The bytes of numbers and literals: none of them opens, closes or parts anything.
def scalar (b : UInt8) : Bool := digit b || (97 ≤ b && b ≤ 122) || b = 43 || b = 45 || b = 46 || b = 69

theorem digits_scalar (t : List UInt8) (digits : Digits t) : ∀ b ∈ t, scalar b = true := by
  intro b inside
  have own : digit b = true := List.all_eq_true.mp digits.2 b inside
  simp [scalar, own]

theorem number_scalar (t : List UInt8) (number : Number t) : ∀ b ∈ t, scalar b = true := by
  cases number with
  | written sign whole fraction exponent signed digits leading fractional scaled =>
      have signs : ∀ b ∈ sign, scalar b = true := by
        cases signed with
        | inl empty => simp [empty]
        | inr minus =>
            rw [minus]
            exact List.forall_mem_singleton.mpr (by decide)
      have fractions : ∀ b ∈ fraction, scalar b = true := by
        cases fractional with
        | inl empty => simp [empty]
        | inr point =>
            obtain ⟨ds, all, shape⟩ := point
            rw [shape, List.forall_mem_cons]
            exact ⟨by decide, digits_scalar ds all⟩
      have exponents : ∀ b ∈ exponent, scalar b = true := by
        cases scaled with
        | inl empty => simp [empty]
        | inr scale =>
            obtain ⟨e, direction, ds, letter, directed, all, shape⟩ := scale
            rw [shape, List.forall_mem_cons, List.forall_mem_append]
            refine ⟨?_, ?_, digits_scalar ds all⟩
            · cases letter with
              | inl lower => rw [lower]; decide
              | inr upper => rw [upper]; decide
            · simp only [List.mem_cons, List.not_mem_nil, or_false] at directed
              rcases directed with empty | plus | minus
              · simp [empty]
              · rw [plus]
                exact List.forall_mem_singleton.mpr (by decide)
              · rw [minus]
                exact List.forall_mem_singleton.mpr (by decide)
      intro b inside
      simp only [List.mem_append] at inside
      rcases inside with ((signing | counting) | parting) | scaling
      · exact signs b signing
      · exact digits_scalar whole digits b counting
      · exact fractions b parting
      · exact exponents b scaling

theorem number_nonempty (t : List UInt8) (number : Number t) : t ≠ [] := by
  cases number with
  | written sign whole fraction exponent signed digits leading fractional scaled =>
      have whole := digits.1
      simp [whole]

theorem literal_scalar (t : List UInt8) (listed : t ∈ literals) : t ≠ [] ∧ t.all scalar = true := by
  have every : ∀ t ∈ literals, t ≠ [] ∧ t.all scalar = true := by decide
  exact every t listed

end Json
