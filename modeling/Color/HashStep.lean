import Color.History
import Color.Library.Transition

set_option autoImplicit false

namespace Color

-- The loop of hash_step over the bytes of prev; its accumulator starts as prev itself.
def mixPrev (prev : Hash) : Hash := (List.range 8).foldl (fun h i => fnvMix h (prevByte prev i)) prev

theorem hash_step_mixes (prev : Hash) (e : Event) :
    hashStep prev e = e.str.foldl fnvMix (fnvMix (mixPrev prev) kSeparator) := by
  rw [hashStep]
  rfl

-- The inverse of kFnvPrime modulo 2^64: the prime is odd.
def kFnvInverse : Hash := 14886173955864302971

theorem fnv_prime_inverse : kFnvPrime * kFnvInverse = 1 := by decide

theorem fnv_prime_cancels (x y : Hash) (same : x * kFnvPrime = y * kFnvPrime) : x = y := by
  have undone : ∀ z : Hash, z * kFnvPrime * kFnvInverse = z := fun z => by
    rw [UInt64.mul_assoc, fnv_prime_inverse, UInt64.mul_one]
  rw [← undone x, same, undone]

theorem fnv_mix_injective (h₁ h₂ : Hash) (b : UInt8) (same : fnvMix h₁ b = fnvMix h₂ b) : h₁ = h₂ :=
  (UInt64.xor_left_inj b.toUInt64).mp (fnv_prime_cancels _ _ same)

theorem fnv_fold_injective (bytes : List UInt8) (h₁ h₂ : Hash)
    (same : bytes.foldl fnvMix h₁ = bytes.foldl fnvMix h₂) : h₁ = h₂ := by
  induction bytes generalizing h₁ h₂ with
  | nil => exact same
  | cons b bytes ih => exact fnv_mix_injective h₁ h₂ b (ih _ _ same)

-- After the bytes of prev, a step mixes bytes of its own and loses nothing.
theorem hash_step_collides (h₁ h₂ : Hash) (e : Event) :
    hashStep h₁ e = hashStep h₂ e ↔ mixPrev h₁ = mixPrev h₂ := by
  rw [hash_step_mixes, hash_step_mixes]
  constructor
  · intro same
    exact fnv_mix_injective _ _ _ (fnv_fold_injective _ _ _ same)
  · intro same
    rw [same]

-- ---- bits and bytes ----

theorem xor_bit (x : Hash) (b : UInt8) (i : Nat) :
    (x ^^^ b.toUInt64).toNat.testBit i = (x.toNat.testBit i ^^ b.toNat.testBit i) := by
  rw [UInt64.toNat_xor, Nat.testBit_xor]
  rfl

theorem byte_bit_high (b : UInt8) (i : Nat) (high : 8 ≤ i) : b.toNat.testBit i = false :=
  Nat.testBit_lt_two_pow (Nat.lt_of_lt_of_le b.toNat_lt (Nat.pow_le_pow_right (by decide) high))

theorem hash_bit_high (h : Hash) (i : Nat) (high : 64 ≤ i) : h.toNat.testBit i = false :=
  Nat.testBit_lt_two_pow (Nat.lt_of_lt_of_le h.toNat_lt (Nat.pow_le_pow_right (by decide) high))

theorem shifted_bit (h : Hash) (i : Nat) : (h >>> 8).toNat.testBit i = h.toNat.testBit (8 + i) := by
  have eight : UInt64.toNat 8 % 64 = 8 := rfl
  rw [UInt64.toNat_shiftRight, eight, Nat.testBit_shiftRight]

theorem prev_byte_bit (h : Hash) (i k : Nat) (byte : i < 8) (bit : k < 8) :
    (prevByte h i).toNat.testBit k = h.toNat.testBit (8 * i + k) := by
  have shift : 8 * i % 64 = 8 * i := by omega
  have whole : (prevByte h i).toNat = h.toNat >>> (8 * i) % 2 ^ 8 := by
    have masked : h.toNat >>> (8 * i) % 2 ^ 8 &&& 2 ^ 8 - 1 = h.toNat >>> (8 * i) % 2 ^ 8 := by
      rw [Nat.and_two_pow_sub_one_eq_mod, Nat.mod_mod]
    simpa [prevByte, shift] using masked
  rw [whole, Nat.testBit_mod_two_pow, Nat.testBit_shiftRight]
  simp [bit]

theorem prev_byte_ext (h₁ h₂ : Hash) (i : Nat) (byte : i < 8)
    (same : ∀ k < 8, h₁.toNat.testBit (8 * i + k) = h₂.toNat.testBit (8 * i + k)) : prevByte h₁ i = prevByte h₂ i := by
  apply UInt8.toNat_inj.mp
  apply Nat.eq_of_testBit_eq
  intro k
  by_cases bit : k < 8
  · rw [prev_byte_bit h₁ i k byte bit, prev_byte_bit h₂ i k byte bit, same k bit]
  · rw [byte_bit_high _ k (Nat.le_of_not_lt bit), byte_bit_high _ k (Nat.le_of_not_lt bit)]

-- The first turn xors prev with its own low byte.
theorem low_byte_cancels (h : Hash) : h ^^^ (prevByte h 0).toUInt64 = (h >>> 8) <<< 8 := by
  have eight : UInt64.toNat 8 % 64 = 8 := rfl
  apply UInt64.toNat_inj.mp
  apply Nat.eq_of_testBit_eq
  intro i
  rw [xor_bit, UInt64.toNat_shiftLeft, eight, Nat.testBit_mod_two_pow, Nat.testBit_shiftLeft]
  by_cases low : i < 8
  · have own := prev_byte_bit h 0 i (by decide) low
    rw [Nat.mul_zero, Nat.zero_add] at own
    simp [own, show ¬ 8 ≤ i by omega]
  · rw [byte_bit_high _ i (Nat.le_of_not_lt low), shifted_bit, show 8 + (i - 8) = i by omega]
    by_cases inside : i < 64
    · simp [inside, Nat.le_of_not_lt low]
    · simp [inside, hash_bit_high h i (Nat.le_of_not_lt inside)]

-- The first turn erases the low byte; then come turns over the bytes above it.
def mixTurns (h : Hash) (turns : Nat) : Hash :=
  (List.range turns).foldl (fun acc i => fnvMix acc (prevByte h (i + 1))) ((h >>> 8) <<< 8 * kFnvPrime)

theorem mix_prev_turns (h : Hash) : mixPrev h = mixTurns h 7 := by
  rw [mixPrev, List.range_succ_eq_map, List.foldl_cons, List.foldl_map, fnvMix, low_byte_cancels]
  rfl

theorem mix_turns_succ (h : Hash) (turns : Nat) :
    mixTurns h (turns + 1) = fnvMix (mixTurns h turns) (prevByte h (turns + 1)) := by
  simp only [mixTurns, List.range_succ, List.foldl_append, List.foldl_cons, List.foldl_nil]

-- Two hashes that agree above their low byte are one hash after any event.
theorem hash_step_forgets_low_byte (h₁ h₂ : Hash) (e : Event) (high : h₁ >>> 8 = h₂ >>> 8) :
    hashStep h₁ e = hashStep h₂ e := by
  have bytes : ∀ i < 7, prevByte h₁ (i + 1) = prevByte h₂ (i + 1) := by
    intro i within
    apply prev_byte_ext h₁ h₂ (i + 1) (by omega)
    intro k bit
    rw [show 8 * (i + 1) + k = 8 + (8 * i + k) by omega, ← shifted_bit, ← shifted_bit, high]
  rw [hash_step_collides, mix_prev_turns, mix_prev_turns, mixTurns, mixTurns, high]
  apply List.foldl_ext
  intro acc i member
  rw [bytes i (List.mem_range.mp member)]

-- ---- differences that the turns keep ----

-- The same number modulo a power of two.
def Agree (bits : Nat) (x y : Hash) : Prop := x.toNat % 2 ^ bits = y.toNat % 2 ^ bits

theorem agree_iff (bits : Nat) (x y : Hash) : Agree bits x y ↔ ∀ i < bits, x.toNat.testBit i = y.toNat.testBit i := by
  constructor
  · intro same i low
    have bit := congrArg (fun n => n.testBit i) same
    simpa [Nat.testBit_mod_two_pow, low] using bit
  · intro same
    apply Nat.eq_of_testBit_eq
    intro i
    by_cases low : i < bits <;> simp [Nat.testBit_mod_two_pow, low, same i]

instance (bits : Nat) (x y : Hash) : Decidable (Agree bits x y) := inferInstanceAs (Decidable (_ = _))

-- The prime is odd: multiplying by it neither makes nor hides a difference in the low bits.
theorem agree_mul_prime (bits : Nat) (x y : Hash) (small : bits ≤ 64) :
    Agree bits (x * kFnvPrime) (y * kFnvPrime) ↔ Agree bits x y := by
  have low : ∀ z : Hash, (z * kFnvPrime).toNat % 2 ^ bits = z.toNat * kFnvPrime.toNat % 2 ^ bits := fun z => by
    rw [UInt64.toNat_mul, Nat.mod_mod_of_dvd _ (Nat.pow_dvd_pow 2 small)]
  have odd : Nat.Coprime (2 ^ bits) kFnvPrime.toNat := Nat.Coprime.pow_left bits (by decide)
  rw [Agree, Agree, low, low]
  exact ⟨Nat.ModEq.cancel_right_of_coprime odd, fun same => Nat.ModEq.mul_right _ same⟩

theorem agree_mix (bits : Nat) (x y : Hash) (b c : UInt8) (small : bits ≤ 64) :
    Agree bits (fnvMix x b) (fnvMix y c) ↔ Agree bits (x ^^^ b.toUInt64) (y ^^^ c.toUInt64) :=
  agree_mul_prime bits _ _ small

-- One turn of the loop, seen through the low bits.
theorem agree_turn (k : Nat) (x y : Hash) (b c : UInt8) (small : k < 64) (low : Agree k x y)
    (same : ∀ j < k, b.toNat.testBit j = c.toNat.testBit j) :
    Agree k (fnvMix x b) (fnvMix y c) ∧
      (Agree (k + 1) (fnvMix x b) (fnvMix y c) ↔ (Agree (k + 1) x y ↔ b.toNat.testBit k = c.toNat.testBit k)) := by
  have below := (agree_iff k x y).mp low
  have kept : ∀ j < k, (x ^^^ b.toUInt64).toNat.testBit j = (y ^^^ c.toUInt64).toNat.testBit j := fun j less => by
    rw [xor_bit, xor_bit, below j less, same j less]
  have next : ∀ u v : Hash, (∀ j < k, u.toNat.testBit j = v.toNat.testBit j) →
      (Agree (k + 1) u v ↔ u.toNat.testBit k = v.toNat.testBit k) := by
    intro u v lower
    rw [agree_iff]
    -- Only the topmost of the k + 1 bits is open.
    refine ⟨fun all => all k (Nat.lt_succ_self k), fun top j less => ?_⟩
    cases Nat.lt_or_eq_of_le (Nat.le_of_lt_succ less) with
    | inl under => exact lower j under
    | inr equal => exact equal ▸ top
  rw [agree_mix k _ _ _ _ (Nat.le_of_lt small), agree_mix (k + 1) _ _ _ _ small, next _ _ kept, next _ _ below, xor_bit,
    xor_bit]
  refine ⟨(agree_iff k _ _).mpr kept, ?_⟩
  cases x.toNat.testBit k <;> cases y.toNat.testBit k <;> cases b.toNat.testBit k <;> cases c.toNat.testBit k <;> decide

-- The first turn leaves no low byte.
theorem agree_first (h₁ h₂ : Hash) (bits : Nat) (small : bits ≤ 56) (high : Agree bits (h₁ >>> 8) (h₂ >>> 8)) :
    Agree (bits + 8) (mixTurns h₁ 0) (mixTurns h₂ 0) := by
  change Agree (bits + 8) ((h₁ >>> 8) <<< 8 * kFnvPrime) ((h₂ >>> 8) <<< 8 * kFnvPrime)
  rw [agree_mul_prime (bits + 8) _ _ (by omega), agree_iff]
  intro i low
  have same := (agree_iff bits _ _).mp high
  have eight : UInt64.toNat 8 % 64 = 8 := rfl
  rw [UInt64.toNat_shiftLeft, UInt64.toNat_shiftLeft, eight, Nat.testBit_mod_two_pow, Nat.testBit_mod_two_pow,
    Nat.testBit_shiftLeft, Nat.testBit_shiftLeft]
  by_cases byte : 8 ≤ i
  · rw [same (i - 8) (by omega)]
  · simp [byte]

-- Whether bit k of byte i differs.
def differAt (h₁ h₂ : Hash) (i k : Nat) : Bool := h₁.toNat.testBit (8 * i + k) != h₂.toNat.testBit (8 * i + k)

-- In how many of the bytes above the low one bit k differs.
def bytesDiffering (h₁ h₂ : Hash) (k : Nat) : Nat := (List.range 7).countP (fun i => differAt h₁ h₂ (i + 1) k)

-- At the lowest bit at which any of these bytes differ, an odd number of them do.
def OddlyApart (h₁ h₂ : Hash) : Prop :=
  ∃ k < 8, (∀ j < k, bytesDiffering h₁ h₂ j = 0) ∧ bytesDiffering h₁ h₂ k % 2 = 1

instance (h₁ h₂ : Hash) : Decidable (OddlyApart h₁ h₂) := inferInstanceAs (Decidable (∃ k < 8, _))

theorem agree_columns (h₁ h₂ : Hash) (k : Nat) (bit : k < 8) (lower : ∀ j < k, bytesDiffering h₁ h₂ j = 0) (turns : Nat)
    (within : turns ≤ 7) :
    Agree k (mixTurns h₁ turns) (mixTurns h₂ turns) ∧
      (Agree (k + 1) (mixTurns h₁ turns) (mixTurns h₂ turns) ↔
        (List.range turns).countP (fun i => differAt h₁ h₂ (i + 1) k) % 2 = 0) := by
  induction turns with
  | zero =>
      have start := (agree_iff 8 _ _).mp (agree_first h₁ h₂ 0 (by decide) (by simp [Agree, Nat.mod_one]))
      have short : ∀ bits ≤ 8, Agree bits (mixTurns h₁ 0) (mixTurns h₂ 0) := fun bits le =>
        (agree_iff bits _ _).mpr (fun i low => start i (Nat.lt_of_lt_of_le low le))
      exact ⟨short k (Nat.le_of_lt bit), iff_of_true (short (k + 1) bit) rfl⟩
  | succ turns ih =>
      obtain ⟨low, parity⟩ := ih (by omega)
      have same : ∀ j < k, (prevByte h₁ (turns + 1)).toNat.testBit j = (prevByte h₂ (turns + 1)).toNat.testBit j := by
        intro j less
        have none := List.countP_eq_zero.mp (lower j less) turns (List.mem_range.mpr (by omega))
        rw [prev_byte_bit _ _ _ (by omega) (by omega), prev_byte_bit _ _ _ (by omega) (by omega)]
        simpa [differAt] using none
      obtain ⟨still, next⟩ := agree_turn k _ _ _ _ (by omega) low same
      rw [mix_turns_succ, mix_turns_succ]
      refine ⟨still, ?_⟩
      rw [next, parity, prev_byte_bit _ _ _ (by omega) bit, prev_byte_bit _ _ _ (by omega) bit, List.range_succ,
        List.countP_append, List.countP_singleton]
      by_cases differ : h₁.toNat.testBit (8 * (turns + 1) + k) = h₂.toNat.testBit (8 * (turns + 1) + k)
      · simp [differAt, differ]
      · simp only [differAt, bne_iff_ne, ne_eq, differ, not_false_eq_true, if_true, iff_false]
        omega

theorem oddly_apart_mixes (h₁ h₂ : Hash) (odd : OddlyApart h₁ h₂) : mixPrev h₁ ≠ mixPrev h₂ := by
  obtain ⟨k, bit, lower, count⟩ := odd
  have parity := (agree_columns h₁ h₂ k bit lower 7 (Nat.le_refl _)).2
  intro same
  rw [mix_prev_turns, mix_prev_turns] at same
  have even := parity.mp (congrArg (fun x : Hash => x.toNat % 2 ^ (k + 1)) same)
  rw [bytesDiffering] at count
  omega

-- ---- differences in the three highest bytes ----

-- The same bits 8 to 39, and the low byte is left to be what it may.
def HighApart (h₁ h₂ : Hash) : Prop := h₁ >>> 8 ≠ h₂ >>> 8 ∧ Agree 32 (h₁ >>> 8) (h₂ >>> 8)

instance (h₁ h₂ : Hash) : Decidable (HighApart h₁ h₂) := inferInstanceAs (Decidable (_ ∧ _))

theorem xor_low (x : Hash) (b : UInt8) :
    (x ^^^ b.toUInt64).toNat = x.toNat / 2 ^ 8 * 2 ^ 8 + (x.toNat % 2 ^ 8 ^^^ b.toNat) ∧
      x.toNat % 2 ^ 8 ^^^ b.toNat < 2 ^ 8 := by
  have small : x.toNat % 2 ^ 8 ^^^ b.toNat < 2 ^ 8 := Nat.xor_lt_two_pow (Nat.mod_lt _ (by decide)) b.toNat_lt
  refine ⟨?_, small⟩
  apply Nat.eq_of_testBit_eq
  intro i
  rw [xor_bit, Nat.mul_comm, Nat.testBit_two_pow_mul_add _ small, Nat.testBit_xor, Nat.testBit_mod_two_pow,
    Nat.testBit_div_two_pow]
  by_cases low : i < 8
  · simp [low]
  · have back : i - 8 + 8 = i := by omega
    simp [low, byte_bit_high b i (Nat.le_of_not_lt low), back]

-- What a turn makes of a difference, modulo 2^40.
theorem turn_difference (x y : Hash) (b c : UInt8) :
    ∃ k : Int, ((fnvMix x b).toNat - (fnvMix y c).toNat : Int) =
      435 * (x.toNat - y.toNat - ((x.toNat % 2 ^ 8 : Nat) - (y.toNat % 2 ^ 8 : Nat)) +
        ((x.toNat % 2 ^ 8 ^^^ b.toNat : Nat) - (y.toNat % 2 ^ 8 ^^^ c.toNat : Nat))) + 2 ^ 40 * k := by
  have turn : ∀ (z : Hash) (d : UInt8), ∃ q : Int, ((fnvMix z d).toNat : Int) =
      435 * (z.toNat - (z.toNat % 2 ^ 8 : Nat) + (z.toNat % 2 ^ 8 ^^^ d.toNat : Nat)) + 2 ^ 40 * q := by
    intro z d
    have prime : kFnvPrime.toNat = 2 ^ 40 + 435 := rfl
    rw [fnvMix, UInt64.toNat_mul, prime, (xor_low z d).1]
    generalize z.toNat % 2 ^ 8 ^^^ d.toNat = u
    generalize mixed : z.toNat / 2 ^ 8 * 2 ^ 8 + u = n
    refine ⟨n - 2 ^ 24 * ((n * (2 ^ 40 + 435) / 2 ^ 64 : Nat) : Int), ?_⟩
    omega
  obtain ⟨p, first⟩ := turn x b
  obtain ⟨q, second⟩ := turn y c
  exact ⟨p - q, by rw [first, second]; omega⟩

-- Three turns are too few for the low bytes to wrap around 2^40: u, v and the
-- last bytes of D are what the turns see after their xor.
theorem small_sums (j k l : Int) (u u' v v' B B' D D' : Nat) (hu : u < 2 ^ 8) (hu' : u' < 2 ^ 8) (hv : v < 2 ^ 8)
    (hv' : v' < 2 ^ 8) (first : (B - B' : Int) = 435 * (2 ^ 40 * j + (u - u')) + 2 ^ 40 * k)
    (second : (D - D' : Int) = 435 * (B - B' - ((B % 2 ^ 8 : Nat) - (B' % 2 ^ 8 : Nat)) + (v - v')) + 2 ^ 40 * l)
    (whole : D / 2 ^ 8 = D' / 2 ^ 8) : u = u' ∧ B % 2 ^ 8 = B' % 2 ^ 8 ∧ v = v' ∧ D % 2 ^ 8 = D' % 2 ^ 8 := by
  have sum : ((D % 2 ^ 8 : Nat) - (D' % 2 ^ 8 : Nat) : Int) =
      435 * (435 * (u - u') - ((B % 2 ^ 8 : Nat) - (B' % 2 ^ 8 : Nat)) + (v - v')) + 2 ^ 40 * (435 * (435 * j + k) + l) := by
    omega
  have none : 435 * (435 * j + k) + l = 0 := by
    clear first second whole
    omega
  have zero : 435 * (u - u' : Int) - ((B % 2 ^ 8 : Nat) - (B' % 2 ^ 8 : Nat)) + (v - v') = 0 := by
    clear first second whole
    omega
  have middle : v = v' := by
    clear second sum none whole
    omega
  have bytes : u = u' ∧ B % 2 ^ 8 = B' % 2 ^ 8 := by
    clear first second sum none whole
    omega
  have last : D % 2 ^ 8 = D' % 2 ^ 8 := by
    clear first second whole
    omega
  exact ⟨bytes.1, bytes.2, middle, last⟩

-- No two choices of the last three bytes bring such hashes together.
theorem last_turns (x y : Hash) (b c d b' c' d' : UInt8) (low : Agree 40 x y)
    (same : fnvMix (fnvMix x b) c ^^^ d.toUInt64 = fnvMix (fnvMix y b') c' ^^^ d'.toUInt64) : b = b' ∧ c = c' ∧ d = d' := by
  have recovered : ∀ (m : Nat) (p q : UInt8), m ^^^ p.toNat = m ^^^ q.toNat → p = q := by
    intro m p q mixed
    have cancelled := congrArg (m ^^^ ·) mixed
    simpa [← Nat.xor_assoc, UInt8.toNat_inj] using cancelled
  have start : x.toNat % 2 ^ 8 = y.toNat % 2 ^ 8 := by
    rw [Agree] at low
    omega
  have high : (x.toNat - y.toNat : Int) = 2 ^ 40 * (x.toNat / 2 ^ 40 - y.toNat / 2 ^ 40 : Int) := by
    rw [Agree] at low
    omega
  obtain ⟨k, first⟩ := turn_difference x y b b'
  obtain ⟨l, second⟩ := turn_difference (fnvMix x b) (fnvMix y b') c c'
  have ended := congrArg UInt64.toNat same
  rw [(xor_low _ d).1, (xor_low _ d').1] at ended
  have hw := (xor_low (fnvMix (fnvMix x b) c) d).2
  have hw' := (xor_low (fnvMix (fnvMix y b') c') d').2
  have whole : (fnvMix (fnvMix x b) c).toNat / 2 ^ 8 = (fnvMix (fnvMix y b') c').toNat / 2 ^ 8 := by
    clear first second high
    omega
  have hu := (xor_low x b).2
  rw [start] at first hu
  rw [high, sub_self, sub_zero] at first
  obtain ⟨outer, low₁, middle, low₂⟩ := small_sums _ k l _ _ _ _ _ _ _ _ hu (xor_low y b').2 (xor_low (fnvMix x b) c).2
    (xor_low (fnvMix y b') c').2 first second whole
  rw [low₁] at middle
  rw [whole, low₂] at ended
  exact ⟨recovered _ b b' outer, recovered _ c c' middle, recovered _ d d' (Nat.add_left_cancel ended)⟩

theorem shifted_ext (h₁ h₂ : Hash) (bytes : ∀ i < 7, prevByte h₁ (i + 1) = prevByte h₂ (i + 1)) : h₁ >>> 8 = h₂ >>> 8 := by
  apply UInt64.toNat_inj.mp
  apply Nat.eq_of_testBit_eq
  intro i
  rw [shifted_bit, shifted_bit]
  by_cases high : i < 56
  · have same := congrArg (fun b : UInt8 => b.toNat.testBit (i % 8)) (bytes (i / 8) (by omega))
    simp only [prev_byte_bit h₁ (i / 8 + 1) (i % 8) (by omega) (by omega),
      prev_byte_bit h₂ (i / 8 + 1) (i % 8) (by omega) (by omega)] at same
    rw [show 8 * (i / 8 + 1) + i % 8 = 8 + i by omega] at same
    exact same
  · rw [hash_bit_high h₁ _ (by omega), hash_bit_high h₂ _ (by omega)]

theorem high_apart_mixes (h₁ h₂ : Hash) (apart : HighApart h₁ h₂) : mixPrev h₁ ≠ mixPrev h₂ := by
  obtain ⟨differ, low⟩ := apart
  have lowBits := (agree_iff 32 _ _).mp low
  have lowBytes : ∀ i < 4, prevByte h₁ (i + 1) = prevByte h₂ (i + 1) := by
    intro i within
    apply prev_byte_ext h₁ h₂ (i + 1) (by omega)
    intro k bit
    have same := lowBits (8 * i + k) (by omega)
    rw [shifted_bit, shifted_bit] at same
    rw [show 8 * (i + 1) + k = 8 + (8 * i + k) by omega]
    exact same
  have kept : ∀ turns ≤ 4, Agree 40 (mixTurns h₁ turns) (mixTurns h₂ turns) := by
    intro turns within
    induction turns with
    | zero => exact agree_first h₁ h₂ 32 (by decide) low
    | succ turns ih =>
        rw [mix_turns_succ, mix_turns_succ, lowBytes turns (by omega)]
        exact (agree_turn 40 _ _ _ _ (by decide) (ih (by omega)) (fun _ _ => rfl)).1
  intro same
  rw [mix_prev_turns, mix_prev_turns, mix_turns_succ h₁ 6, mix_turns_succ h₂ 6, mix_turns_succ h₁ 5, mix_turns_succ h₂ 5,
    mix_turns_succ h₁ 4, mix_turns_succ h₂ 4] at same
  obtain ⟨fifth, sixth, seventh⟩ := last_turns _ _ _ _ _ _ _ _ (kept 4 (Nat.le_refl 4)) (fnv_prime_cancels _ _ same)
  have bytes : ∀ i < 7, prevByte h₁ (i + 1) = prevByte h₂ (i + 1) := by
    intro i within
    rcases (by omega : i < 4 ∨ i = 4 ∨ i = 5 ∨ i = 6) with early | rfl | rfl | rfl
    · exact lowBytes i early
    · exact fifth
    · exact sixth
    · exact seventh
  exact differ (shifted_ext h₁ h₂ bytes)

-- ---- two histories given the same events ----

def Apart (h₁ h₂ : Hash) : Prop := OddlyApart h₁ h₂ ∨ HighApart h₁ h₂

instance (h₁ h₂ : Hash) : Decidable (Apart h₁ h₂) := inferInstanceAs (Decidable (_ ∨ _))

theorem apart_mixes (h₁ h₂ : Hash) (apart : Apart h₁ h₂) : mixPrev h₁ ≠ mixPrev h₂ :=
  apart.elim (oddly_apart_mixes h₁ h₂) (high_apart_mixes h₁ h₂)

def appendBoth (s : History × History) (e : Event) : Option (History × History) := some (s.1.append e, s.2.append e)

def whileApart (s : History × History) (_ : Event) : Prop := Apart s.1.curHash s.2.curHash

instance (s : History × History) (e : Event) : Decidable (whileApart s e) := inferInstanceAs (Decidable (Apart _ _))

-- The hashes stay different while they are apart before each event; where they
-- agree above the low byte, the next event makes them equal for good.
theorem divergence_kept_while_apart (a b : History) (s : History × History) (differ : a.curHash ≠ b.curHash)
    (run : Transition.Reach appendBoth whileApart (a, b) s) :
    s.1.curHash ≠ s.2.curHash ∧
    ∀ (e : Event) (events : List Event), s.1.curHash >>> 8 = s.2.curHash >>> 8 →
      rollingFrom s.1.curHash (e :: events) = rollingFrom s.2.curHash (e :: events) := by
  constructor
  · refine run.invariant (fun s => s.1.curHash ≠ s.2.curHash) differ ?_
    intro s e next _ apart taken
    cases Option.some.inj taken
    intro same
    exact apart_mixes _ _ apart ((hash_step_collides _ _ e).mp same)
  · intro e events high
    change rollingFrom (hashStep s.1.curHash e) events = rollingFrom (hashStep s.2.curHash e) events
    rw [hash_step_forgets_low_byte s.1.curHash s.2.curHash e high]

theorem divergence_kept_while_apart_requests :
    ((History.append {} (.request 1)).append (.response 1)).curHash ≠
      ((History.append {} (.request 3)).append (.response 1)).curHash ∧
    ∀ (e : Event) (events : List Event),
      ((History.append {} (.request 1)).append (.response 1)).curHash >>> 8 =
        ((History.append {} (.request 3)).append (.response 1)).curHash >>> 8 →
      rollingFrom ((History.append {} (.request 1)).append (.response 1)).curHash (e :: events) =
        rollingFrom ((History.append {} (.request 3)).append (.response 1)).curHash (e :: events) :=
  divergence_kept_while_apart (History.append {} (.request 1)) (History.append {} (.request 3)) (_, _) (by decide +kernel)
    (.next .refl (by decide +kernel) rfl)

-- Not apart, and not equal above the low byte: some such pairs become equal.
example : ¬ Apart 0x64d52cb7a3000000 0x01b70c1704000000 ∧
    hashStep 0x64d52cb7a3000000 (.request 1) = hashStep 0x01b70c1704000000 (.request 1) := by decide +kernel

-- 0 and 1 differ in the byte that cancels.
theorem divergence_forgotten : (0 : Hash) ≠ 1 ∧ rollingFrom 0 [.request 1] = rollingFrom 1 [.request 1] := by
  have same := hash_step_forgets_low_byte 0 1 (.request 1) (by decide)
  exact ⟨by decide, congrArg (fun h => rollingFrom h []) same⟩

end Color
