import Mathlib.Data.List.Basic
import Mathlib.Tactic.Common

set_option autoImplicit false

namespace Scanner

-- A text lies in memory below finish. Memory goes on after it with anything.
structure Buffer (β : Type) where
  cells : Nat → β
  finish : Nat

inductive Access where
  | read (index : Nat)
  | move (before after : Nat)
  | lap (before after : Nat)
deriving DecidableEq, Repr

-- A read stays below the end, the cursor goes forward and no further than the
-- end, and a loop that goes round again has advanced it.
def Access.Within (finish : Nat) : Access → Prop
  | .read index => index < finish
  | .move before after => before ≤ after ∧ after ≤ finish
  | .lap before after => before < after

structure State (σ : Type) where
  pos : Nat
  data : σ
  log : List Access

-- A run that gives none never comes back: some loop goes round for ever.
abbrev Scan (σ : Type) := StateT (State σ) Option

variable {α β ε σ : Type}

-- ---- what a program over the buffer is made of ----

def position : Scan σ Nat := fun s => some (s.pos, s)

def current : Scan σ σ := fun s => some (s.data, s)

def assign (data : σ) : Scan σ Unit := fun s => some ((), { s with data := data })

-- Nothing keeps a read or a step from going past the end.
def Buffer.load (b : Buffer β) (index : Nat) : Scan σ β :=
  fun s => some (b.cells index, { s with log := s.log ++ [.read index] })

def bump : Scan σ Unit :=
  fun s => some ((), { s with pos := s.pos + 1, log := s.log ++ [.move s.pos (s.pos + 1)] })

def lap (before : Nat) : Scan σ Unit :=
  fun s => some ((), { s with log := s.log ++ [.lap before s.pos] })

def Buffer.deref (b : Buffer β) : Scan σ β := do b.load (← position)

def Buffer.next (b : Buffer β) : Scan σ β := do
  let c ← b.deref
  bump
  return c

def Buffer.more (b : Buffer β) : Scan σ Bool := do return decide ((← position) < b.finish)

-- p < end && q(*p)
def Buffer.sees (b : Buffer β) (q : β → Bool) : Scan σ Bool := do
  if ← b.more then return q (← b.deref) else return false

def Buffer.copy (b : Buffer β) : Nat → Nat → Scan σ (List β)
  | _, 0 => return []
  | start, count + 1 => do
      let c ← b.load start
      return c :: (← b.copy (start + 1) count)

-- while (cond) body. A body that hands back an error has left the loop.
structure While (ε α σ : Type) where
  cond : α → Scan σ Bool
  body : α → Scan σ (Except ε α)

def While.run (w : While ε α σ) (a : α) : Scan σ (Except ε α) := do
  if ← w.cond a then
    let before ← position
    match ← w.body a with
    | .error e => return .error e
    | .ok a =>
        lap before
        w |>.run a
  else return .ok a
partial_fixpoint

-- A loop that only its condition ends.
def repeated (cond : α → Scan σ Bool) (body : α → Scan σ α) (a : α) : Scan σ α := do
  match ← While.run { cond, body := fun a => do return (.ok (← body a) : Except α α) } a with
  | .error a => return a
  | .ok a => return a

-- while (p < end && q(*p)) ++p;
def Buffer.skip (b : Buffer β) (q : β → Bool) : Scan σ Unit := repeated (fun _ => b.sees q) (fun _ => bump) ()

-- ---- runs that end inside the buffer ----

structure Sound (finish : Nat) (s s' : State σ) : Prop where
  forward : s.pos ≤ s'.pos
  inside : s'.pos ≤ finish
  logged : ∃ done, s'.log = s.log ++ done ∧ ∀ access ∈ done, access.Within finish

variable {finish : Nat} {s s' s'' : State σ}

theorem Sound.refl (inside : s.pos ≤ finish) : Sound finish s s :=
  ⟨Nat.le_refl _, inside, [], (List.append_nil _).symm, fun _ member => absurd member List.not_mem_nil⟩

theorem Sound.trans (first : Sound finish s s') (second : Sound finish s' s'') : Sound finish s s'' := by
  obtain ⟨done, logged, within⟩ := first.logged
  obtain ⟨done', logged', within'⟩ := second.logged
  refine ⟨Nat.le_trans first.forward second.forward, second.inside, done ++ done', ?_, ?_⟩
  · rw [logged', logged, List.append_assoc]
  · intro access member
    cases List.mem_append.mp member with
    | inl earlier => exact within access earlier
    | inr later => exact within' access later

theorem Sound.one (access : Access) (forward : s.pos ≤ s'.pos) (inside : s'.pos ≤ finish)
    (logged : s'.log = s.log ++ [access]) (within : access.Within finish) : Sound finish s s' :=
  ⟨forward, inside, [access], logged, fun _ member => List.mem_singleton.mp member ▸ within⟩

-- From any log the program comes back, has done nothing that is not within the
-- buffer, and leaves its value, the cursor and the data as Q says.
def Runs (finish : Nat) (m : Scan σ α) (pos : Nat) (data : σ) (Q : α → Nat → σ → Prop) : Prop :=
  ∀ log, ∃ a s', m ⟨pos, data, log⟩ = some (a, s') ∧ Sound finish ⟨pos, data, log⟩ s' ∧ Q a s'.pos s'.data

variable {pos : Nat} {data : σ} {Q : α → Nat → σ → Prop}

theorem runs_pure (a : α) (inside : pos ≤ finish) (here : Q a pos data) : Runs finish (pure a) pos data Q :=
  fun log => ⟨a, ⟨pos, data, log⟩, rfl, Sound.refl inside, here⟩

theorem runs_bind {γ : Type} {m : Scan σ γ} {k : γ → Scan σ α}
    (first : Runs finish m pos data (fun c i d => Runs finish (k c) i d Q)) : Runs finish (m >>= k) pos data Q := by
  intro log
  obtain ⟨c, s, ran, sound, rest⟩ := first log
  obtain ⟨a, s', ran', sound', after⟩ := rest s.log
  refine ⟨a, s', ?_, sound.trans sound', after⟩
  calc
    (m >>= k) ⟨pos, data, log⟩ = (m ⟨pos, data, log⟩).bind (fun r => k r.1 r.2) := rfl
    _ = some (a, s') := by rw [ran]; exact ran'

theorem runs_mono {m : Scan σ α} {P : α → Nat → σ → Prop} (run : Runs finish m pos data P)
    (implies : ∀ a i d, pos ≤ i → i ≤ finish → P a i d → Q a i d) : Runs finish m pos data Q := by
  intro log
  obtain ⟨a, s, ran, sound, after⟩ := run log
  exact ⟨a, s, ran, sound, implies a s.pos s.data sound.forward sound.inside after⟩

theorem runs_then {γ : Type} {m : Scan σ γ} {k : γ → Scan σ α} {P : γ → Nat → σ → Prop}
    (first : Runs finish m pos data P) (rest : ∀ c i d, pos ≤ i → i ≤ finish → P c i d → Runs finish (k c) i d Q) :
    Runs finish (m >>= k) pos data Q :=
  runs_bind (runs_mono first rest)

theorem runs_inside {m : Scan σ α} (run : Runs finish m 0 data Q) :
    ∃ a s, m ⟨0, data, []⟩ = some (a, s) ∧ s.pos ≤ finish ∧ (∀ access ∈ s.log, access.Within finish) ∧
      Q a s.pos s.data := by
  obtain ⟨a, s, ran, sound, after⟩ := run []
  obtain ⟨done, logged, within⟩ := sound.logged
  rw [List.nil_append] at logged
  exact ⟨a, s, ran, sound.inside, logged ▸ within, after⟩

theorem runs_position (inside : pos ≤ finish) {Q : Nat → Nat → σ → Prop} (here : Q pos pos data) :
    Runs finish position pos data Q :=
  fun log => ⟨pos, ⟨pos, data, log⟩, rfl, Sound.refl inside, here⟩

theorem runs_current (inside : pos ≤ finish) {Q : σ → Nat → σ → Prop} (here : Q data pos data) :
    Runs finish current pos data Q :=
  fun log => ⟨data, ⟨pos, data, log⟩, rfl, Sound.refl inside, here⟩

theorem runs_assign (written : σ) (inside : pos ≤ finish) {Q : Unit → Nat → σ → Prop} (here : Q () pos written) :
    Runs finish (assign written) pos data Q := by
  refine fun log => ⟨(), ⟨pos, written, log⟩, rfl, ?_, here⟩
  exact ⟨Nat.le_refl _, inside, [], (List.append_nil _).symm, fun _ member => absurd member List.not_mem_nil⟩

theorem runs_load {b : Buffer β} {index : Nat} {Q : β → Nat → σ → Prop} (below : index < b.finish)
    (inside : pos ≤ b.finish) (here : Q (b.cells index) pos data) : Runs b.finish (b.load index) pos data Q :=
  fun log => ⟨b.cells index, ⟨pos, data, log ++ [.read index]⟩, rfl,
    Sound.one (.read index) (Nat.le_refl _) inside rfl below, here⟩

theorem runs_bump {Q : Unit → Nat → σ → Prop} (below : pos < finish) (here : Q () (pos + 1) data) :
    Runs finish bump pos data Q :=
  fun log => ⟨(), ⟨pos + 1, data, log ++ [.move pos (pos + 1)]⟩, rfl,
    Sound.one (.move pos (pos + 1)) (Nat.le_succ pos) below rfl ⟨Nat.le_succ pos, below⟩, here⟩

theorem runs_lap {before : Nat} {Q : Unit → Nat → σ → Prop} (advanced : before < pos) (inside : pos ≤ finish)
    (here : Q () pos data) : Runs finish (lap before) pos data Q :=
  fun log => ⟨(), ⟨pos, data, log ++ [.lap before pos]⟩, rfl,
    Sound.one (.lap before pos) (Nat.le_refl _) inside rfl advanced, here⟩

section Buffer

variable {b : Buffer β}

theorem runs_deref {Q : β → Nat → σ → Prop} (below : pos < b.finish) (here : Q (b.cells pos) pos data) :
    Runs b.finish b.deref pos data Q := by
  have inside := Nat.le_of_lt below
  exact runs_bind (runs_position inside (runs_load below inside here))

theorem runs_next {Q : β → Nat → σ → Prop} (below : pos < b.finish) (here : Q (b.cells pos) (pos + 1) data) :
    Runs b.finish b.next pos data Q := by
  apply runs_bind
  apply runs_deref below
  apply runs_bind
  apply runs_bump below
  exact runs_pure (b.cells pos) below here

theorem runs_more {Q : Bool → Nat → σ → Prop} (inside : pos ≤ b.finish) (here : Q (decide (pos < b.finish)) pos data) :
    Runs b.finish b.more pos data Q :=
  runs_bind (runs_position inside (runs_pure _ inside here))

theorem runs_sees {q : β → Bool} {Q : Bool → Nat → σ → Prop} (inside : pos ≤ b.finish)
    (yes : pos < b.finish → q (b.cells pos) = true → Q true pos data)
    (no : (pos < b.finish → q (b.cells pos) = false) → Q false pos data) : Runs b.finish (b.sees q) pos data Q := by
  apply runs_bind
  apply runs_more inside
  by_cases below : pos < b.finish
  · rw [if_pos (decide_eq_true below)]
    apply runs_bind
    apply runs_deref below
    apply runs_pure _ inside
    cases found : q (b.cells pos) with
    | true => exact yes below found
    | false => exact no (fun _ => found)
  · rw [if_neg (by simpa using below)]
    exact runs_pure _ inside (no (fun reached => absurd reached below))

-- What is left from index on.
def Buffer.left (b : Buffer β) (index : Nat) : List β := (List.range' index (b.finish - index)).map b.cells

theorem left_here {index : Nat} (below : index < b.finish) : b.left index = b.cells index :: b.left (index + 1) := by
  have size : b.finish - index = b.finish - (index + 1) + 1 := by omega
  rw [Buffer.left, size, List.range'_succ, List.map_cons, Buffer.left]

theorem left_finish {index : Nat} (past : b.finish ≤ index) : b.left index = [] := by
  rw [Buffer.left, Nat.sub_eq_zero_of_le past]
  rfl

theorem left_length (index : Nat) : (b.left index).length = b.finish - index := by
  rw [Buffer.left, List.length_map, List.length_range']

end Buffer

-- ---- loops ----

-- A body either leaves with Q or comes back, having advanced, to where Inv holds.
def Round (Q : Except ε α → Nat → σ → Prop) (Inv : α → Nat → σ → Prop) (before : Nat) : Except ε α → Nat → σ → Prop
  | .error e, i, d => Q (.error e) i d
  | .ok a, i, d => before < i ∧ Inv a i d

-- Inv holds at the head of a turn. Each turn advances the cursor, so what is left
-- of the buffer bounds the turns.
theorem while_runs {w : While ε α σ} {Q : Except ε α → Nat → σ → Prop} (Inv : α → Nat → σ → Prop)
    (turn : ∀ a i d, i ≤ finish → Inv a i d → Runs finish (w.cond a) i d (fun go j d' =>
      (go = false → Q (.ok a) j d') ∧ (go = true → Runs finish (w.body a) j d' (Round Q Inv j))))
    (a : α) (inside : pos ≤ finish) (start : Inv a pos data) : Runs finish (w.run a) pos data Q := by
  induction left : finish - pos using Nat.strongRecOn generalizing a pos data with
  | ind left ih =>
      rw [While.run]
      apply runs_then (turn a pos data inside start)
      intro go j d forward inside' outcome
      cases go with
      | false => exact runs_pure _ inside' (outcome.1 rfl)
      | true =>
          apply runs_bind
          apply runs_position inside'
          apply runs_then (outcome.2 rfl)
          intro r k d' _ inside'' round
          cases r with
          | error e => exact runs_pure _ inside'' round
          | ok a' =>
              have advanced : j < k := round.1
              apply runs_bind
              apply runs_lap advanced inside''
              exact ih (finish - k) (by omega) a' inside'' round.2 rfl

theorem repeated_runs {cond : α → Scan σ Bool} {body : α → Scan σ α} (Inv : α → Nat → σ → Prop)
    (turn : ∀ a i d, i ≤ finish → Inv a i d → Runs finish (cond a) i d (fun go j d' =>
      (go = false → Q a j d') ∧ (go = true → Runs finish (body a) j d' (fun a' k d'' => j < k ∧ Inv a' k d''))))
    (a : α) (inside : pos ≤ finish) (start : Inv a pos data) : Runs finish (repeated cond body a) pos data Q := by
  have whole : Runs finish (While.run { cond, body := fun a => do return (.ok (← body a) : Except α α) } a) pos data
      (fun r i d => ∃ a', r = .ok a' ∧ Q a' i d) := by
    apply while_runs Inv
    · intro a i d inside inv
      apply runs_mono (turn a i d inside inv)
      intro go j d' _ _ outcome
      refine ⟨fun stop => ⟨a, rfl, outcome.1 stop⟩, fun again => ?_⟩
      apply runs_then (outcome.2 again)
      intro a' k d'' _ inside' kept
      exact runs_pure _ inside' kept
    · exact inside
    · exact start
  apply runs_then whole
  intro r i d _ inside' ended
  obtain ⟨a', rfl, after⟩ := ended
  exact runs_pure a' inside' after

section Skip

variable {b : Buffer β}

theorem skip_runs (q : β → Bool) (inside : pos ≤ b.finish) :
    Runs b.finish (b.skip q) pos data (fun _ i d => d = data ∧ b.left i = (b.left pos).dropWhile q) := by
  apply repeated_runs (fun _ i d => d = data ∧ (b.left i).dropWhile q = (b.left pos).dropWhile q)
  · intro _ i d inside inv
    apply runs_sees inside
    · intro below found
      refine ⟨fun stop => Bool.noConfusion stop, fun _ => runs_bump below ⟨Nat.lt_succ_self i, inv.1, ?_⟩⟩
      rw [← inv.2, left_here below, List.dropWhile_cons_of_pos found]
    · intro stopped
      refine ⟨fun _ => ⟨inv.1, ?_⟩, fun go => Bool.noConfusion go⟩
      rw [← inv.2]
      by_cases below : i < b.finish
      · rw [left_here below, List.dropWhile_cons_of_neg (by simp [stopped below])]
      · rw [left_finish (Nat.le_of_not_lt below), List.dropWhile_nil]
  · exact inside
  · exact ⟨rfl, rfl⟩

theorem copy_runs (start count : Nat) (fits : start + count ≤ b.finish) (inside : pos ≤ b.finish) :
    Runs b.finish (b.copy start count) pos data (fun l i d => i = pos ∧ d = data ∧
      b.left start = l ++ b.left (start + count)) := by
  induction count generalizing start with
  | zero => exact runs_pure [] inside ⟨rfl, rfl, rfl⟩
  | succ count ih =>
      rw [Buffer.copy]
      apply runs_bind
      apply runs_load (by omega) inside
      apply runs_then (ih (start + 1) (by omega))
      rintro l i d _ inside' ⟨rfl, rfl, copied⟩
      refine runs_pure _ inside' ⟨rfl, rfl, ?_⟩
      rw [left_here (by omega), copied, List.cons_append, Nat.add_right_comm, Nat.add_assoc]

end Skip

end Scanner
