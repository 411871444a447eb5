import Color.Parser
import Color.Server

set_option autoImplicit false

namespace Color

-- The verdict and the failures it rests on.
structure CheckResult where
  ok : Bool
  failures : List (List UInt8)
  grounded : ok = failures.isEmpty

def CheckResult.clean : CheckResult := ⟨true, [], rfl⟩

def CheckResult.require (r : CheckResult) (cond : Bool) (msg : List UInt8) : CheckResult :=
  if cond then r else ⟨false, r.failures ++ [msg], by simp⟩

-- The loop over the common part of the two histories, up to its break.
def divergence : Nat → List Event → List Event → Option (Nat × Event × Event)
  | i, s :: sh, c :: ch => if s ≠ c then some (i, s, c) else divergence (i + 1) sh ch
  | _, _, _ => none

def CheckResult.requireSafety (r : CheckResult) (sh ch : List Event) : CheckResult :=
  let r := r.require (sh.length ≤ ch.length)
    (text "server history longer than client history (" ++ decimal sh.length ++ text " > " ++ decimal ch.length ++ text ")")
  match divergence 0 sh ch with
  | some (i, s, c) =>
      r.require false
        (text "history divergence at event " ++ decimal i ++ text ": server=" ++ s.str ++ text " client=" ++ c.str)
  | none => r

def CheckResult.requireOnce (r : CheckResult) (row : Nat × Nat) : CheckResult :=
  r.require (row.2 == 1) (text "seq " ++ decimal row.1 ++ text " processed " ++ decimal row.2 ++ text " times (want 1)")

def CheckResult.requireAnswer (received : Finset Nat) (r : CheckResult) (s : Nat) : CheckResult :=
  r.require (decide (s ∈ received)) (text "request " ++ decimal s ++ text " never answered")

def CheckResult.requireBound (r : CheckResult) (name : List UInt8) (value bound : Nat) : CheckResult :=
  r.require (value ≤ bound) (name ++ text " max " ++ decimal value ++ text " exceeds bound " ++ decimal bound)

def checkRun (client : Client) (server : Server) (hashMismatches bound : Nat) (hadFailover : Bool) : CheckResult :=
  let r := CheckResult.clean
  let r := if hadFailover then r else r.requireSafety server.history.events client.history.events
  let r := r.require (client.history.curHash == server.history.curHash) (text "final history hash mismatch (client vs server)")
  let r := r.require (hashMismatches == 0) (text "hash mismatches detected: " ++ decimal hashMismatches)
  let up := server.committedUpto
  let r :=
    if hadFailover then r
    else r.require (server.appCalls.size == up)
      (text "app_calls size " ++ decimal server.appCalls.size ++ text " != committed_upto " ++ decimal up)
  let r := server.appCalls.toList.foldl CheckResult.requireOnce r
  let issued := client.nextSeq - 1
  let r := r.require (server.committedUpto == issued)
    (text "committed_upto " ++ decimal server.committedUpto ++ text " != issued " ++ decimal issued)
  let r := (List.range' 1 issued).foldl (CheckResult.requireAnswer client.received) r
  let r := r.requireBound (text "resp buffer") server.maxRespBuffer bound
  let r := r.requireBound (text "pending staging") server.maxPending bound
  r.requireBound (text "ack-new") client.maxAckNew bound

-- ---- what a passing run has ----

@[simp] theorem require_ok (r : CheckResult) (cond : Bool) (msg : List UInt8) :
    (r.require cond msg).ok = (r.ok && cond) := by
  cases cond <;> simp [CheckResult.require]

theorem require_all_ok {α : Type} (check : CheckResult → α → CheckResult) (good : α → Bool)
    (one : ∀ r x, (check r x).ok = (r.ok && good x)) (rows : List α) (r : CheckResult) :
    (rows.foldl check r).ok = (r.ok && rows.all good) := by
  induction rows generalizing r with
  | nil => simp
  | cons x rest ih => rw [List.foldl_cons, ih, one, List.all_cons, Bool.and_assoc]

theorem divergence_none (i : Nat) (sh ch : List Event) :
    divergence i sh ch = none ↔ sh <+: ch ∨ ch <+: sh := by
  induction sh generalizing i ch with
  | nil => simp [divergence]
  | cons s sh ih =>
      cases ch with
      | nil => simp [divergence]
      | cons c ch =>
          rw [divergence]
          by_cases same : s = c
          · rw [if_neg (not_not.mpr same), ih, same, List.prefix_cons_inj, List.prefix_cons_inj]
          · simp [same, Ne.symm same, List.cons_prefix_cons]

-- The server's history is an exact prefix of the client's.
theorem require_safety_ok (r : CheckResult) (sh ch : List Event) :
    (r.requireSafety sh ch).ok = true ↔ r.ok = true ∧ sh <+: ch := by
  have prefix_ : divergence 0 sh ch = none ∧ sh.length ≤ ch.length ↔ sh <+: ch := by
    rw [divergence_none]
    constructor
    · rintro ⟨either, short⟩
      cases either with
      | inl within => exact within
      | inr reverse => exact (reverse.eq_of_length (Nat.le_antisymm reverse.length_le short)) ▸ List.prefix_refl _
    · exact fun within => ⟨Or.inl within, within.length_le⟩
  rw [CheckResult.requireSafety, ← prefix_]
  cases found : divergence 0 sh ch with
  | none => simp
  | some parts => simp

structure Passes (client : Client) (server : Server) (hashMismatches bound : Nat) (hadFailover : Bool) : Prop where
  safety : hadFailover = false → server.history.events <+: client.history.events
  hash : client.history.curHash = server.history.curHash
  silent : hashMismatches = 0
  called : hadFailover = false → server.appCalls.size = server.committedUpto
  once : ∀ row ∈ server.appCalls.toList, row.2 = 1
  committed : server.committedUpto = client.nextSeq - 1
  answered : ∀ s, 1 ≤ s → s ≤ client.nextSeq - 1 → s ∈ client.received
  buffer : server.maxRespBuffer ≤ bound
  pending : server.maxPending ≤ bound
  ackNew : client.maxAckNew ≤ bound

theorem check_run_ok_iff (client : Client) (server : Server) (hashMismatches bound : Nat) (hadFailover : Bool) :
    (checkRun client server hashMismatches bound hadFailover).ok = true ↔
      Passes client server hashMismatches bound hadFailover := by
  have once : ∀ (r : CheckResult) (row : Nat × Nat), (r.requireOnce row).ok = (r.ok && row.2 == 1) :=
    fun r row => require_ok _ _ _
  have answer : ∀ (r : CheckResult) (s : Nat),
      (CheckResult.requireAnswer client.received r s).ok = (r.ok && decide (s ∈ client.received)) :=
    fun r s => require_ok _ _ _
  have issued : (∀ s ∈ List.range' 1 (client.nextSeq - 1), s ∈ client.received) ↔
      ∀ s, 1 ≤ s → s ≤ client.nextSeq - 1 → s ∈ client.received := by
    simp only [List.mem_range'_1]
    exact ⟨fun all s low high => all s ⟨low, by omega⟩, fun all s range => all s range.1 (by omega)⟩
  have bounds : ∀ (r : CheckResult) (name : List UInt8) (value : Nat),
      (r.requireBound name value bound).ok = (r.ok && decide (value ≤ bound)) := fun r name value => require_ok _ _ _
  have clean : CheckResult.clean.ok = true := rfl
  rw [checkRun]
  simp only [bounds, require_all_ok _ _ answer, require_all_ok _ _ once, require_ok, Bool.and_eq_true,
    decide_eq_true_eq, beq_iff_eq, List.all_eq_true, issued]
  cases hadFailover with
  | true =>
      simp only [if_true, require_ok, clean, Bool.and_eq_true, beq_iff_eq, true_and]
      constructor
      · rintro ⟨⟨⟨⟨⟨⟨⟨hash, silent⟩, calls⟩, committed⟩, answered⟩, buffer⟩, pending⟩, ackNew⟩
        exact ⟨by simp, hash, silent, by simp, calls, committed, answered, buffer, pending, ackNew⟩
      · exact fun p => ⟨⟨⟨⟨⟨⟨⟨p.hash, p.silent⟩, p.once⟩, p.committed⟩, p.answered⟩, p.buffer⟩, p.pending⟩, p.ackNew⟩
  | false =>
      simp only [Bool.false_eq_true, if_false, require_ok, require_safety_ok, clean, Bool.and_eq_true, beq_iff_eq, true_and]
      constructor
      · rintro ⟨⟨⟨⟨⟨⟨⟨⟨⟨safety, hash⟩, silent⟩, size⟩, calls⟩, committed⟩, answered⟩, buffer⟩, pending⟩, ackNew⟩
        exact ⟨fun _ => safety, hash, silent, fun _ => size, calls, committed, answered, buffer, pending, ackNew⟩
      · exact fun p => ⟨⟨⟨⟨⟨⟨⟨⟨⟨p.safety rfl, p.hash⟩, p.silent⟩, p.called rfl⟩, p.once⟩, p.committed⟩, p.answered⟩,
          p.buffer⟩, p.pending⟩, p.ackNew⟩

end Color
