import Mathlib
import Color.Checkpoint

set_option autoImplicit false

namespace Color

-- unordered_map<Seq, T>. Iteration here is by ascending key; the source leaves
-- the order open, and nothing below depends on it.
abbrev SeqMap (T : Type) := Std.ExtTreeMap Nat T

structure Client where
  setHash : Bool
  nextSeq : Nat := 1
  base : Nat := 1
  received : Finset Nat := ∅
  receivedPayload : SeqMap Payload := ∅
  pendingNew : List Nat := []
  reqHash : SeqMap Hash := ∅
  inflight : SeqMap Request := ∅
  history : History := {}
  sent : Nat := 0
  maxAckNew : Nat := 0

def Client.generateRequest (c : Client) (p : Payload) : Request × Client :=
  let seq := c.nextSeq
  let newAcks := c.pendingNew
  let history := c.history.commitRequest newAcks seq
  let h := history.curHash
  let r : Request :=
    { seq := seq, ackBase := c.base, ackNew := newAcks, hash := if c.setHash then some h else none, payload := p }
  (r, { c with
    nextSeq := seq + 1
    pendingNew := []
    maxAckNew := if newAcks.length > c.maxAckNew then newAcks.length else c.maxAckNew
    history := history
    reqHash := c.reqHash.insert seq h
    inflight := c.inflight.insert seq r
    sent := c.sent + 1 })

-- while (received_.count(base_)) ++base_; the set has at most fuel ids from base on.
def lowWater (received : Finset Nat) : Nat → Nat → Nat
  | 0, base => base
  | fuel + 1, base => if base ∈ received then lowWater received fuel (base + 1) else base

def advanceBase (received : Finset Nat) (base : Nat) : Nat := lowWater received received.card base

-- What one on_response call reports: its return value, the deliver_ callback
-- and the on_mismatch_ callback.
structure Receipt where
  first : Bool
  delivered : Option (Nat × Payload) := none
  mismatch : Option Mismatch := none
deriving DecidableEq, Repr

def Client.onResponse (c : Client) (resp : Response) : Receipt × Client :=
  if resp.seq ∈ c.received then ({ first := false }, c)
  else
    let mismatch := if c.setHash then hashMismatch resp.seq resp.hash c.reqHash[resp.seq]? else none
    let received := insert resp.seq c.received
    ({ first := true, delivered := if resp.noOp then none else some (resp.seq, resp.payload), mismatch := mismatch },
     { c with
       received := received
       pendingNew := if resp.noOp then c.pendingNew else c.pendingNew ++ [resp.seq]
       receivedPayload := if resp.noOp then c.receivedPayload else c.receivedPayload.insert resp.seq resp.payload
       base := advanceBase received c.base
       inflight := c.inflight.erase resp.seq })

def Client.replayEvent (c : Client) (e : Event) : ReplayEvent :=
  { isResponse := e.isResponse
    seq := e.seq
    payload := if e.isResponse then c.receivedPayload[e.seq]?.getD [] else []
    hash := if e.isResponse then c.reqHash[e.seq]?.getD 0 else 0 }

def Client.buildReplay (c : Client) (fromIndex : Nat) : Replay :=
  { fromIndex := fromIndex, events := (c.history.events.drop fromIndex).map c.replayEvent }

def Client.outstanding (c : Client) : List Nat := c.inflight.keys

-- frozen(seq) is inflight_.at(seq): there is one for each outstanding id.
def Client.frozen (c : Client) (seq : Nat) : Option Request := c.inflight[seq]?

def Client.resend (c : Client) : List Request := c.outstanding.filterMap c.frozen

def Client.receive (c : Client) (responses : List Response) : Client :=
  responses.foldl (fun c resp => (c.onResponse resp).2) c

theorem low_water_stops (received : Finset Nat) (fuel : Nat) (base : Nat)
    (enough : (received.filter (base ≤ ·)).card ≤ fuel) : lowWater received fuel base ∉ received := by
  induction fuel generalizing base with
  | zero =>
      intro member
      have counted : base ∈ received.filter (base ≤ ·) := by simpa [lowWater] using member
      have positive := Finset.card_pos.mpr ⟨base, counted⟩
      omega
  | succ fuel ih =>
      rw [lowWater]
      split
      · rename_i member
        apply ih (base + 1)
        have smaller : received.filter (base + 1 ≤ ·) ⊂ received.filter (base ≤ ·) := by
          rw [Finset.ssubset_iff_of_subset (Finset.monotone_filter_right _ (fun i _ above => by omega))]
          exact ⟨base, by simp [member], by simp⟩
        have less := Finset.card_lt_card smaller
        omega
      · assumption

theorem low_water_passed (received : Finset Nat) (fuel : Nat) (base : Nat) :
    base ≤ lowWater received fuel base ∧ ∀ i, base ≤ i → i < lowWater received fuel base → i ∈ received := by
  induction fuel generalizing base with
  | zero => exact ⟨Nat.le_refl _, fun i above below => absurd below (by simp only [lowWater]; omega)⟩
  | succ fuel ih =>
      rw [lowWater]
      split
      · rename_i member
        obtain ⟨above, passed⟩ := ih (base + 1)
        refine ⟨by omega, fun i low high => ?_⟩
        by_cases here : i = base
        · exact here ▸ member
        · exact passed i (by omega) high
      · exact ⟨Nat.le_refl _, fun i low high => absurd high (by omega)⟩

theorem advance_base_stops (received : Finset Nat) (base : Nat) : advanceBase received base ∉ received :=
  low_water_stops received _ base (Finset.card_filter_le _ _)

theorem advance_base_passed (received : Finset Nat) (base : Nat) :
    base ≤ advanceBase received base ∧ ∀ i, base ≤ i → i < advanceBase received base → i ∈ received :=
  low_water_passed received _ base

end Color
