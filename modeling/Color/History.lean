import Color.Message
import Color.Library.Numerals

set_option autoImplicit false

namespace Color

structure Event where
  isResponse : Bool
  seq : Nat
deriving DecidableEq, Repr

abbrev Event.request (seq : Nat) : Event := ⟨false, seq⟩
abbrev Event.response (seq : Nat) : Event := ⟨true, seq⟩

-- std::to_string on an unsigned integer.
abbrev decimal (n : Nat) : List UInt8 := Numerals.written n

def Event.str (e : Event) : List UInt8 :=
  (if e.isResponse then 'r' else 'R').toNat.toUInt8 :: decimal e.seq

def kFnvOffsetBasis : Hash := 1469598103934665603
def kFnvPrime : Hash := 1099511628211
-- "color/v1" and ':'
def kSeedLabel : List UInt8 := ['c', 'o', 'l', 'o', 'r', '/', 'v', '1'].map (fun c => c.toNat.toUInt8)
def kSeparator : UInt8 := ':'.toNat.toUInt8

def fnvMix (h : Hash) (b : UInt8) : Hash := (h ^^^ b.toUInt64) * kFnvPrime

def hashSeed : Hash := kSeedLabel.foldl fnvMix kFnvOffsetBasis

def prevByte (prev : Hash) (i : Nat) : UInt8 := ((prev >>> (8 * i).toUInt64) &&& 0xff).toUInt8

-- Irreducible: only the facts about single steps look inside.
@[irreducible]
def hashStep (prev : Hash) (e : Event) : Hash :=
  let folded := (List.range 8).foldl (fun h i => fnvMix h (prevByte prev i)) prev
  e.str.foldl fnvMix (fnvMix folded kSeparator)

def rollingFrom (h : Hash) (events : List Event) : Hash := events.foldl hashStep h
def rolling (events : List Event) : Hash := rollingFrom hashSeed events

theorem rolling_append (a b : List Event) : rolling (a ++ b) = rollingFrom (rolling a) b := by
  simp [rolling, rollingFrom, List.foldl_append]

structure History where
  events : List Event := []
  curHash : Hash := hashSeed
  baseCount : Nat := 0
deriving DecidableEq, Repr

-- Resume from a checkpoint: the settled prefix is only its hash and its length.
def History.resume (resumedHash : Hash) (baseCount : Nat) : History :=
  { curHash := resumedHash, baseCount := baseCount }

def History.append (h : History) (e : Event) : History :=
  { h with events := h.events ++ [e], curHash := hashStep h.curHash e }

def History.eventCount (h : History) : Nat := h.baseCount + h.events.length

def History.appendAll (h : History) (es : List Event) : History := es.foldl History.append h

@[simp] theorem append_all_nil (h : History) : h.appendAll [] = h := rfl

@[simp] theorem append_all_cons (h : History) (e : Event) (es : List Event) :
    h.appendAll (e :: es) = (h.append e).appendAll es := rfl

@[simp] theorem append_all_events (h : History) (es : List Event) :
    (h.appendAll es).events = h.events ++ es := by
  induction es generalizing h with
  | nil => simp
  | cons e tail ih => simp [ih, History.append, List.append_assoc]

@[simp] theorem append_all_hash (h : History) (es : List Event) :
    (h.appendAll es).curHash = rollingFrom h.curHash es := by
  induction es generalizing h with
  | nil => rfl
  | cons e tail ih => simp only [append_all_cons, ih, rollingFrom, List.foldl_cons, History.append]

@[simp] theorem append_all_base (h : History) (es : List Event) :
    (h.appendAll es).baseCount = h.baseCount := by
  induction es generalizing h with
  | nil => rfl
  | cons e tail ih => exact ih (h.append e)

-- The loop over ack_new followed by the request's own event, on either side.
def History.commitRequest (h : History) (ackNew : List Nat) (seq : Nat) : History :=
  (ackNew.foldl (fun acc i => acc.append (.response i)) h).append (.request seq)

def commitEvents (ackNew : List Nat) (seq : Nat) : List Event :=
  ackNew.map Event.response ++ [Event.request seq]

theorem commit_request_append_all (h : History) (ackNew : List Nat) (seq : Nat) :
    h.commitRequest ackNew seq = h.appendAll (commitEvents ackNew seq) := by
  simp [History.commitRequest, commitEvents, History.appendAll, List.foldl_append, List.foldl_map]

end Color
