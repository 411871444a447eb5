import Color.History

set_option autoImplicit false

namespace Color

structure BufferedResponse where
  seq : Nat
  payload : Payload
  hash : Hash
deriving DecidableEq, Repr

structure Checkpoint where
  committedUpto : Nat := 0
  eventCount : Nat := 0
  historyHash : Hash := 0
  buffer : List BufferedResponse := []
deriving DecidableEq, Repr

-- resp_buffer_ is an unordered_map: a checkpoint may list its entries in any order.
structure Walk where
  order : List (Nat × Payload) → List (Nat × Payload)
  permutes : ∀ rows, (order rows).Perm rows

def Walk.ascending : Walk := ⟨id, fun rows => .refl rows⟩

structure ReplayEvent where
  isResponse : Bool
  seq : Nat
  payload : Payload := []
  hash : Hash := 0
deriving DecidableEq, Repr

def ReplayEvent.event (e : ReplayEvent) : Event := ⟨e.isResponse, e.seq⟩

-- "from" is a keyword here; the position is an event index, not a seq.
structure Replay where
  fromIndex : Nat := 0
  events : List ReplayEvent := []
deriving DecidableEq, Repr

end Color
