import Color.FailoverJson
import Color.Library.Scanner

set_option autoImplicit false

namespace Color

open Scanner (Scan While bump position current assign repeated)

-- ---- the parser over memory, with its cursor p and its reads ----

-- The text is the cells below finish. The cells from there on hold anything, and
-- so does an int that leaves its range.
structure Machine extends Scanner.Buffer UInt8 where
  overflow : Int → Int

def Machine.holding (input : List UInt8) (beyond : Nat → UInt8) (overflow : Int → Int) : Machine :=
  { cells := fun i => input.getD i (beyond i), finish := input.length, overflow }

def Machine.int (m : Machine) (n : Int) : Int := if -2 ^ 31 ≤ n ∧ n < 2 ^ 31 then n else m.overflow n

def Machine.ws (m : Machine) : Scan Bool Unit := m.skip isBlank

def Machine.eat (m : Machine) (c : UInt8) : Scan Bool Bool := do
  m.ws
  if ← m.sees (· = c) then
    bump
    return true
  else
    assign false
    return false

def Machine.peek (m : Machine) (c : UInt8) : Scan Bool Bool := do
  m.ws
  m.sees (· = c)

-- After the backslash, with a byte left for what it escapes.
def Machine.escaped (m : Machine) (s : List UInt8) : Scan Bool (List UInt8) := do
  let e ← m.next
  if e = ch 'u' then
    if m.finish - (← position) ≥ 4 then
      let h₁ ← m.next
      let h₂ ← m.next
      let h₃ ← m.next
      let h₄ ← m.next
      return s ++ unicode [h₁, h₂, h₃, h₄]
    else return s
  else return s ++ [unescape e]

def Machine.stringTurn (m : Machine) (s : List UInt8) : Scan Bool (List UInt8) := do
  let c ← m.next
  if c = kBackslash ∧ (← m.more) then m.escaped s else return s ++ [c]

def Machine.closeQuote (m : Machine) : Scan Bool Unit := do
  if ← m.sees (· = kQuote) then bump else assign false

def Machine.parseString (m : Machine) : Scan Bool (List UInt8) := do
  if ← m.eat kQuote then
    let s ← repeated (fun _ => m.sees (· ≠ kQuote)) m.stringTurn []
    m.closeQuote
    return s
  else return []

def Machine.parseU64 (m : Machine) : Scan Bool Nat := do
  m.ws
  let start ← position
  m.skip isNumeral
  return Numerals.strtoull (← m.copy start ((← position) - start))

-- A turn of the loop inside brackets; its value is depth.
def Machine.nestedTurn (m : Machine) (opened close : UInt8) (depth : Int) : Scan Bool Int := do
  let b ← m.deref
  if b = kQuote then
    let _ ← m.parseString
    return depth
  else
    bump
    return if b = opened then m.int (depth + 1) else if b = close then m.int (depth - 1) else depth

def Machine.skipNested (m : Machine) (opened close : UInt8) : Scan Bool Unit := do
  bump
  let _ ← repeated (fun depth => do return (← m.more) && decide (0 < depth)) (m.nestedTurn opened close) (1 : Int)

def Machine.skipValue (m : Machine) : Scan Bool Unit := do
  m.ws
  if ← m.more then
    let b ← m.deref
    if b = kQuote then
      let _ ← m.parseString
    else if b = ch '{' then m.skipNested b (ch '}')
    else if b = ch '[' then m.skipNested b (ch ']')
    else m.skip (fun b => !endsValue b)
  else assign false

-- while (!p.peek(close) && p.ok) { item; if (!p.peek(close)) p.eat(','); }
def Machine.members {α : Type} (m : Machine) (close : UInt8) (item : α → Scan Bool (Except α α)) : While α α Bool where
  cond _ := do
    if ← m.peek close then return false else current
  body out := do
    match ← item out with
    | .error out => return .error out
    | .ok out =>
        if ← m.peek close then return .ok out
        else
          let _ ← m.eat (ch ',')
          return .ok out

def Machine.enclosed {α : Type} (m : Machine) (opened close : UInt8) (item : α → Scan Bool (Except α α)) (out : α) :
    Scan Bool (Except α α) := do
  if ← m.eat opened then
    match ← (m.members close item).run out with
    | .error out => return .error out
    | .ok out =>
        let _ ← m.eat close
        return .ok out
  else return .error out

-- key = p.parse_string(); if (!p.eat(':')) return false; and the value under the key.
def Machine.keyed {α : Type} (m : Machine) (out : α) (value : List UInt8 → Scan Bool (Except α α)) :
    Scan Bool (Except α α) := do
  let k ← m.parseString
  if ← m.eat (ch ':') then value k else return .error out

-- An element of an array is an object read into a fresh record.
def Machine.stored {α β : Type} (m : Machine) (field : β → Scan Bool (Except β β)) (fresh : β) (out : α)
    (store : β → α) : Scan Bool (Except α α) := do
  match ← m.enclosed (ch '{') (ch '}') field fresh with
  | .error _ => return .error out
  | .ok x => return .ok (store x)

-- The text as a whole: the return value and out.
def Machine.decoded {α : Type} (m : Machine) (field : α → Scan Bool (Except α α)) (out : α) : Scan Bool (Bool × α) := do
  match ← m.enclosed (ch '{') (ch '}') field out with
  | .error out => return (false, out)
  | .ok out => return (← current, out)

-- ---- the two decoders ----

def Machine.responseField (m : Machine) (b : BufferedResponse) : Scan Bool (Except BufferedResponse BufferedResponse) :=
  m.keyed b fun k => do
    if k = text "seq" then return .ok { b with seq := ← m.parseU64 }
    else if k = text "payload" then return .ok { b with payload := ← m.parseString }
    else if k = text "hash" then return .ok { b with hash := (← m.parseU64).toUInt64 }
    else
      m.skipValue
      return .ok b

def Machine.checkpointElement (m : Machine) (out : Checkpoint) : Scan Bool (Except Checkpoint Checkpoint) :=
  m.stored m.responseField ⟨0, [], 0⟩ out fun b => { out with buffer := out.buffer ++ [b] }

def Machine.checkpointField (m : Machine) (out : Checkpoint) : Scan Bool (Except Checkpoint Checkpoint) :=
  m.keyed out fun key => do
    if key = text "committed_upto" then return .ok { out with committedUpto := ← m.parseU64 }
    else if key = text "event_count" then return .ok { out with eventCount := ← m.parseU64 }
    else if key = text "history_hash" then return .ok { out with historyHash := (← m.parseU64).toUInt64 }
    else if key = text "buffer" then m.enclosed (ch '[') (ch ']') m.checkpointElement out
    else
      m.skipValue
      return .ok out

def Machine.fromJsonCheckpoint (m : Machine) : Scan Bool (Bool × Checkpoint) := m.decoded m.checkpointField {}

def Machine.eventField (m : Machine) (e : ReplayEvent) : Scan Bool (Except ReplayEvent ReplayEvent) :=
  m.keyed e fun k => do
    if k = text "t" then return .ok { e with isResponse := (← m.parseString) = text "r" }
    else if k = text "seq" then return .ok { e with seq := ← m.parseU64 }
    else if k = text "payload" then return .ok { e with payload := ← m.parseString }
    else if k = text "hash" then return .ok { e with hash := (← m.parseU64).toUInt64 }
    else
      m.skipValue
      return .ok e

def Machine.replayElement (m : Machine) (out : Replay) : Scan Bool (Except Replay Replay) :=
  m.stored m.eventField ⟨false, 0, [], 0⟩ out fun e => { out with events := out.events ++ [e] }

def Machine.replayField (m : Machine) (out : Replay) : Scan Bool (Except Replay Replay) :=
  m.keyed out fun key => do
    if key = text "from" then return .ok { out with fromIndex := ← m.parseU64 }
    else if key = text "events" then m.enclosed (ch '[') (ch ']') m.replayElement out
    else
      m.skipValue
      return .ok out

def Machine.fromJsonReplay (m : Machine) : Scan Bool (Bool × Replay) := m.decoded m.replayField {}

end Color
