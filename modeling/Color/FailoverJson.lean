import Color.Checkpoint
import Color.Parser

set_option autoImplicit false

namespace Color

-- ---- serialization ----

-- The digit characters 0-9 and a-f.
def hex (d : UInt8) : UInt8 := if d < 10 then ch '0' + d else ch 'a' + (d - 10)

def escape (c : UInt8) : List UInt8 :=
  if c = kQuote then [kBackslash, kQuote]
  else if c = kBackslash then [kBackslash, kBackslash]
  else if c = ch '\n' then [kBackslash, ch 'n']
  else if c = ch '\r' then [kBackslash, ch 'r']
  else if c = ch '\t' then [kBackslash, ch 't']
  else if c < 0x20 then [kBackslash, ch 'u', ch '0', ch '0', hex ((c >>> 4) &&& 0xf), hex (c &&& 0xf)]
  else [c]

def appendEscaped (out s : List UInt8) : List UInt8 := out ++ [kQuote] ++ s.flatMap escape ++ [kQuote]

-- for (i = 0; ...) { if (i) s += ','; s += element; }
def joined : List (List UInt8) → List UInt8
  | [] => []
  | [element] => element
  | element :: next :: rest => element ++ ch ',' :: joined (next :: rest)

def BufferedResponse.toJson (b : BufferedResponse) : List UInt8 :=
  appendEscaped (text "\x7b\"seq\":" ++ decimal b.seq ++ text ",\"payload\":") b.payload ++
    text ",\"hash\":" ++ decimal b.hash.toNat ++ text "\x7d"

def Checkpoint.toJson (cp : Checkpoint) : List UInt8 :=
  text "\x7b\"version\":1" ++
    text ",\"committed_upto\":" ++ decimal cp.committedUpto ++
    text ",\"event_count\":" ++ decimal cp.eventCount ++
    text ",\"history_hash\":" ++ decimal cp.historyHash.toNat ++
    text ",\"buffer\":[" ++ joined (cp.buffer.map BufferedResponse.toJson) ++ text "]\x7d"

def ReplayEvent.toJson (e : ReplayEvent) : List UInt8 :=
  text "\x7b\"t\":\"" ++ (if e.isResponse then text "r" else text "R") ++ text "\"" ++
    text ",\"seq\":" ++ decimal e.seq ++
    (if e.isResponse then appendEscaped (text ",\"payload\":") e.payload ++ text ",\"hash\":" ++ decimal e.hash.toNat
      else []) ++
    text "\x7d"

def Replay.toJson (rp : Replay) : List UInt8 :=
  text "\x7b\"from\":" ++ decimal rp.fromIndex ++ text ",\"events\":[" ++
    joined (rp.events.map ReplayEvent.toJson) ++ text "]\x7d"

-- ---- decoding ----

-- A member: its name, a colon and what follows it.
def Parser.keyed {α : Type} (p : Parser) (out : α) (value : List UInt8 → Parser → Except α (α × Parser)) :
    Except α (α × Parser) :=
  let (k, p) := p.parseString
  match p.eat (ch ':') with
  | (false, _) => .error out
  | (true, p) => value k p

def BufferedResponse.value (b : BufferedResponse) (k : List UInt8) (p : Parser) :
    Except BufferedResponse (BufferedResponse × Parser) :=
  if k = text "seq" then .ok ({ b with seq := p.parseU64.1 }, p.parseU64.2)
  else if k = text "payload" then .ok ({ b with payload := p.parseString.1 }, p.parseString.2)
  else if k = text "hash" then .ok ({ b with hash := p.parseU64.1.toUInt64 }, p.parseU64.2)
  else .ok (b, p.skipValue)

def BufferedResponse.field (b : BufferedResponse) (p : Parser) : Except BufferedResponse (BufferedResponse × Parser) :=
  p.keyed b b.value

def Checkpoint.element (out : Checkpoint) (p : Parser) : Except Checkpoint (Checkpoint × Parser) :=
  match p.enclosed (ch '{') (ch '}') BufferedResponse.field ⟨0, [], 0⟩ with
  | .error _ => .error out
  | .ok (b, p) => .ok ({ out with buffer := out.buffer ++ [b] }, p)

def Checkpoint.value (out : Checkpoint) (key : List UInt8) (p : Parser) : Except Checkpoint (Checkpoint × Parser) :=
  if key = text "committed_upto" then .ok ({ out with committedUpto := p.parseU64.1 }, p.parseU64.2)
  else if key = text "event_count" then .ok ({ out with eventCount := p.parseU64.1 }, p.parseU64.2)
  else if key = text "history_hash" then .ok ({ out with historyHash := p.parseU64.1.toUInt64 }, p.parseU64.2)
  else if key = text "buffer" then p.enclosed (ch '[') (ch ']') Checkpoint.element out
  else .ok (out, p.skipValue)

def Checkpoint.field (out : Checkpoint) (p : Parser) : Except Checkpoint (Checkpoint × Parser) := p.keyed out out.value

-- The return value and what out holds by then, also where the result is false.
def fromJsonCheckpoint (input : List UInt8) : Bool × Checkpoint :=
  match Parser.enclosed ⟨input, true⟩ (ch '{') (ch '}') Checkpoint.field {} with
  | .error out => (false, out)
  | .ok (out, p) => (p.ok, out)

def ReplayEvent.value (e : ReplayEvent) (k : List UInt8) (p : Parser) : Except ReplayEvent (ReplayEvent × Parser) :=
  if k = text "t" then .ok ({ e with isResponse := p.parseString.1 = text "r" }, p.parseString.2)
  else if k = text "seq" then .ok ({ e with seq := p.parseU64.1 }, p.parseU64.2)
  else if k = text "payload" then .ok ({ e with payload := p.parseString.1 }, p.parseString.2)
  else if k = text "hash" then .ok ({ e with hash := p.parseU64.1.toUInt64 }, p.parseU64.2)
  else .ok (e, p.skipValue)

def ReplayEvent.field (e : ReplayEvent) (p : Parser) : Except ReplayEvent (ReplayEvent × Parser) := p.keyed e e.value

def Replay.element (out : Replay) (p : Parser) : Except Replay (Replay × Parser) :=
  match p.enclosed (ch '{') (ch '}') ReplayEvent.field ⟨false, 0, [], 0⟩ with
  | .error _ => .error out
  | .ok (e, p) => .ok ({ out with events := out.events ++ [e] }, p)

def Replay.value (out : Replay) (key : List UInt8) (p : Parser) : Except Replay (Replay × Parser) :=
  if key = text "from" then .ok ({ out with fromIndex := p.parseU64.1 }, p.parseU64.2)
  else if key = text "events" then p.enclosed (ch '[') (ch ']') Replay.element out
  else .ok (out, p.skipValue)

def Replay.field (out : Replay) (p : Parser) : Except Replay (Replay × Parser) := p.keyed out out.value

def fromJsonReplay (input : List UInt8) : Bool × Replay :=
  match Parser.enclosed ⟨input, true⟩ (ch '{') (ch '}') Replay.field {} with
  | .error out => (false, out)
  | .ok (out, p) => (p.ok, out)

end Color
