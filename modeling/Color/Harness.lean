import Color.Checker
import Color.SimLink
import Color.System

set_option autoImplicit false

namespace Color

structure Config (P : Type) where
  seeds : Nat := 100
  baseSeed : UInt64 := 1
  genSteps : Nat := 2000
  parallel : Nat := 8
  rate : P
  drop : P
  dup : P
  maxLatency : Int := 5
  rto : Nat := 6
  failovers : Nat := 0
  ckptInterval : Nat := 40

-- What run_one holds: the generator, the two links, the clock, both endpoints
-- and the checkpoint the next failover restores.
structure World (P G : Type) where
  rng : G
  c2s : SimLink P Request
  s2c : SimLink P Response
  now : Nat := 0
  hashMismatches : Nat := 0
  client : Client
  server : Server
  lastCkpt : Checkpoint
  failoversDone : Nat := 0
  lastSend : SeqMap Nat := ∅

variable {P G : Type}

def Config.link (cfg : Config P) : LinkConfig P :=
  { pDrop := cfg.drop, pDup := cfg.dup, minLatency := 1, maxLatency := cfg.maxLatency }

-- uint64_t and size_t arithmetic
def wrapped (n : Int) : Nat := (n % 2 ^ 64).toNat

def Config.failoverStep (cfg : Config P) (k : Nat) : Nat :=
  wrapped (cfg.genSteps * (k + 1)) / wrapped (cfg.failovers + 1)

def Config.drainCap (cfg : Config P) : Nat := wrapped (cfg.genSteps * 50 + 100000)

def Config.bound (cfg : Config P) : Nat := wrapped (4 * (cfg.parallel + cfg.maxLatency) + 16)

def srvApp (now : Nat) : AppFn := fun seq _ _ => text "srv-ts=" ++ decimal now ++ text ";seq=" ++ decimal seq

def cliPayload (now : Nat) (n : UInt64) : Payload :=
  text "cli-ts=" ++ decimal now ++ text ";n=" ++ decimal (n &&& 0xffff).toNat

def World.start (pf : Platform P G) (seed : UInt64) (cfg : Config P) : World P G :=
  { rng := pf.seeded seed
    c2s := { cfg := cfg.link }
    s2c := { cfg := cfg.link }
    client := .fresh true
    server := .start none true
    lastCkpt := (Server.start none true).checkpoint .ascending }

def World.sendRequest (pf : Platform P G) (w : World P G) (r : Request) : World P G :=
  let (link, rng) := w.c2s.send pf w.now r w.rng
  { w with c2s := link, rng := rng, lastSend := w.lastSend.insert r.seq w.now }

def World.sendResponse (pf : Platform P G) (w : World P G) (resp : Response) : World P G :=
  let (link, rng) := w.s2c.send pf w.now resp w.rng
  { w with s2c := link, rng := rng }

-- for (int j = 0; j < want && out < cfg.parallel; ++j), want - j turns before its end
def World.arrive (pf : Platform P G) (cfg : Config P) : Nat → Nat → World P G → World P G
  | 0, _, w => w
  | left + 1, out, w =>
      if out < cfg.parallel then
        let (n, rng) := pf.draw w.rng
        let (r, client) := w.client.generateRequest (cliPayload w.now n)
        World.arrive pf cfg left (out + 1) ({ w with rng := rng, client := client }.sendRequest pf r)
      else w

def World.generate (pf : Platform P G) (cfg : Config P) (w : World P G) : World P G :=
  let (want, rng) := pf.arrivals cfg.rate w.rng
  World.arrive pf cfg want.toNat w.client.outstanding.length { w with rng := rng }

def World.retry (pf : Platform P G) (cfg : Config P) (w : World P G) (s : Nat) : World P G :=
  if w.now - w.lastSend[s]?.getD 0 ≥ cfg.rto then
    match w.client.frozen s with
    | some r => w.sendRequest pf r
    | none => w
  else w

def World.retransmit (pf : Platform P G) (cfg : Config P) (w : World P G) : World P G :=
  (pf.walk w.rng w.client.outstanding).foldl (World.retry pf cfg) w

def World.handle (pf : Platform P G) (w : World P G) (req : Request) : World P G :=
  let (server, out) := harnessExchange w.client (srvApp w.now) req w.server
  out.responses.foldl (World.sendResponse pf)
    { w with server := server, hashMismatches := w.hashMismatches + out.mismatches.length }

def World.serve (pf : Platform P G) (w : World P G) : World P G :=
  let (reqs, link) := w.c2s.due w.now
  reqs.foldl (World.handle pf) { w with c2s := link }

def World.accept (w : World P G) (resp : Response) : World P G :=
  let (receipt, client) := w.client.onResponse resp
  { w with client := client, hashMismatches := w.hashMismatches + receipt.mismatch.toList.length }

def World.receive (w : World P G) : World P G :=
  let (resps, link) := w.s2c.due w.now
  resps.foldl World.accept { w with s2c := link }

def World.step (pf : Platform P G) (cfg : Config P) (generating : Bool) (w : World P G) : World P G :=
  let w := if generating then w.generate pf cfg else w
  ((w.retransmit pf cfg).serve pf).receive

def World.refresh (pf : Platform P G) (cfg : Config P) (i : Nat) (w : World P G) : World P G :=
  if cfg.ckptInterval ≠ 0 ∧ i % cfg.ckptInterval = 0 then
    { w with lastCkpt := w.server.checkpoint (pf.entries w.rng) }
  else w

def World.failover (cfg : Config P) (i : Nat) (w : World P G) : World P G :=
  if w.failoversDone < cfg.failovers ∧ i = cfg.failoverStep w.failoversDone then
    { w with server := .ofCheckpoint w.lastCkpt true, failoversDone := w.failoversDone + 1 }
  else w

-- One turn of the generation loop, ++now included.
def World.turn (pf : Platform P G) (cfg : Config P) (w : World P G) (i : Nat) : World P G :=
  let w := ((w.step pf cfg true).refresh pf cfg i).failover cfg i
  { w with now := w.now + 1 }

def World.generation (pf : Platform P G) (cfg : Config P) (w : World P G) : World P G :=
  (List.range cfg.genSteps).foldl (World.turn pf cfg) w

def World.done (w : World P G) : Bool := w.client.outstanding.isEmpty && w.c2s.empty && w.s2c.empty

def World.tick (pf : Platform P G) (cfg : Config P) (w : World P G) : World P G :=
  let w := w.step pf cfg false
  { w with now := w.now + 1 }

-- while (drained < drain_cap), drain_cap - drained turns before its end
def World.drain (pf : Platform P G) (cfg : Config P) : Nat → World P G → World P G
  | 0, w => w
  | left + 1, w => if w.done then w else World.drain pf cfg left (w.tick pf cfg)

structure RunStats where
  result : CheckResult
  steps : Nat
  issued : Nat
  reqSent : Nat
  reqDropped : Nat
  reqDup : Nat
  rspSent : Nat
  rspDropped : Nat
  rspDup : Nat
  maxRespBuffer : Nat
  maxPending : Nat
  maxAckNew : Nat

def World.stats (cfg : Config P) (w : World P G) : RunStats :=
  { result := checkRun w.client w.server w.hashMismatches cfg.bound (cfg.failovers > 0)
    steps := w.now
    issued := w.client.nextSeq - 1
    reqSent := w.c2s.sent
    reqDropped := w.c2s.dropped
    reqDup := w.c2s.duplicated
    rspSent := w.s2c.sent
    rspDropped := w.s2c.dropped
    rspDup := w.s2c.duplicated
    maxRespBuffer := w.server.maxRespBuffer
    maxPending := w.server.maxPending
    maxAckNew := w.client.maxAckNew }

@[simp] theorem stats_steps (cfg : Config P) (w : World P G) : (w.stats cfg).steps = w.now := rfl

@[simp] theorem stats_result (cfg : Config P) (w : World P G) :
    (w.stats cfg).result = checkRun w.client w.server w.hashMismatches cfg.bound (cfg.failovers > 0) := rfl

def World.final (pf : Platform P G) (seed : UInt64) (cfg : Config P) : World P G :=
  ((World.start pf seed cfg).generation pf cfg).drain pf cfg cfg.drainCap

def runOne (pf : Platform P G) (seed : UInt64) (cfg : Config P) : RunStats := (World.final pf seed cfg).stats cfg

-- The seeds of a run without a time budget, and what main returns for them.
def runSeeds (pf : Platform P G) (cfg : Config P) : List RunStats :=
  (List.range cfg.seeds).map (fun k => runOne pf (cfg.baseSeed + k.toUInt64) cfg)

def exitCode (runs : List RunStats) : Nat := if runs.countP (fun st => !st.result.ok) = 0 then 0 else 1

end Color
