import Color.Checkpoint
import Color.Library.Multimap
import Mathlib.Data.UInt

set_option autoImplicit false

namespace Color

-- What the harness leaves to its platform: the generator seeded once a run, the
-- distributions drawn from it, and the orders in which a hash table gives its
-- keys and a checkpoint its entries. Results hold for every platform; P is the
-- type of the probabilities.
structure Platform (P G : Type) where
  seeded : UInt64 → G
  draw : G → UInt64 × G
  bernoulli : P → G → Bool × G
  arrivals : P → G → Int × G
  walk : G → List Nat → List Nat
  walked : ∀ rng ids, (walk rng ids).Perm ids
  entries : G → Walk

-- The source's latencies are ints; a smallest one below zero is left out, and a
-- tick is a natural number: 64 bits of them do not run out.
structure LinkConfig (P : Type) where
  pDrop : P
  pDup : P
  minLatency : Nat := 1
  maxLatency : Int := 5

structure SimLink (P M : Type) where
  cfg : LinkConfig P
  queue : List (Nat × M) := []
  sent : Nat := 0
  dropped : Nat := 0
  duplicated : Nat := 0
  delivered : Nat := 0

variable {P G M : Type}

def LinkConfig.span (cfg : LinkConfig P) : Int := cfg.maxLatency - cfg.minLatency

-- The last tick a message offered now can be scheduled for.
def LinkConfig.slowest (cfg : LinkConfig P) : Nat := cfg.minLatency + cfg.span.toNat

def SimLink.schedule (pf : Platform P G) (now : Nat) (m : M) (link : SimLink P M) (rng : G) : SimLink P M × G :=
  let (extra, rng) :=
    if link.cfg.span > 0 then
      let (n, rng) := pf.draw rng
      (n.toNat % (link.cfg.span.toNat + 1), rng)
    else (0, rng)
  ({ link with queue := Multimap.emplace (now + link.cfg.minLatency + extra) m link.queue }, rng)

def SimLink.send (pf : Platform P G) (now : Nat) (m : M) (link : SimLink P M) (rng : G) : SimLink P M × G :=
  let offered := { link with sent := link.sent + 1 }
  let (drop, rng) := pf.bernoulli link.cfg.pDrop rng
  if drop then ({ offered with dropped := link.dropped + 1 }, rng)
  else
    let (once, rng) := offered.schedule pf now m rng
    let (dup, rng) := pf.bernoulli link.cfg.pDup rng
    if dup then SimLink.schedule pf now m { once with duplicated := once.duplicated + 1 } rng else (once, rng)

def SimLink.due (now : Nat) (link : SimLink P M) : List M × SimLink P M :=
  let out := Multimap.upto now link.queue
  (out.map Prod.snd,
    { link with queue := Multimap.beyond now link.queue, delivered := link.delivered + out.length })

def SimLink.empty (link : SimLink P M) : Bool := link.queue.isEmpty

def SimLink.setConfig (cfg : LinkConfig P) (link : SimLink P M) : SimLink P M := { link with cfg := cfg }

-- What one send did: nothing but the count of a loss, or one or two copies
-- put on the link, each with its own delay.
inductive Sent (now : Nat) (m : M) (link next : SimLink P M) : Prop where
  | lost (same : next = { link with sent := link.sent + 1, dropped := link.dropped + 1 })
  | once (tick : Nat) (early : now + link.cfg.minLatency ≤ tick) (late : tick ≤ now + link.cfg.slowest)
      (same : next = { link with sent := link.sent + 1, queue := Multimap.emplace tick m link.queue })
  | twice (tick again : Nat) (early : now + link.cfg.minLatency ≤ tick) (late : tick ≤ now + link.cfg.slowest)
      (earlyAgain : now + link.cfg.minLatency ≤ again) (lateAgain : again ≤ now + link.cfg.slowest)
      (same : next = { link with
        sent := link.sent + 1
        duplicated := link.duplicated + 1
        queue := Multimap.emplace again m (Multimap.emplace tick m link.queue) })

theorem schedule_tick (pf : Platform P G) (now : Nat) (m : M) (link : SimLink P M) (rng : G) :
    ∃ tick, now + link.cfg.minLatency ≤ tick ∧ tick ≤ now + link.cfg.slowest ∧
      (link.schedule pf now m rng).1 = { link with queue := Multimap.emplace tick m link.queue } := by
  by_cases spread : link.cfg.span > 0
  · refine ⟨now + link.cfg.minLatency + (pf.draw rng).1.toNat % (link.cfg.span.toNat + 1), by omega, ?_, ?_⟩
    · have bounded : (pf.draw rng).1.toNat % (link.cfg.span.toNat + 1) ≤ link.cfg.span.toNat :=
        Nat.lt_succ_iff.mp (Nat.mod_lt _ (Nat.succ_pos _))
      rw [LinkConfig.slowest, ← Nat.add_assoc]
      exact Nat.add_le_add_left bounded _
    · simp [SimLink.schedule, spread]
  · exact ⟨now + link.cfg.minLatency, Nat.le_refl _, by rw [LinkConfig.slowest]; omega, by simp [SimLink.schedule, spread]⟩

theorem send_effect (pf : Platform P G) (now : Nat) (m : M) (link : SimLink P M) (rng : G) :
    Sent now m link (link.send pf now m rng).1 := by
  cases drop : (pf.bernoulli link.cfg.pDrop rng).1 with
  | true => exact .lost (by simp [SimLink.send, drop])
  | false =>
      obtain ⟨tick, early, late, first⟩ :=
        schedule_tick pf now m { link with sent := link.sent + 1 } (pf.bernoulli link.cfg.pDrop rng).2
      cases dup : (pf.bernoulli link.cfg.pDup
          ({ link with sent := link.sent + 1 }.schedule pf now m (pf.bernoulli link.cfg.pDrop rng).2).2).1 with
      | false => exact .once tick early late (by simp [SimLink.send, drop, dup, first])
      | true =>
          obtain ⟨again, earlyAgain, lateAgain, second⟩ := schedule_tick pf now m
            { link with
              sent := link.sent + 1
              queue := Multimap.emplace tick m link.queue
              duplicated := link.duplicated + 1 }
            (pf.bernoulli link.cfg.pDup
              ({ link with sent := link.sent + 1 }.schedule pf now m (pf.bernoulli link.cfg.pDrop rng).2).2).2
          exact .twice tick again early late earlyAgain lateAgain (by simp [SimLink.send, drop, dup, first, second])

theorem send_queue (pf : Platform P G) (now : Nat) (m : M) (link : SimLink P M) (rng : G) (entry : Nat × M)
    (member : entry ∈ (link.send pf now m rng).1.queue) :
    entry ∈ link.queue ∨ entry.2 = m ∧ now + link.cfg.minLatency ≤ entry.1 ∧ entry.1 ≤ now + link.cfg.slowest := by
  cases send_effect pf now m link rng with
  | lost same =>
      rw [same] at member
      exact Or.inl member
  | once tick early late same =>
      rw [same] at member
      cases (Multimap.mem_emplace _ _ _ _).mp member with
      | inl new => exact Or.inr (new ▸ ⟨rfl, early, late⟩)
      | inr old => exact Or.inl old
  | twice tick again early late earlyAgain lateAgain same =>
      rw [same] at member
      cases (Multimap.mem_emplace _ _ _ _).mp member with
      | inl new => exact Or.inr (new ▸ ⟨rfl, earlyAgain, lateAgain⟩)
      | inr rest =>
          cases (Multimap.mem_emplace _ _ _ _).mp rest with
          | inl new => exact Or.inr (new ▸ ⟨rfl, early, late⟩)
          | inr old => exact Or.inl old

theorem mem_due (now : Nat) (link : SimLink P M) (ordered : Multimap.Ordered link.queue) (entry : Nat × M)
    (queued : entry ∈ link.queue) (early : entry.1 ≤ now) : entry.2 ∈ (link.due now).1 := by
  refine List.mem_map.mpr ⟨entry, ((Multimap.mem_split now _ entry).mp queued).resolve_right (fun later => ?_), rfl⟩
  have late := Multimap.beyond_later now _ ordered entry later
  omega

theorem due_queued (now : Nat) (link : SimLink P M) (m : M) (due : m ∈ (link.due now).1) :
    ∃ entry ∈ link.queue, entry.2 = m ∧ entry.1 ≤ now := by
  obtain ⟨entry, early, same⟩ := List.mem_map.mp due
  exact ⟨entry, (Multimap.mem_split now _ entry).mpr (Or.inl early), same, Multimap.upto_bounded now _ entry early⟩

-- A send leaves what is queued in place, and only a loss keeps the message off the link.
structure Grown (now : Nat) (m : M) (link next : SimLink P M) : Prop where
  cfg : next.cfg = link.cfg
  ordered : Multimap.Ordered link.queue → Multimap.Ordered next.queue
  kept : ∀ entry ∈ link.queue, entry ∈ next.queue
  outcome : link.dropped < next.dropped ∨ next.dropped = link.dropped ∧
    ∃ entry ∈ next.queue, entry.2 = m ∧ now + link.cfg.minLatency ≤ entry.1 ∧ entry.1 ≤ now + link.cfg.slowest

theorem send_grown (pf : Platform P G) (now : Nat) (m : M) (link : SimLink P M) (rng : G) :
    Grown now m link (link.send pf now m rng).1 := by
  cases send_effect pf now m link rng with
  | lost same =>
      rw [same]
      exact ⟨rfl, fun ordered => ordered, fun entry member => member, Or.inl (Nat.lt_succ_self _)⟩
  | once tick early late same =>
      rw [same]
      refine ⟨rfl, Multimap.emplace_ordered _ _ _, fun entry member => ?_, Or.inr ⟨rfl, (tick, m), ?_, rfl, early, late⟩⟩
      · exact (Multimap.mem_emplace _ _ _ _).mpr (Or.inr member)
      · exact (Multimap.mem_emplace _ _ _ _).mpr (Or.inl rfl)
  | twice tick again early late earlyAgain lateAgain same =>
      rw [same]
      refine ⟨rfl, fun ordered => Multimap.emplace_ordered _ _ _ (Multimap.emplace_ordered _ _ _ ordered),
        fun entry member => ?_, Or.inr ⟨rfl, (again, m), ?_, rfl, earlyAgain, lateAgain⟩⟩
      · exact (Multimap.mem_emplace _ _ _ _).mpr (Or.inr ((Multimap.mem_emplace _ _ _ _).mpr (Or.inr member)))
      · exact (Multimap.mem_emplace _ _ _ _).mpr (Or.inl rfl)

-- ---- what a link keeps, whatever is called on it ----

inductive LinkOp (P M : Type) where
  | send (now : Nat) (m : M)
  | due (now : Nat)
  | setConfig (cfg : LinkConfig P)

-- A link in use: what due handed out so far, each with the tick of the call.
structure LinkRun (P G M : Type) where
  link : SimLink P M
  rng : G
  out : List (Nat × M) := []

def LinkRun.apply (pf : Platform P G) (run : LinkRun P G M) : LinkOp P M → LinkRun P G M
  | .send now m =>
      let (link, rng) := run.link.send pf now m run.rng
      { run with link := link, rng := rng }
  | .due now =>
      let (out, link) := run.link.due now
      { run with link := link, out := run.out ++ out.map (fun m => (now, m)) }
  | .setConfig cfg => { run with link := run.link.setConfig cfg }

def LinkRun.after (pf : Platform P G) (cfg : LinkConfig P) (rng : G) (ops : List (LinkOp P M)) : LinkRun P G M :=
  ops.foldl (LinkRun.apply pf) { link := { cfg := cfg }, rng := rng }

def LinkOp.offer : LinkOp P M → Option (Nat × M)
  | .send now m => some (now, m)
  | .due _ => none
  | .setConfig _ => none

def LinkConfig.Within (low high : Nat) (cfg : LinkConfig P) : Prop := low ≤ cfg.minLatency ∧ cfg.slowest ≤ high

def LinkOp.Within (low high : Nat) : LinkOp P M → Prop
  | .setConfig cfg => cfg.Within low high
  | .send _ _ => True
  | .due _ => True

-- Every copy on the link or handed out is one of at most two of an offer, and
-- is due between the least and the greatest delay after it.
structure LinkInv [DecidableEq M] (low high : Nat) (offered : List (Nat × M)) (run : LinkRun P G M) : Prop where
  ordered : Multimap.Ordered run.link.queue
  config : run.link.cfg.Within low high
  sent : run.link.sent = offered.length
  balance : run.link.sent + run.link.duplicated = run.link.dropped + run.link.delivered + run.link.queue.length
  handed : run.link.delivered = run.out.length
  losses : run.link.dropped + run.link.duplicated ≤ run.link.sent
  queued : ∀ entry ∈ run.link.queue, ∃ u, (u, entry.2) ∈ offered ∧ u + low ≤ entry.1 ∧ entry.1 ≤ u + high
  copies : ∀ m, (run.out.map Prod.snd).count m + (run.link.queue.map Prod.snd).count m ≤
    2 * (offered.map Prod.snd).count m
  timely : ∀ copy ∈ run.out, ∃ u, (u, copy.2) ∈ offered ∧ u + low ≤ copy.1

-- A copy put on the link for an offer at this tick.
theorem queued_put (low high now tick : Nat) (m : M) (offered : List (Nat × M)) (cfg : LinkConfig P)
    (queue : List (Nat × M)) (within : cfg.Within low high) (early : now + cfg.minLatency ≤ tick)
    (late : tick ≤ now + cfg.slowest) (listed : (now, m) ∈ offered)
    (queued : ∀ entry ∈ queue, ∃ u, (u, entry.2) ∈ offered ∧ u + low ≤ entry.1 ∧ entry.1 ≤ u + high) :
    ∀ entry ∈ Multimap.emplace tick m queue, ∃ u, (u, entry.2) ∈ offered ∧ u + low ≤ entry.1 ∧ entry.1 ≤ u + high := by
  intro entry member
  obtain ⟨least, most⟩ := within
  cases (Multimap.mem_emplace tick m queue entry).mp member with
  | inl new =>
      rw [new]
      exact ⟨now, listed, by omega, by omega⟩
  | inr old => exact queued entry old

theorem count_put [DecidableEq M] (tick : Nat) (m other : M) (queue : List (Nat × M)) :
    ((Multimap.emplace tick m queue).map Prod.snd).count other = (queue.map Prod.snd).count other + [m].count other := by
  have same := ((Multimap.emplace_perm tick m queue).map Prod.snd).count_eq other
  rw [same, List.map_cons, List.count_cons, List.count_singleton]

theorem link_inv_send [DecidableEq M] (pf : Platform P G) (low high now : Nat) (m : M) (offered : List (Nat × M))
    (run : LinkRun P G M) (inv : LinkInv low high offered run) :
    LinkInv low high (offered ++ [(now, m)]) (run.apply pf (.send now m)) := by
  have listed : (now, m) ∈ offered ++ [(now, m)] := List.mem_append_right _ (List.mem_singleton.mpr rfl)
  have queued : ∀ entry ∈ run.link.queue, ∃ u, (u, entry.2) ∈ offered ++ [(now, m)] ∧ u + low ≤ entry.1 ∧
      entry.1 ≤ u + high := by
    intro entry member
    obtain ⟨u, inside, rest⟩ := inv.queued entry member
    exact ⟨u, List.mem_append_left _ inside, rest⟩
  have timely : ∀ copy ∈ run.out, ∃ u, (u, copy.2) ∈ offered ++ [(now, m)] ∧ u + low ≤ copy.1 := by
    intro copy member
    obtain ⟨u, inside, rest⟩ := inv.timely copy member
    exact ⟨u, List.mem_append_left _ inside, rest⟩
  have offers : ∀ other : M, ((offered ++ [(now, m)]).map Prod.snd).count other =
      (offered.map Prod.snd).count other + [m].count other := by simp [List.count_append]
  have sent := inv.sent
  have balance := inv.balance
  have losses := inv.losses
  cases send_effect pf now m run.link run.rng with
  | lost same =>
      refine ⟨?_, ?_, ?_, ?_, ?_, ?_, ?_, ?_, timely⟩ <;> simp only [LinkRun.apply, same]
      · exact inv.ordered
      · exact inv.config
      · simp [sent]
      · omega
      · exact inv.handed
      · omega
      · exact queued
      · intro other
        have before := inv.copies other
        rw [offers]
        omega
  | once tick early late same =>
      refine ⟨?_, ?_, ?_, ?_, ?_, ?_, ?_, ?_, timely⟩ <;> simp only [LinkRun.apply, same]
      · exact Multimap.emplace_ordered _ _ _ inv.ordered
      · exact inv.config
      · simp [sent]
      · rw [Multimap.emplace_length]
        omega
      · exact inv.handed
      · omega
      · exact queued_put low high now tick m _ run.link.cfg _ inv.config early late listed queued
      · intro other
        have before := inv.copies other
        rw [offers, count_put]
        omega
  | twice tick again early late earlyAgain lateAgain same =>
      refine ⟨?_, ?_, ?_, ?_, ?_, ?_, ?_, ?_, timely⟩ <;> simp only [LinkRun.apply, same]
      · exact Multimap.emplace_ordered _ _ _ (Multimap.emplace_ordered _ _ _ inv.ordered)
      · exact inv.config
      · simp [sent]
      · rw [Multimap.emplace_length, Multimap.emplace_length]
        omega
      · exact inv.handed
      · omega
      · exact queued_put low high now again m _ run.link.cfg _ inv.config earlyAgain lateAgain listed
          (queued_put low high now tick m _ run.link.cfg _ inv.config early late listed queued)
      · intro other
        have before := inv.copies other
        rw [offers, count_put, count_put]
        omega

theorem link_inv_due [DecidableEq M] (pf : Platform P G) (low high now : Nat) (offered : List (Nat × M))
    (run : LinkRun P G M) (inv : LinkInv low high offered run) :
    LinkInv low high offered (run.apply pf (.due now)) := by
  have split := Multimap.upto_append_beyond now run.link.queue
  have lengths := congrArg List.length split
  rw [List.length_append] at lengths
  have balance := inv.balance
  refine ⟨Multimap.beyond_ordered now _ inv.ordered, inv.config, inv.sent, ?_, ?_, inv.losses, ?_, ?_, ?_⟩
  · simp only [LinkRun.apply, SimLink.due]
    omega
  · simp [LinkRun.apply, SimLink.due, inv.handed]
  · exact fun entry member => inv.queued entry ((Multimap.mem_split now _ entry).mpr (Or.inr member))
  · intro other
    have before := inv.copies other
    rw [← split, List.map_append, List.count_append] at before
    have handed : (run.apply pf (.due now)).out.map Prod.snd =
        run.out.map Prod.snd ++ (Multimap.upto now run.link.queue).map Prod.snd := by
      simp [LinkRun.apply, SimLink.due, Function.comp_def]
    rw [handed, List.count_append]
    simp only [LinkRun.apply, SimLink.due]
    omega
  · intro copy member
    cases List.mem_append.mp member with
    | inl old => exact inv.timely copy old
    | inr new =>
        obtain ⟨m, due, eq⟩ := List.mem_map.mp new
        obtain ⟨entry, early, value⟩ := List.mem_map.mp due
        obtain ⟨u, listed, least, _⟩ := inv.queued entry ((Multimap.mem_split now _ entry).mpr (Or.inl early))
        have bounded := Multimap.upto_bounded now _ entry early
        rw [← eq, ← value]
        exact ⟨u, listed, Nat.le_trans least bounded⟩

theorem link_inv_after [DecidableEq M] (pf : Platform P G) (low high : Nat) (cfg : LinkConfig P) (rng : G)
    (ops : List (LinkOp P M)) (first : cfg.Within low high) (later : ∀ op ∈ ops, op.Within low high) :
    LinkInv low high (ops.filterMap LinkOp.offer) (LinkRun.after pf cfg rng ops) := by
  induction ops using List.reverseRecOn with
  | nil => constructor <;> simp [LinkRun.after, first, Multimap.Ordered]
  | append_singleton before op ih =>
      have inv := ih (fun op member => later op (List.mem_append_left _ member))
      rw [LinkRun.after, List.foldl_append, List.foldl_cons, List.foldl_nil, List.filterMap_append]
      cases op with
      | send now m => exact link_inv_send pf low high now m _ _ inv
      | due now =>
          rw [show [LinkOp.due now].filterMap (LinkOp.offer : LinkOp P M → _) = [] from rfl, List.append_nil]
          exact link_inv_due pf low high now _ _ inv
      | setConfig replaced =>
          have within : replaced.Within low high := later (.setConfig replaced) (by simp)
          rw [show [LinkOp.setConfig replaced].filterMap (LinkOp.offer : LinkOp P M → _) = [] from rfl, List.append_nil]
          exact ⟨inv.ordered, within, inv.sent, inv.balance, inv.handed, inv.losses, inv.queued, inv.copies, inv.timely⟩

-- Over any calls: no copy is lost track of, none comes out that was not put in,
-- at most two for each offer and none before its time; and right after a call
-- of due, what stays on the link was offered less than the greatest delay ago.
theorem link_accounts [DecidableEq M] (pf : Platform P G) (low high : Nat) (cfg : LinkConfig P) (rng : G)
    (ops : List (LinkOp P M)) (first : cfg.Within low high) (later : ∀ op ∈ ops, op.Within low high) :
    let run := LinkRun.after pf cfg rng ops
    let offered := ops.filterMap LinkOp.offer
    (run.link.sent = offered.length ∧
      run.link.sent + run.link.duplicated = run.link.dropped + run.out.length + run.link.queue.length) ∧
    (∀ m, (run.out.map Prod.snd).count m + (run.link.queue.map Prod.snd).count m ≤ 2 * (offered.map Prod.snd).count m) ∧
    (∀ copy ∈ run.out, ∃ u, (u, copy.2) ∈ offered ∧ u + low ≤ copy.1) ∧
    ∀ now, ∀ entry ∈ (run.apply pf (.due now)).link.queue, ∃ u, (u, entry.2) ∈ offered ∧ now < u + high := by
  have inv := link_inv_after pf low high cfg rng ops first later
  refine ⟨⟨inv.sent, ?_⟩, inv.copies, inv.timely, ?_⟩
  · rw [← inv.handed]
    exact inv.balance
  · intro now entry member
    obtain ⟨inside, late⟩ := (Multimap.mem_beyond_iff now _ inv.ordered entry).mp member
    obtain ⟨u, listed, _, most⟩ := inv.queued entry inside
    exact ⟨u, listed, Nat.lt_of_lt_of_le late most⟩

-- A generator that counts, with probabilities in percent.
def countingPlatform : Platform Nat Nat :=
  { seeded := UInt64.toNat
    draw := fun g => (g.toUInt64, g + 1)
    bernoulli := fun p g => (decide (g * 37 % 100 < p), g + 1)
    arrivals := fun rate g => (rate, g + 1)
    walk := fun _ ids => ids
    walked := fun _ ids => .refl ids
    entries := fun _ => .ascending }

def lossyOps : List (LinkOp Nat Nat) :=
  [.send 0 7, .send 0 8, .send 1 9, .due 3, .setConfig { pDrop := 0, pDup := 0 }, .send 3 7, .due 9]

theorem link_accounts_lossy :
    let run := LinkRun.after countingPlatform { pDrop := 30, pDup := 60 } 0 lossyOps
    let offered := lossyOps.filterMap LinkOp.offer
    (run.link.sent = offered.length ∧
      run.link.sent + run.link.duplicated = run.link.dropped + run.out.length + run.link.queue.length) ∧
    (∀ m, (run.out.map Prod.snd).count m + (run.link.queue.map Prod.snd).count m ≤ 2 * (offered.map Prod.snd).count m) ∧
    (∀ copy ∈ run.out, ∃ u, (u, copy.2) ∈ offered ∧ u + 1 ≤ copy.1) ∧
    ∀ now, ∀ entry ∈ (run.apply countingPlatform (.due now)).link.queue, ∃ u, (u, entry.2) ∈ offered ∧ now < u + 5 :=
  link_accounts countingPlatform 1 5 { pDrop := 30, pDup := 60 } 0 lossyOps ⟨by decide, by decide⟩
    (by simp [lossyOps, LinkOp.Within, LinkConfig.Within, LinkConfig.slowest, LinkConfig.span])

-- ---- without a spread of delays nothing is reordered ----

def LinkConfig.Fixed (delay : Nat) (cfg : LinkConfig P) : Prop := cfg.minLatency = delay ∧ cfg.span ≤ 0

def LinkOp.Fixed (delay : Nat) : LinkOp P M → Prop
  | .setConfig cfg => cfg.Fixed delay
  | .send _ _ => True
  | .due _ => True

theorem fixed_slowest (delay : Nat) (cfg : LinkConfig P) (fixed : cfg.Fixed delay) : cfg.slowest = delay := by
  obtain ⟨least, span⟩ := fixed
  rw [LinkConfig.slowest, least, Int.toNat_of_nonpos span, Nat.add_zero]

structure FifoInv (delay : Nat) (offered : List (Nat × M)) (run : LinkRun P G M) : Prop where
  fixed : run.link.cfg.Fixed delay
  due : ∀ entry ∈ run.link.queue, ∃ u, (u, entry.2) ∈ offered ∧ entry.1 = u + delay
  order : (run.out.map Prod.snd ++ run.link.queue.map Prod.snd).Sublist (offered.flatMap (fun offer => [offer.2, offer.2]))

theorem fifo_send (pf : Platform P G) (delay now : Nat) (m : M) (offered : List (Nat × M)) (run : LinkRun P G M)
    (inv : FifoInv delay offered run) (latest : ∀ offer ∈ offered, offer.1 ≤ now) :
    FifoInv delay (offered ++ [(now, m)]) (run.apply pf (.send now m)) := by
  have listed : (now, m) ∈ offered ++ [(now, m)] := List.mem_append_right _ (List.mem_singleton.mpr rfl)
  have due : ∀ entry ∈ run.link.queue, ∃ u, (u, entry.2) ∈ offered ++ [(now, m)] ∧ entry.1 = u + delay := by
    intro entry member
    obtain ⟨u, inside, tick⟩ := inv.due entry member
    exact ⟨u, List.mem_append_left _ inside, tick⟩
  have last : ∀ entry ∈ run.link.queue, entry.1 ≤ now + delay := by
    intro entry member
    obtain ⟨u, inside, tick⟩ := inv.due entry member
    have early := latest _ inside
    omega
  have slowest := fixed_slowest delay run.link.cfg inv.fixed
  have least := inv.fixed.1
  have put : Multimap.emplace (now + delay) m run.link.queue = run.link.queue ++ [(now + delay, m)] :=
    Multimap.emplace_last _ _ _ last
  have once : (run.out.map Prod.snd ++ (run.link.queue ++ [(now + delay, m)]).map Prod.snd).Sublist
      ((offered ++ [(now, m)]).flatMap (fun offer => [offer.2, offer.2])) := by
    rw [List.map_append, ← List.append_assoc, List.flatMap_append]
    exact inv.order.append (by simp)
  cases send_effect pf now m run.link run.rng with
  | lost same =>
      refine ⟨?_, ?_, ?_⟩ <;> simp only [LinkRun.apply, same]
      · exact inv.fixed
      · exact due
      · rw [List.flatMap_append]
        exact inv.order.trans (List.sublist_append_left _ _)
  | once tick early late same =>
      have exact_ : tick = now + delay := by omega
      refine ⟨?_, ?_, ?_⟩ <;> simp only [LinkRun.apply, same, exact_, put]
      · exact inv.fixed
      · intro entry member
        cases List.mem_append.mp member with
        | inl old => exact due entry old
        | inr new => exact ⟨now, by simp [List.mem_singleton.mp new], by rw [List.mem_singleton.mp new]⟩
      · exact once
  | twice tick again early late earlyAgain lateAgain same =>
      have exact_ : tick = now + delay ∧ again = now + delay := by omega
      have both : Multimap.emplace (now + delay) m (run.link.queue ++ [(now + delay, m)]) =
          run.link.queue ++ [(now + delay, m)] ++ [(now + delay, m)] := by
        apply Multimap.emplace_last
        intro entry member
        cases List.mem_append.mp member with
        | inl old => exact last entry old
        | inr new => exact Nat.le_of_eq (by rw [List.mem_singleton.mp new])
      refine ⟨?_, ?_, ?_⟩ <;> simp only [LinkRun.apply, same, exact_.1, exact_.2, put, both]
      · exact inv.fixed
      · intro entry member
        rw [List.append_assoc] at member
        cases List.mem_append.mp member with
        | inl old => exact due entry old
        | inr new =>
            have named : entry = (now + delay, m) := by simpa using new
            exact ⟨now, by simp [named], by rw [named]⟩
      · rw [List.append_assoc, List.map_append, ← List.append_assoc, List.flatMap_append]
        exact inv.order.append (by simp)

theorem fifo_due (pf : Platform P G) (delay now : Nat) (offered : List (Nat × M)) (run : LinkRun P G M)
    (inv : FifoInv delay offered run) : FifoInv delay offered (run.apply pf (.due now)) := by
  refine ⟨inv.fixed, fun entry member => inv.due entry ((Multimap.mem_split now _ entry).mpr (Or.inr member)), ?_⟩
  have handed : (run.apply pf (.due now)).out.map Prod.snd =
      run.out.map Prod.snd ++ (Multimap.upto now run.link.queue).map Prod.snd := by
    simp [LinkRun.apply, SimLink.due, Function.comp_def]
  have order := inv.order
  rw [← Multimap.upto_append_beyond now run.link.queue, List.map_append, ← List.append_assoc] at order
  rw [handed]
  exact order

-- A link with one delay for all is a queue: over any calls made as time goes
-- on, copies come out in the order they were offered, a duplicate right behind
-- its original.
theorem link_keeps_order (pf : Platform P G) (delay : Nat) (cfg : LinkConfig P) (rng : G) (ops : List (LinkOp P M))
    (first : cfg.Fixed delay) (later : ∀ op ∈ ops, op.Fixed delay)
    (clock : (ops.filterMap LinkOp.offer).Pairwise (fun a b => a.1 ≤ b.1)) :
    let run := LinkRun.after pf cfg rng ops
    (run.out.map Prod.snd ++ run.link.queue.map Prod.snd).Sublist
      ((ops.filterMap LinkOp.offer).flatMap (fun offer => [offer.2, offer.2])) := by
  suffices inv : FifoInv delay (ops.filterMap LinkOp.offer) (LinkRun.after pf cfg rng ops) from inv.order
  induction ops using List.reverseRecOn with
  | nil => constructor <;> simp [LinkRun.after, first]
  | append_singleton before op ih =>
      rw [List.filterMap_append, List.pairwise_append] at clock
      have inv := ih (fun op member => later op (List.mem_append_left _ member)) clock.1
      rw [LinkRun.after, List.foldl_append, List.foldl_cons, List.foldl_nil, List.filterMap_append]
      cases op with
      | send now m => exact fifo_send pf delay now m _ _ inv (fun offer member => clock.2.2 offer member (now, m) (by simp [LinkOp.offer]))
      | due now =>
          rw [show [LinkOp.due now].filterMap (LinkOp.offer : LinkOp P M → _) = [] from rfl, List.append_nil]
          exact fifo_due pf delay now _ _ inv
      | setConfig replaced =>
          have fixed : replaced.Fixed delay := later (.setConfig replaced) (by simp)
          rw [show [LinkOp.setConfig replaced].filterMap (LinkOp.offer : LinkOp P M → _) = [] from rfl, List.append_nil]
          exact ⟨fixed, inv.due, inv.order⟩

theorem link_keeps_order_duplicated :
    let cfg : LinkConfig Nat := { pDrop := 30, pDup := 60, maxLatency := 1 }
    let ops : List (LinkOp Nat Nat) := [.send 0 7, .send 0 8, .due 1, .send 1 9, .due 9]
    let run := LinkRun.after countingPlatform cfg 1 ops
    (run.out.map Prod.snd ++ run.link.queue.map Prod.snd).Sublist
      ((ops.filterMap LinkOp.offer).flatMap (fun offer => [offer.2, offer.2])) :=
  link_keeps_order countingPlatform 1 { pDrop := 30, pDup := 60, maxLatency := 1 } 1
    [.send 0 7, .send 0 8, .due 1, .send 1 9, .due 9] ⟨rfl, by decide⟩ (by simp [LinkOp.Fixed]) (by decide)

end Color
