import Color.HarnessTick
import Color.HarnessVerdict

set_option autoImplicit false

namespace Color

variable {P G : Type}

-- ---- what is on the way, at any tick ----

-- Every copy was put on its link before tick n, and every outstanding request
-- has been sent before it.
structure World.Steady (cfg : Config P) (n : Nat) (w : World P G) : Prop where
  wired : w.Wired cfg
  c2sSoon : ∀ entry ∈ w.c2s.queue, entry.1 < n + cfg.slowest
  s2cSoon : ∀ entry ∈ w.s2c.queue, entry.1 < n + cfg.slowest
  tracked : ∀ i ∈ w.client.outstanding, ∃ u < n, w.lastSend[i]? = some u

-- The clock, the generator and the server are not looked at.
theorem steady_same (cfg : Config P) (n : Nat) (w w' : World P G) (steady : w.Steady cfg n)
    (same : w'.c2s = w.c2s ∧ w'.s2c = w.s2c ∧ w'.client = w.client ∧ w'.lastSend = w.lastSend) : w'.Steady cfg n := by
  obtain ⟨c2s, s2c, client, lastSend⟩ := same
  exact ⟨⟨c2s ▸ steady.wired.c2s, s2c ▸ steady.wired.s2c⟩, c2s ▸ steady.c2sSoon, s2c ▸ steady.s2cSoon,
    fun i waiting => lastSend ▸ steady.tracked i (client ▸ waiting)⟩

theorem steady_send_request (pf : Platform P G) (cfg : Config P) (n : Nat) (w : World P G) (r : Request) (client : Client)
    (steady : w.Steady cfg n) (now : w.now < n)
    (open_ : ∀ i ∈ client.outstanding, i = r.seq ∨ i ∈ w.client.outstanding) :
    World.Steady cfg n ({ w with client := client }.sendRequest pf r) := by
  have grown := send_grown pf w.now r w.c2s w.rng
  have arrives := arrives_of_delay cfg w.c2s.cfg w.now
  refine ⟨⟨⟨grown.cfg.trans steady.wired.c2s.1, grown.ordered steady.wired.c2s.2⟩, steady.wired.s2c⟩, ?_, steady.s2cSoon, ?_⟩
  · intro entry member
    rcases send_queue pf w.now r w.c2s w.rng entry member with old | ⟨_, early, late⟩
    · exact steady.c2sSoon entry old
    · have bound := (arrives entry.1 steady.wired.c2s.1 early late).2
      omega
  · intro i waiting
    change ∃ u < n, (w.lastSend.insert r.seq w.now)[i]? = some u
    rw [Tables.lookup_insert]
    split
    · exact ⟨w.now, now, rfl⟩
    · rename_i other
      exact steady.tracked i ((open_ i waiting).resolve_left other)

theorem steady_arrive (pf : Platform P G) (cfg : Config P) (n left out : Nat) (w : World P G) (steady : w.Steady cfg n)
    (now : w.now < n) : (World.arrive pf cfg left out w).Steady cfg n ∧ (World.arrive pf cfg left out w).now = w.now := by
  induction left generalizing out w with
  | zero => exact ⟨steady, rfl⟩
  | succ left ih =>
      rw [World.arrive]
      split
      · apply ih (out + 1)
        · have drawn := steady_same cfg n w { w with rng := (pf.draw w.rng).2 } steady ⟨rfl, rfl, rfl, rfl⟩
          refine steady_send_request pf cfg n _ _ _ drawn now (fun i waiting => ?_)
          exact ((Tables.mem_insert_iff _ _ _ _).mp (Std.ExtTreeMap.mem_keys.mp waiting)).imp_right Std.ExtTreeMap.mem_keys.mpr
        · exact now
      · exact ⟨steady, rfl⟩

-- The rest of a step, from the retransmissions on.
def World.deliver (pf : Platform P G) (cfg : Config P) (w : World P G) : World P G := ((w.retransmit pf cfg).serve pf).receive

theorem steady_deliver (pf : Platform P G) (cfg : Config P) (n : Nat) (w : World P G) (noFailovers : cfg.failovers = 0)
    (sim : w.Simulated cfg [] []) (steady : w.Steady cfg n) (now : w.now < n) :
    (w.deliver pf cfg).Steady cfg n ∧ (w.deliver pf cfg).now = w.now := by
  have sends := retransmitted pf cfg w sim steady.wired
  obtain ⟨client₁, server₁, s2c₁, now₁⟩ := sends.same
  have serves := served pf cfg (w.retransmit pf cfg) noFailovers (simulated_retransmit pf cfg w sim) sends.wired
  obtain ⟨client₂, c2s₂, last₂, now₂⟩ := serves.same
  have wired₂ : ((w.retransmit pf cfg).serve pf).Wired cfg :=
    ⟨c2s₂ ▸ ⟨sends.wired.c2s.1, Multimap.beyond_ordered _ _ sends.wired.c2s.2⟩, serves.link⟩
  have takes := taken cfg ((w.retransmit pf cfg).serve pf) serves.sim wired₂
  obtain ⟨server₃, c2s₃, s2c₃, last₃, now₃⟩ := takes.same
  have c2sBefore : ∀ entry ∈ (w.deliver pf cfg).c2s.queue, entry ∈ (w.retransmit pf cfg).c2s.queue := by
    intro entry member
    change entry ∈ ((w.retransmit pf cfg).serve pf).receive.c2s.queue at member
    rw [c2s₃, c2s₂] at member
    exact (Multimap.mem_split _ _ entry).mpr (Or.inr member)
  have s2cBefore : ∀ entry ∈ (w.deliver pf cfg).s2c.queue, entry ∈ ((w.retransmit pf cfg).serve pf).s2c.queue := by
    intro entry member
    change entry ∈ ((w.retransmit pf cfg).serve pf).receive.s2c.queue at member
    rw [s2c₃] at member
    exact (Multimap.mem_split _ _ entry).mpr (Or.inr member)
  refine ⟨⟨⟨?_, ?_⟩, ?_, ?_, ?_⟩, now₃.trans (now₂.trans now₁)⟩
  · exact c2s₃ ▸ wired₂.c2s
  · exact s2c₃ ▸ ⟨wired₂.s2c.1, Multimap.beyond_ordered _ _ wired₂.s2c.2⟩
  · intro entry member
    rcases sends.fresh entry (c2sBefore entry member) with old | ⟨new, _⟩
    · exact steady.c2sSoon entry old
    · have bound := new.2
      omega
  · intro entry member
    rcases serves.fresh entry (s2cBefore entry member) with old | new
    · exact steady.s2cSoon entry (s2c₁ ▸ old)
    · have bound := new.2
      omega
  · intro i waiting
    have earlier := (takes.open_ i waiting).1
    rw [client₂, client₁] at earlier
    have last : (w.deliver pf cfg).lastSend = (w.retransmit pf cfg).lastSend := last₃.trans last₂
    rw [last]
    rcases sends.sends i with same | sent
    · exact same ▸ steady.tracked i earlier
    · exact ⟨w.now, now, now₁ ▸ sent⟩

theorem steady_later (cfg : Config P) (w : World P G) (n m : Nat) (le : n ≤ m) (steady : w.Steady cfg n) : w.Steady cfg m := by
  refine ⟨steady.wired, fun entry member => ?_, fun entry member => ?_, fun i waiting => ?_⟩
  · have bound := steady.c2sSoon entry member
    omega
  · have bound := steady.s2cSoon entry member
    omega
  · obtain ⟨u, less, sent⟩ := steady.tracked i waiting
    exact ⟨u, Nat.lt_of_lt_of_le less le, sent⟩

theorem steady_tick (pf : Platform P G) (cfg : Config P) (w : World P G) (noFailovers : cfg.failovers = 0)
    (sim : w.Simulated cfg [] []) (steady : w.Steady cfg w.now) : (w.tick pf cfg).Steady cfg (w.tick pf cfg).now := by
  obtain ⟨after, now⟩ := steady_deliver pf cfg (w.now + 1) w noFailovers sim (steady_later cfg w _ _ (Nat.le_succ _) steady)
    (Nat.lt_succ_self _)
  have clock : (w.tick pf cfg).now = w.now + 1 := congrArg (· + 1) now
  rw [clock]
  exact steady_same cfg _ (w.deliver pf cfg) _ after ⟨rfl, rfl, rfl, rfl⟩

theorem steady_turn (pf : Platform P G) (cfg : Config P) (w : World P G) (i : Nat) (noFailovers : cfg.failovers = 0)
    (sim : w.Simulated cfg [] []) (steady : w.Steady cfg w.now) :
    (w.turn pf cfg i).Steady cfg (w.now + 1) ∧ (w.turn pf cfg i).now = w.now + 1 := by
  have simGenerated := simulated_generate pf cfg w sim
  have start := steady_later cfg w _ _ (Nat.le_succ w.now) steady
  obtain ⟨generated, clock⟩ := steady_arrive pf cfg (w.now + 1) (pf.arrivals cfg.rate w.rng).1.toNat w.client.outstanding.length
    { w with rng := (pf.arrivals cfg.rate w.rng).2 } (steady_same cfg _ w _ start ⟨rfl, rfl, rfl, rfl⟩) (Nat.lt_succ_self _)
  change World.Steady cfg (w.now + 1) (w.generate pf cfg) at generated
  change (w.generate pf cfg).now = w.now at clock
  obtain ⟨after, now⟩ := steady_deliver pf cfg (w.now + 1) (w.generate pf cfg) noFailovers simGenerated generated
    (clock ▸ Nat.lt_succ_self _)
  have none : ∀ x : World P G, x.failover cfg i = x := fun x => by rw [World.failover, if_neg (by omega)]
  have clock' : ((w.generate pf cfg).deliver pf cfg).now = w.now := now.trans clock
  have refreshed : ∀ x : World P G, (x.refresh pf cfg i).now = x.now ∧
      (x.refresh pf cfg i).c2s = x.c2s ∧ (x.refresh pf cfg i).s2c = x.s2c ∧ (x.refresh pf cfg i).client = x.client ∧
      (x.refresh pf cfg i).lastSend = x.lastSend := by
    intro x
    rw [World.refresh]
    split <;> exact ⟨rfl, rfl, rfl, rfl, rfl⟩
  have turned : w.turn pf cfg i =
      { ((w.generate pf cfg).deliver pf cfg).refresh pf cfg i with
        now := (((w.generate pf cfg).deliver pf cfg).refresh pf cfg i).now + 1 } := by
    change { World.failover cfg i (((w.generate pf cfg).deliver pf cfg).refresh pf cfg i) with
      now := (World.failover cfg i (((w.generate pf cfg).deliver pf cfg).refresh pf cfg i)).now + 1 } = _
    rw [none]
  obtain ⟨stamp, fields⟩ := refreshed ((w.generate pf cfg).deliver pf cfg)
  have stamped : (w.turn pf cfg i).now = w.now + 1 := by
    rw [turned]
    exact congrArg (· + 1) (stamp.trans clock')
  rw [turned] at stamped ⊢
  exact ⟨steady_same cfg _ ((w.generate pf cfg).deliver pf cfg) _ after fields, stamped⟩

theorem steady_generation (pf : Platform P G) (seed : UInt64) (cfg : Config P) (noFailovers : cfg.failovers = 0) (n : Nat) :
    ((List.range n).foldl (World.turn pf cfg) (World.start pf seed cfg)).Simulated cfg [] [] ∧
      ((List.range n).foldl (World.turn pf cfg) (World.start pf seed cfg)).Steady cfg n ∧
      ((List.range n).foldl (World.turn pf cfg) (World.start pf seed cfg)).now = n := by
  induction n with
  | zero =>
      refine ⟨simulated_start pf seed cfg, ⟨⟨⟨rfl, List.Pairwise.nil⟩, ⟨rfl, List.Pairwise.nil⟩⟩, ?_, ?_, ?_⟩, rfl⟩
      · exact fun entry member => by cases member
      · exact fun entry member => by cases member
      · exact fun i waiting => by simp [World.start, Client.fresh, Client.outstanding] at waiting
  | succ n ih =>
      obtain ⟨sim, steady, now⟩ := ih
      rw [List.range_succ, List.foldl_append, List.foldl_cons, List.foldl_nil]
      generalize (List.range n).foldl (World.turn pf cfg) (World.start pf seed cfg) = w at *
      rw [← now] at steady
      obtain ⟨after, clock⟩ := steady_turn pf cfg _ n noFailovers sim steady
      rw [now] at after clock
      exact ⟨simulated_turn pf cfg _ n sim, after, clock⟩

theorem generation_steady (pf : Platform P G) (seed : UInt64) (cfg : Config P) (noFailovers : cfg.failovers = 0) :
    ((World.start pf seed cfg).generation pf cfg).Simulated cfg [] [] ∧
      ((World.start pf seed cfg).generation pf cfg).Steady cfg ((World.start pf seed cfg).generation pf cfg).now ∧
      ((World.start pf seed cfg).generation pf cfg).now = cfg.genSteps := by
  obtain ⟨sim, steady, now⟩ := steady_generation pf seed cfg noFailovers cfg.genSteps
  rw [World.generation]
  generalize (List.range cfg.genSteps).foldl (World.turn pf cfg) (World.start pf seed cfg) = w at *
  exact ⟨sim, now ▸ steady, now⟩

-- ---- one request across a tick ----

-- On its way to the server until tick d at the latest, parked there, or on its
-- way back.
def World.Carried (cfg : Config P) (d : Nat) (w : World P G) (i : Nat) : Prop :=
  (∃ entry ∈ w.c2s.queue, entry.2.seq = i ∧ entry.1 ≤ d) ∨ i ∈ w.server.pendingReqs ∨
    ∃ entry ∈ w.s2c.queue, entry.2.seq = i ∧ entry.1 ≤ d + cfg.slowest

theorem carried_tick (cfg : Config P) (d : Nat) (w next : World P G) (i : Nat) (ticked : Ticked cfg w next)
    (advanced : w.Advanced cfg next i) (waiting : i ∈ next.client.outstanding) (now : w.now ≤ d)
    (carried : w.Carried cfg d i) : next.Carried cfg d i := by
  have moved (arriving : w.Arriving i) : next.Carried cfg d i := by
    rcases advanced.2 arriving with parked | ⟨entry, queued, seq, arrives⟩
    · exact Or.inr (Or.inl parked)
    · have bound := arrives.2
      exact Or.inr (Or.inr ⟨entry, queued, seq, by omega⟩)
  rcases carried with ⟨entry, queued, seq, bound⟩ | parked | ⟨entry, queued, seq, bound⟩
  · by_cases early : entry.1 ≤ w.now
    · exact moved (Or.inl ⟨entry, queued, early, seq⟩)
    · exact Or.inl ⟨entry, ticked.c2sKept entry queued (Nat.lt_of_not_le early), seq, bound⟩
  · exact moved (Or.inr parked)
  · by_cases early : entry.1 ≤ w.now
    · exact absurd seq ((ticked.waiting i waiting).2 entry queued early)
    · exact Or.inr (Or.inr ⟨entry, ticked.s2cKept entry queued (Nat.lt_of_not_le early), seq, bound⟩)

def World.Answering (e : Nat) (w : World P G) (i : Nat) : Prop := ∃ entry ∈ w.s2c.queue, entry.2.seq = i ∧ entry.1 ≤ e

theorem answering_tick (cfg : Config P) (e : Nat) (w next : World P G) (i : Nat) (ticked : Ticked cfg w next)
    (waiting : i ∈ next.client.outstanding) (answering : w.Answering e i) : next.Answering e i ∧ w.now < e := by
  obtain ⟨entry, queued, seq, bound⟩ := answering
  have late : w.now < entry.1 := Nat.lt_of_not_le (fun early => (ticked.waiting i waiting).2 entry queued early seq)
  exact ⟨⟨entry, ticked.s2cKept entry queued late, seq, bound⟩, Nat.lt_of_lt_of_le late bound⟩

-- Where no outstanding request is still on its way, the server is not waiting
-- for one, so it has nothing parked.
theorem nothing_parked (cfg : Config P) (w : World P G) (noFailovers : cfg.failovers = 0) (sim : w.Simulated cfg [] [])
    (there : ∀ i ∈ w.client.outstanding, i ∈ w.server.pendingReqs ∨ ∃ entry ∈ w.s2c.queue, entry.2.seq = i) (i : Nat) :
    i ∉ w.server.pendingReqs := by
  obtain ⟨s, reach, shadows⟩ := sim
  have sys := reachable_sys_inv _ _ _ s reach
  have free := reachable_failure_free _ _ s (paced_no_crash cfg s noFailovers reach)
  rw [← shadows.client, ← shadows.server] at there
  rw [← shadows.server]
  intro parked
  have beyond := free.parked i parked
  obtain ⟨r, found⟩ := (Tables.mem_iff_lookup _ _).mp parked
  obtain ⟨member, seq⟩ := sys.server.holds.parked i r found
  have high := (numbered_seq_index _ r sys.client.numbered member).2.2
  -- The next id is neither received nor parked nor answered.
  obtain ⟨next, inReqs, named⟩ := numbered_exists _ (s.server.committedUpto + 1) sys.client.numbered (by omega) (by omega)
  have unknown : s.server.committedUpto + 1 ∉ s.client.received := fun received => by
    have bound := free.upto _ received
    omega
  rcases there _ ((outstanding_iff _ _ _ sys.issued).mpr ⟨⟨next, inReqs, named⟩, unknown⟩) with waits | ⟨entry, queued, same⟩
  · exact Nat.lt_irrefl _ (free.parked _ waits)
  · obtain ⟨_, inst, sent⟩ := shadows.responses entry.2 (Or.inl ⟨entry, queued, rfl⟩)
    have bound := (free.sent inst entry.2 sent).2
    omega

-- ---- ticks in a row ----

def World.later (pf : Platform P G) (cfg : Config P) (w : World P G) (n : Nat) : World P G := (World.tick pf cfg)^[n] w

theorem later_succ (pf : Platform P G) (cfg : Config P) (w : World P G) (n : Nat) :
    w.later pf cfg (n + 1) = (w.later pf cfg n).tick pf cfg :=
  Function.iterate_succ_apply' (World.tick pf cfg) n w

-- Nothing put on a link in the next n ticks is lost.
def World.Lossless (pf : Platform P G) (cfg : Config P) (w : World P G) (n : Nat) : Prop :=
  (w.later pf cfg n).c2s.dropped = w.c2s.dropped ∧ (w.later pf cfg n).s2c.dropped = w.s2c.dropped

section Stretch

variable (pf : Platform P G) (cfg : Config P) (w : World P G) (noFailovers : cfg.failovers = 0)
  (sim : w.Simulated cfg [] []) (steady : w.Steady cfg w.now)

include noFailovers sim steady

theorem later_steady (n : Nat) : (w.later pf cfg n).Simulated cfg [] [] ∧
    (w.later pf cfg n).Steady cfg (w.now + n) ∧ (w.later pf cfg n).now = w.now + n := by
  induction n with
  | zero => exact ⟨sim, steady, rfl⟩
  | succ n ih =>
      obtain ⟨simulated, before, now⟩ := ih
      rw [← now] at before
      have after := steady_tick pf cfg _ noFailovers simulated before
      have clock := (ticked pf cfg _ noFailovers simulated before.wired).now
      rw [later_succ]
      rw [clock, now, Nat.add_assoc] at after
      exact ⟨simulated_clock cfg _ _ (simulated_step pf cfg false _ simulated), after, by rw [clock, now, Nat.add_assoc]⟩

theorem later_ticked (n : Nat) : Ticked cfg (w.later pf cfg n) (w.later pf cfg (n + 1)) := by
  obtain ⟨simulated, before, _⟩ := later_steady pf cfg w noFailovers sim steady n
  rw [later_succ]
  exact ticked pf cfg _ noFailovers simulated before.wired

theorem later_losses (n m : Nat) (le : n ≤ m) : (w.later pf cfg n).c2s.dropped ≤ (w.later pf cfg m).c2s.dropped ∧
    (w.later pf cfg n).s2c.dropped ≤ (w.later pf cfg m).s2c.dropped := by
  induction m, le using Nat.le_induction with
  | base => exact ⟨Nat.le_refl _, Nat.le_refl _⟩
  | succ m _ ih =>
      have more := (later_ticked pf cfg w noFailovers sim steady m).losses
      exact ⟨Nat.le_trans ih.1 more.1, Nat.le_trans ih.2 more.2⟩

variable (len : Nat) (lossless : w.Lossless pf cfg len)

include lossless

theorem later_advanced (n : Nat) (within : n < len) (i : Nat) (waiting : i ∈ (w.later pf cfg (n + 1)).client.outstanding) :
    (w.later pf cfg n).Advanced cfg (w.later pf cfg (n + 1)) i := by
  have start := later_losses pf cfg w noFailovers sim steady 0 n (Nat.zero_le _)
  have final := later_losses pf cfg w noFailovers sim steady (n + 1) len within
  obtain ⟨c2s, s2c⟩ := lossless
  rw [c2s, s2c] at final
  change w.c2s.dropped ≤ _ ∧ w.s2c.dropped ≤ _ at start
  rcases (later_ticked pf cfg w noFailovers sim steady n).outcome with lost | all
  · omega
  · exact all i waiting

-- A request sent since the stretch began is carried; one sent before it is sent
-- again within the timeout.
theorem sent_carried (k : Nat) (timeout : k ≤ cfg.rto + 1) (within : k ≤ len) (i u : Nat)
    (waiting : i ∈ (w.later pf cfg k).client.outstanding) (sent : (w.later pf cfg k).lastSend[i]? = some u)
    (since : w.now ≤ u) : (w.later pf cfg k).Carried cfg (w.now + cfg.rto + cfg.slowest) i := by
  induction k generalizing u with
  | zero =>
      obtain ⟨v, before, same⟩ := steady.tracked i waiting
      have eq : v = u := Option.some.inj (same.symm.trans sent)
      omega
  | succ k ih =>
      have now := (later_steady pf cfg w noFailovers sim steady k).2.2
      have ticked := later_ticked pf cfg w noFailovers sim steady k
      have advanced := later_advanced pf cfg w noFailovers sim steady len lossless k within i waiting
      rcases advanced.1 with ⟨same, _⟩ | ⟨_, entry, queued, seq, arrives⟩
      · have before := ih (by omega) (by omega) u (ticked.waiting i waiting).1 (same ▸ sent) since
        exact carried_tick cfg _ _ _ i ticked advanced waiting (by omega) before
      · have bound := arrives.2
        exact Or.inl ⟨entry, queued, seq, by omega⟩

theorem all_carried (k : Nat) (low : cfg.rto + 1 ≤ k) (high : k ≤ cfg.rto + cfg.slowest + 1) (within : k ≤ len) :
    ∀ i ∈ (w.later pf cfg k).client.outstanding, (w.later pf cfg k).Carried cfg (w.now + cfg.rto + cfg.slowest) i := by
  induction k, low using Nat.le_induction with
  | base =>
      intro i waiting
      have now := (later_steady pf cfg w noFailovers sim steady cfg.rto).2.2
      have before := (later_steady pf cfg w noFailovers sim steady cfg.rto).2.1
      have ticked := later_ticked pf cfg w noFailovers sim steady cfg.rto
      have advanced := later_advanced pf cfg w noFailovers sim steady len lossless cfg.rto within i waiting
      have carried := sent_carried pf cfg w noFailovers sim steady len lossless (cfg.rto + 1) (Nat.le_refl _) within i
      rcases advanced.1 with ⟨same, recent⟩ | ⟨sent, _⟩
      · obtain ⟨u, _, sent⟩ := before.tracked i (ticked.waiting i waiting).1
        rw [sent, Option.getD_some] at recent
        exact carried u waiting (same.trans sent) (by omega)
      · exact carried _ waiting sent (by omega)
  | succ k low ih =>
      intro i waiting
      have now := (later_steady pf cfg w noFailovers sim steady k).2.2
      have ticked := later_ticked pf cfg w noFailovers sim steady k
      have advanced := later_advanced pf cfg w noFailovers sim steady len lossless k within i waiting
      exact carried_tick cfg _ _ _ i ticked advanced waiting (by omega)
        (ih (by omega) (by omega) i (ticked.waiting i waiting).1)

theorem all_answering (k : Nat) (low : cfg.rto + cfg.slowest + 1 ≤ k) (within : k ≤ len) :
    ∀ i ∈ (w.later pf cfg k).client.outstanding,
      (w.later pf cfg k).Answering (w.now + cfg.rto + cfg.slowest + cfg.slowest) i := by
  induction k, low using Nat.le_induction with
  | base =>
      obtain ⟨simulated, _, _⟩ := later_steady pf cfg w noFailovers sim steady (cfg.rto + cfg.slowest + 1)
      have now := (later_steady pf cfg w noFailovers sim steady (cfg.rto + cfg.slowest)).2.2
      have ticked := later_ticked pf cfg w noFailovers sim steady (cfg.rto + cfg.slowest)
      have back : ∀ i ∈ (w.later pf cfg (cfg.rto + cfg.slowest + 1)).client.outstanding,
          i ∈ (w.later pf cfg (cfg.rto + cfg.slowest + 1)).server.pendingReqs ∨
            (w.later pf cfg (cfg.rto + cfg.slowest + 1)).Answering (w.now + cfg.rto + cfg.slowest + cfg.slowest) i := by
        intro i waiting
        rcases all_carried pf cfg w noFailovers sim steady len lossless _ (by omega) (Nat.le_refl _) within i waiting with
          ⟨entry, queued, _, bound⟩ | there
        · have late := (ticked.c2sFresh entry queued).1
          omega
        · exact there
      have empty := nothing_parked cfg _ noFailovers simulated (fun i waiting => (back i waiting).imp_right
        (fun ⟨entry, queued, seq, _⟩ => ⟨entry, queued, seq⟩))
      exact fun i waiting => (back i waiting).resolve_left (empty i)
  | succ k low ih =>
      intro i waiting
      have ticked := later_ticked pf cfg w noFailovers sim steady k
      exact (answering_tick cfg _ _ _ i ticked waiting (ih (by omega) i (ticked.waiting i waiting).1)).1

theorem all_answered (k : Nat) (low : cfg.rto + 2 * cfg.slowest + 1 ≤ k) (within : k ≤ len) :
    (w.later pf cfg k).client.outstanding = [] := by
  apply List.eq_nil_iff_forall_not_mem.mpr
  induction k, low using Nat.le_induction with
  | base =>
      intro i waiting
      have some_ : 1 ≤ cfg.slowest := Nat.le_add_right 1 _
      have now := (later_steady pf cfg w noFailovers sim steady (cfg.rto + 2 * cfg.slowest)).2.2
      have ticked := later_ticked pf cfg w noFailovers sim steady (cfg.rto + 2 * cfg.slowest)
      have answering := all_answering pf cfg w noFailovers sim steady len lossless (cfg.rto + 2 * cfg.slowest) (by omega)
        (by omega) i (ticked.waiting i waiting).1
      have late := (answering_tick cfg _ _ _ i ticked waiting answering).2
      omega
  | succ k _ ih =>
      have ticked := later_ticked pf cfg w noFailovers sim steady k
      exact fun i waiting => ih (by omega) i (ticked.waiting i waiting).1

theorem c2s_empties (k : Nat) (low : cfg.rto + 2 * cfg.slowest + 1 ≤ k) (within : k ≤ len) :
    (∀ entry ∈ (w.later pf cfg k).c2s.queue, entry.1 ≤ w.now + cfg.rto + 3 * cfg.slowest) ∧
      (cfg.rto + 3 * cfg.slowest + 1 ≤ k → (w.later pf cfg k).c2s.queue = []) := by
  have bounded : ∀ entry ∈ (w.later pf cfg k).c2s.queue, entry.1 ≤ w.now + cfg.rto + 3 * cfg.slowest := by
    induction k, low using Nat.le_induction with
    | base =>
        intro entry queued
        have soon := (later_steady pf cfg w noFailovers sim steady _).2.1.c2sSoon entry queued
        omega
    | succ k low ih =>
        intro entry queued
        have ticked := later_ticked pf cfg w noFailovers sim steady k
        have none := all_answered pf cfg w noFailovers sim steady len lossless k low (by omega)
        exact ih (by omega) entry ((ticked.c2sFresh entry queued).2.resolve_right (fun some_ => some_ none))
  refine ⟨bounded, fun enough => List.eq_nil_iff_forall_not_mem.mpr (fun entry queued => ?_)⟩
  cases k with
  | zero => omega
  | succ k =>
      have now := (later_steady pf cfg w noFailovers sim steady k).2.2
      have late := ((later_ticked pf cfg w noFailovers sim steady k).c2sFresh entry queued).1
      have bound := bounded entry queued
      omega

theorem s2c_empties (k : Nat) (low : cfg.rto + 3 * cfg.slowest + 1 ≤ k) (within : k ≤ len) :
    (∀ entry ∈ (w.later pf cfg k).s2c.queue, entry.1 ≤ w.now + cfg.rto + 4 * cfg.slowest) ∧
      (cfg.rto + 4 * cfg.slowest + 1 ≤ k → (w.later pf cfg k).s2c.queue = []) := by
  have bounded : ∀ entry ∈ (w.later pf cfg k).s2c.queue, entry.1 ≤ w.now + cfg.rto + 4 * cfg.slowest := by
    induction k, low using Nat.le_induction with
    | base =>
        intro entry queued
        have soon := (later_steady pf cfg w noFailovers sim steady _).2.1.s2cSoon entry queued
        omega
    | succ k low ih =>
        intro entry queued
        have ticked := later_ticked pf cfg w noFailovers sim steady k
        have none := (c2s_empties pf cfg w noFailovers sim steady len lossless k (by omega) (by omega)).2 low
        refine ih (by omega) entry ((ticked.s2cFresh entry queued).2.resolve_right ?_)
        rintro ⟨req, inside, _⟩
        rw [none] at inside
        cases inside
  refine ⟨bounded, fun enough => List.eq_nil_iff_forall_not_mem.mpr (fun entry queued => ?_)⟩
  cases k with
  | zero => omega
  | succ k =>
      have now := (later_steady pf cfg w noFailovers sim steady k).2.2
      have late := ((later_ticked pf cfg w noFailovers sim steady k).s2cFresh entry queued).1
      have bound := bounded entry queued
      omega

-- The timeout, and two trips each way: one for what is outstanding, one for
-- the last copies sent before it was answered.
theorem lossless_done (enough : cfg.rto + 4 * cfg.slowest + 1 ≤ len) : (w.later pf cfg len).done = true := by
  have answered := all_answered pf cfg w noFailovers sim steady len lossless len (by omega) (Nat.le_refl _)
  have c2s := (c2s_empties pf cfg w noFailovers sim steady len lossless len (by omega) (Nat.le_refl _)).2 (by omega)
  have s2c := (s2c_empties pf cfg w noFailovers sim steady len lossless len (by omega) (Nat.le_refl _)).2 enough
  simp [World.done, SimLink.empty, answered, c2s, s2c]

end Stretch

-- ---- the loop of the drain phase ----

-- The loop stops at the first tick that finds nothing left to do.
theorem drain_later (pf : Platform P G) (cfg : Config P) (left : Nat) (w : World P G) :
    ∃ n ≤ left, w.drain pf cfg left = w.later pf cfg n ∧ (∀ m < n, (w.later pf cfg m).done = false) ∧
      (n = left ∨ (w.later pf cfg n).done = true) := by
  induction left generalizing w with
  | zero => exact ⟨0, Nat.le_refl _, rfl, by simp, Or.inl rfl⟩
  | succ left ih =>
      rw [World.drain]
      cases done : w.done with
      | true => exact ⟨0, Nat.zero_le _, rfl, by simp, Or.inr done⟩
      | false =>
          obtain ⟨n, bound, same, before, ends⟩ := ih (w.tick pf cfg)
          refine ⟨n + 1, Nat.succ_le_succ bound, same, fun m less => ?_, ends.imp_left (congrArg (· + 1))⟩
          cases m with
          | zero => exact done
          | succ m => exact before m (Nat.lt_of_succ_lt_succ less)

theorem drain_done (pf : Platform P G) (cfg : Config P) (left n : Nat) (w : World P G) (within : n ≤ left)
    (done : (w.later pf cfg n).done = true) :
    (w.drain pf cfg left).done = true ∧ ∃ m ≤ n, w.drain pf cfg left = w.later pf cfg m := by
  obtain ⟨m, bound, same, before, ends⟩ := drain_later pf cfg left w
  have first : m ≤ n := by
    by_contra later
    have open_ := before n (Nat.lt_of_not_le later)
    rw [done] at open_
    cases open_
  refine ⟨?_, m, first, same⟩
  rw [same]
  rcases ends with cap | finished
  · have last : m = n := by omega
    rw [last]
    exact done
  · exact finished

-- The ticks after which a failover-free drain is over, if nothing is lost during them.
def Config.settling (cfg : Config P) : Nat := cfg.rto + 4 * cfg.slowest + 1

theorem drain_after_last_loss (pf : Platform P G) (cfg : Config P) (w : World P G) (noFailovers : cfg.failovers = 0)
    (sim : w.Simulated cfg [] []) (steady : w.Steady cfg w.now) (k : Nat)
    (lossless : (w.later pf cfg k).Lossless pf cfg cfg.settling) (cap : k + cfg.settling ≤ cfg.drainCap) :
    (w.drain pf cfg cfg.drainCap).client.outstanding = [] ∧
      (w.drain pf cfg cfg.drainCap).now ≤ w.now + k + cfg.settling := by
  obtain ⟨simLater, steadyLater, nowLater⟩ := later_steady pf cfg w noFailovers sim steady k
  rw [← nowLater] at steadyLater
  have done := lossless_done pf cfg (w.later pf cfg k) noFailovers simLater steadyLater cfg.settling lossless (Nat.le_refl _)
  have joined : (w.later pf cfg k).later pf cfg cfg.settling = w.later pf cfg (cfg.settling + k) :=
    (Function.iterate_add_apply (World.tick pf cfg) cfg.settling k w).symm
  rw [joined] at done
  obtain ⟨finished, m, bound, same⟩ := drain_done pf cfg cfg.drainCap (cfg.settling + k) w (by omega) done
  constructor
  · rw [World.done, Bool.and_eq_true, Bool.and_eq_true, List.isEmpty_iff] at finished
    exact finished.1.1
  · rw [same, (later_steady pf cfg w noFailovers sim steady m).2.2]
    omega

-- Whatever happened before, once no copy is lost for the timeout and four trips
-- the drain phase ends, and the run passes every check.
theorem run_passes_after_last_loss (pf : Platform P G) (seed : UInt64) (cfg : Config P) (noFailovers : cfg.failovers = 0)
    (latency : 0 ≤ cfg.maxLatency) (small : 4 * (cfg.parallel + cfg.maxLatency) + 16 < 2 ^ 64) (k : Nat)
    (lossless : (((World.start pf seed cfg).generation pf cfg).later pf cfg k).Lossless pf cfg cfg.settling)
    (cap : k + cfg.settling ≤ cfg.drainCap) :
    (runOne pf seed cfg).result.ok = true ∧ (runOne pf seed cfg).steps ≤ cfg.genSteps + k + cfg.settling := by
  obtain ⟨sim, steady, now⟩ := generation_steady pf seed cfg noFailovers
  obtain ⟨empty, bound⟩ := drain_after_last_loss pf cfg _ noFailovers sim steady k lossless cap
  constructor
  · rw [runOne, failure_free_ok_iff cfg _ (simulated_final pf seed cfg) noFailovers latency small, World.final]
    exact empty
  · rw [now] at bound
    rw [runOne, stats_steps, World.final]
    exact bound

-- The first p draws are losses, and none after them: all four copies sent while
-- generating are lost, and everything is sent again.
def fadingPlatform : Platform Nat Nat := { countingPlatform with bernoulli := fun p g => (decide (g < p), g + 1) }

def fadingConfig : Config Nat := { rate := 2, drop := 9, dup := 0, genSteps := 2, parallel := 2, maxLatency := 1, rto := 1 }

theorem run_passes_after_last_loss_fading :
    (((World.start fadingPlatform 1 fadingConfig).generation fadingPlatform fadingConfig).c2s.dropped = 4 ∧
      ((World.start fadingPlatform 1 fadingConfig).generation fadingPlatform fadingConfig).client.outstanding = [1, 2]) ∧
    (runOne fadingPlatform 1 fadingConfig).result.ok = true ∧
    (runOne fadingPlatform 1 fadingConfig).steps ≤ fadingConfig.genSteps + 0 + fadingConfig.settling :=
  ⟨by decide +kernel, run_passes_after_last_loss fadingPlatform 1 fadingConfig rfl (by decide) (by decide) 0
    ⟨by decide +kernel, by decide +kernel⟩ (by decide)⟩

end Color
