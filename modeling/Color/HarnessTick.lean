import Color.HarnessRun
import Color.Progress

set_option autoImplicit false

namespace Color

variable {P G : Type}

-- The longest a copy that is not lost spends on a link.
def Config.slowest (cfg : Config P) : Nat := cfg.link.slowest

-- When a copy put on a link at a tick arrives.
def Config.Arrives (cfg : Config P) (now tick : Nat) : Prop := now < tick ∧ tick ≤ now + cfg.slowest

theorem arrives_of_delay (cfg : Config P) (link : LinkConfig P) (now tick : Nat) (same : link = cfg.link)
    (early : now + link.minLatency ≤ tick) (late : tick ≤ now + link.slowest) : cfg.Arrives now tick := by
  subst same
  exact ⟨early, late⟩

-- Both links as set up, their copies in order of arrival.
structure World.Wired (cfg : Config P) (w : World P G) : Prop where
  c2s : w.c2s.cfg = cfg.link ∧ Multimap.Ordered w.c2s.queue
  s2c : w.s2c.cfg = cfg.link ∧ Multimap.Ordered w.s2c.queue

-- ---- sending outstanding requests again ----

-- What was sent in this pass, or was sent less than the timeout ago.
def World.RecentlySent (cfg : Config P) (before w : World P G) (i : Nat) : Prop :=
  w.lastSend[i]? = before.lastSend[i]? ∧ w.now - before.lastSend[i]?.getD 0 < cfg.rto ∨
    w.lastSend[i]? = some w.now ∧ ∃ entry ∈ w.c2s.queue, entry.2.seq = i ∧ cfg.Arrives w.now entry.1

structure Retransmitted (cfg : Config P) (before : World P G) (left : List Nat) (w : World P G) : Prop where
  same : w.client = before.client ∧ w.server = before.server ∧ w.s2c = before.s2c ∧ w.now = before.now
  wired : w.Wired cfg
  losses : before.c2s.dropped ≤ w.c2s.dropped
  kept : ∀ entry ∈ before.c2s.queue, entry ∈ w.c2s.queue
  fresh : ∀ entry ∈ w.c2s.queue, entry ∈ before.c2s.queue ∨
    cfg.Arrives w.now entry.1 ∧ before.client.outstanding ≠ []
  sends : ∀ i : Nat, w.lastSend[i]? = before.lastSend[i]? ∨ w.lastSend[i]? = some w.now
  outcome : before.c2s.dropped < w.c2s.dropped ∨
    ∀ i ∈ before.client.outstanding, i ∈ left ∧ w.lastSend[i]? = before.lastSend[i]? ∨ World.RecentlySent cfg before w i

theorem retransmitted_retry (pf : Platform P G) (cfg : Config P) (reqs : List Request) (before : World P G) (i : Nat)
    (left : List Nat) (w : World P G) (issued : ClientIssued reqs before.client)
    (so : Retransmitted cfg before (i :: left) w) : Retransmitted cfg before left (w.retry pf cfg i) := by
  obtain ⟨client, server, s2c, now⟩ := so.same
  -- Where i is not sent, it was not due or is no longer outstanding.
  have skipped (reason : i ∈ before.client.outstanding → w.now - w.lastSend[i]?.getD 0 < cfg.rto) :
      Retransmitted cfg before left w := by
    refine ⟨so.same, so.wired, so.losses, so.kept, so.fresh, so.sends, so.outcome.imp_right (fun all j waiting => ?_)⟩
    rcases all j waiting with ⟨listed, unchanged⟩ | recent
    · cases List.mem_cons.mp listed with
      | inl here =>
          subst here
          have early := reason waiting
          rw [unchanged] at early
          exact Or.inr (Or.inl ⟨unchanged, early⟩)
      | inr later => exact Or.inl ⟨later, unchanged⟩
    · exact Or.inr recent
  rw [World.retry]
  split
  · cases found : w.client.frozen i with
    | none =>
        refine skipped (fun waiting => ?_)
        have inside : i ∈ w.client.inflight := Std.ExtTreeMap.mem_keys.mp (client ▸ waiting)
        obtain ⟨r, stored⟩ := (Tables.mem_iff_lookup _ _).mp inside
        have absent : w.client.inflight[i]? = none := found
        rw [absent] at stored
        cases stored
    | some r =>
        have seq : r.seq = i := ((issued.waiting i r).mp (client ▸ found)).1.2
        have waiting : i ∈ before.client.outstanding :=
          Std.ExtTreeMap.mem_keys.mpr ((Tables.mem_iff_lookup _ _).mpr ⟨r, client ▸ found⟩)
        have grown := send_grown pf w.now r w.c2s w.rng
        have arrives := arrives_of_delay cfg w.c2s.cfg w.now
        refine ⟨so.same, ⟨⟨grown.cfg.trans so.wired.c2s.1, grown.ordered so.wired.c2s.2⟩, so.wired.s2c⟩, ?_, ?_, ?_, ?_, ?_⟩
        · exact Nat.le_trans so.losses (grown.outcome.elim Nat.le_of_lt (fun kept => Nat.le_of_eq kept.1.symm))
        · exact fun entry member => grown.kept entry (so.kept entry member)
        · intro entry member
          rcases send_queue pf w.now r w.c2s w.rng entry member with old | ⟨_, early, late⟩
          · exact so.fresh entry old
          · exact Or.inr ⟨arrives entry.1 so.wired.c2s.1 early late, List.ne_nil_of_mem waiting⟩
        · intro j
          change (w.lastSend.insert r.seq w.now)[j]? = _ ∨ (w.lastSend.insert r.seq w.now)[j]? = some w.now
          rw [Tables.lookup_insert]
          split
          · exact Or.inr rfl
          · exact so.sends j
        · rcases so.outcome with lost | all
          · exact Or.inl (Nat.lt_of_lt_of_le lost (grown.outcome.elim Nat.le_of_lt (fun kept => Nat.le_of_eq kept.1.symm)))
          · rcases grown.outcome with lost | ⟨_, entry, queued, named, early, late⟩
            · exact Or.inl (Nat.lt_of_le_of_lt so.losses lost)
            · have sends : (w.sendRequest pf r).lastSend = w.lastSend.insert i w.now := by rw [← seq]; rfl
              refine Or.inr (fun j open_ => ?_)
              by_cases here : j = i
              · refine Or.inr (Or.inr ⟨?_, entry, queued, by rw [named, seq, here], arrives entry.1 so.wired.c2s.1 early late⟩)
                rw [sends, Tables.lookup_insert, if_pos here]
                rfl
              · have other : (w.sendRequest pf r).lastSend[j]? = w.lastSend[j]? := by
                  rw [sends, Tables.lookup_insert, if_neg here]
                rcases all j open_ with ⟨listed, unchanged⟩ | ⟨unchanged, early⟩ | ⟨sent, copy, inside, rest⟩
                · exact Or.inl ⟨(List.mem_cons.mp listed).resolve_left here, other.trans unchanged⟩
                · exact Or.inr (Or.inl ⟨other.trans unchanged, early⟩)
                · exact Or.inr (Or.inr ⟨other.trans sent, copy, grown.kept copy inside, rest⟩)
  · rename_i early
    exact skipped (fun _ => by omega)

-- The pass goes through all outstanding ids, in the order of the table.
theorem retransmitted (pf : Platform P G) (cfg : Config P) (w : World P G) (sim : w.Simulated cfg [] [])
    (wired : w.Wired cfg) : Retransmitted cfg w [] (w.retransmit pf cfg) := by
  obtain ⟨s, reach, shadows⟩ := sim
  have issued := shadows.client ▸ (reachable_sys_inv _ _ _ s reach).issued
  apply Transition.foldl_left (World.retry pf cfg) (Retransmitted cfg w)
  · exact fun i left w' so => retransmitted_retry pf cfg s.requests w i left w' issued so
  · refine ⟨⟨rfl, rfl, rfl, rfl⟩, wired, Nat.le_refl _, fun _ member => member, fun _ member => Or.inl member,
      fun _ => Or.inl rfl, ?_⟩
    exact Or.inr (fun i waiting => Or.inl ⟨(pf.walked w.rng _).mem_iff.mpr waiting, rfl⟩)

-- ---- handing due requests to the server ----

structure Replied (cfg : Config P) (resps : List Response) (before w : World P G) : Prop where
  same : w.client = before.client ∧ w.server = before.server ∧ w.c2s = before.c2s ∧ w.lastSend = before.lastSend ∧
    w.now = before.now
  link : w.s2c.cfg = cfg.link ∧ Multimap.Ordered w.s2c.queue
  losses : before.s2c.dropped ≤ w.s2c.dropped
  kept : ∀ entry ∈ before.s2c.queue, entry ∈ w.s2c.queue
  fresh : ∀ entry ∈ w.s2c.queue, entry ∈ before.s2c.queue ∨ cfg.Arrives w.now entry.1
  outcome : before.s2c.dropped < w.s2c.dropped ∨
    ∀ resp ∈ resps, ∃ entry ∈ w.s2c.queue, entry.2 = resp ∧ cfg.Arrives w.now entry.1

theorem replied (pf : Platform P G) (cfg : Config P) (resps : List Response) (before : World P G)
    (link : before.s2c.cfg = cfg.link ∧ Multimap.Ordered before.s2c.queue) :
    Replied cfg resps before (resps.foldl (World.sendResponse pf) before) := by
  induction resps generalizing before with
  | nil =>
      exact ⟨⟨rfl, rfl, rfl, rfl, rfl⟩, link, Nat.le_refl _, fun _ member => member, fun _ member => Or.inl member,
        Or.inr (by simp)⟩
  | cons resp rest ih =>
      have grown := send_grown pf before.now resp before.s2c before.rng
      have arrives := arrives_of_delay cfg before.s2c.cfg before.now
      have later := ih (before.sendResponse pf resp) ⟨grown.cfg.trans link.1, grown.ordered link.2⟩
      obtain ⟨client, server, c2s, lastSend, now⟩ := later.same
      have first : before.s2c.dropped ≤ (before.sendResponse pf resp).s2c.dropped :=
        grown.outcome.elim Nat.le_of_lt (fun kept => Nat.le_of_eq kept.1.symm)
      refine ⟨⟨client, server, c2s, lastSend, now⟩, later.link, Nat.le_trans first later.losses,
        fun entry member => later.kept entry (grown.kept entry member), ?_, ?_⟩
      · intro entry member
        rcases later.fresh entry member with old | new
        · rcases send_queue pf before.now resp before.s2c before.rng entry old with older | ⟨_, early, late⟩
          · exact Or.inl older
          · exact Or.inr (now.symm ▸ arrives entry.1 link.1 early late)
        · exact Or.inr new
      · rcases later.outcome with lost | all
        · exact Or.inl (Nat.lt_of_le_of_lt first lost)
        · rcases grown.outcome with lost | ⟨_, entry, queued, named, early, late⟩
          · exact Or.inl (Nat.lt_of_lt_of_le lost later.losses)
          · refine Or.inr (List.forall_mem_cons.mpr ⟨⟨entry, later.kept entry queued, named, ?_⟩, all⟩)
            exact now.symm ▸ arrives entry.1 link.1 early late

-- Requests the server holds or is about to be handed.
def World.Arriving (w : World P G) (i : Nat) : Prop :=
  (∃ entry ∈ w.c2s.queue, entry.1 ≤ w.now ∧ entry.2.seq = i) ∨ i ∈ w.server.pendingReqs

structure Served (cfg : Config P) (before : World P G) (left : List Request) (w : World P G) : Prop where
  sim : w.Simulated cfg left []
  same : w.client = before.client ∧ w.c2s = (before.c2s.due before.now).2 ∧ w.lastSend = before.lastSend ∧
    w.now = before.now
  link : w.s2c.cfg = cfg.link ∧ Multimap.Ordered w.s2c.queue
  losses : before.s2c.dropped ≤ w.s2c.dropped
  kept : ∀ entry ∈ before.s2c.queue, entry ∈ w.s2c.queue
  fresh : ∀ entry ∈ w.s2c.queue, entry ∈ before.s2c.queue ∨ cfg.Arrives w.now entry.1
  quiet : (∀ entry ∈ before.c2s.queue, before.now < entry.1) → left = [] ∧ w.s2c = before.s2c
  outcome : before.s2c.dropped < w.s2c.dropped ∨ ∀ i, before.Arriving i → (∃ r ∈ left, r.seq = i) ∨
    i ∈ w.server.pendingReqs ∨ ∃ entry ∈ w.s2c.queue, entry.2.seq = i ∧ cfg.Arrives w.now entry.1

-- The server of a failover-free run never asks back: what is handed to it is
-- answered, or parked until it is.
theorem handed_over (cfg : Config P) (w : World P G) (req : Request) (left : List Request) (noFailovers : cfg.failovers = 0)
    (sim : w.Simulated cfg (req :: left) []) (app : AppFn) (i : Nat) (arriving : i = req.seq ∨ i ∈ w.server.pendingReqs) :
    i ∈ (harnessExchange w.client app req w.server).1.pendingReqs ∨
      ∃ resp ∈ (harnessExchange w.client app req w.server).2.responses, resp.seq = i := by
  obtain ⟨s, reach, shadows⟩ := sim
  have sys := reachable_sys_inv _ _ _ s reach
  have free := reachable_failure_free _ _ s
    ((reach.mono (fun s a allowed => paced_windowed cfg.parallel s a (noFailovers ▸ allowed))).mono (windowed_no_crash cfg.parallel))
  have member := shadows.requests req (Or.inr List.mem_cons_self)
  have accepted := failure_free_accepts s req sys free member
  have progress := on_request_progress s.requests app s.server req (client_inv_issued _ _ sys.client sys.issued)
    sys.server member accepted
  rw [harness_exchange_settle, ← shadows.client, ← shadows.server, settle_accepted s.client req 8 s.server accepted]
  rw [← shadows.server] at arriving
  by_cases done : i ≤ (s.server.onRequest app req).1.committedUpto
  · refine Or.inr (progress.answered i (arriving.imp_right (fun parked => ?_)) done)
    have beyond := free.parked i parked
    omega
  · exact Or.inl (progress.parked i (Nat.lt_of_not_le done) arriving)

theorem served_handle (pf : Platform P G) (cfg : Config P) (before : World P G) (req : Request) (left : List Request)
    (w : World P G) (noFailovers : cfg.failovers = 0) (so : Served cfg before (req :: left) w) :
    Served cfg before left (w.handle pf req) := by
  obtain ⟨client, c2s, lastSend, now⟩ := so.same
  have moved := handed_over cfg w req left noFailovers so.sim (srvApp w.now)
  have sent := replied pf cfg (harnessExchange w.client (srvApp w.now) req w.server).2.responses
    { w with
      server := (harnessExchange w.client (srvApp w.now) req w.server).1
      hashMismatches := w.hashMismatches + (harnessExchange w.client (srvApp w.now) req w.server).2.mismatches.length }
    so.link
  change Replied cfg _ _ (w.handle pf req) at sent
  obtain ⟨clientSame, serverSame, c2sSame, lastSame, nowSame⟩ := sent.same
  refine ⟨simulated_handle pf cfg w req left [] so.sim,
    ⟨clientSame.trans client, c2sSame.trans c2s, lastSame.trans lastSend, nowSame.trans now⟩, sent.link,
    Nat.le_trans so.losses sent.losses, fun entry member => sent.kept entry (so.kept entry member), ?_, ?_, ?_⟩
  · intro entry member
    rcases sent.fresh entry member with old | new
    · exact (so.fresh entry old).imp_right (fun range => nowSame.symm ▸ range)
    · exact Or.inr new
  · intro nothing
    cases (so.quiet nothing).1
  · rcases so.outcome with lost | all
    · exact Or.inl (Nat.lt_of_lt_of_le lost sent.losses)
    · rcases sent.outcome with lost | answers
      · exact Or.inl (Nat.lt_of_le_of_lt so.losses lost)
      · refine Or.inr (fun i arriving => ?_)
        have carried (here : i = req.seq ∨ i ∈ w.server.pendingReqs) : i ∈ (w.handle pf req).server.pendingReqs ∨
            ∃ entry ∈ (w.handle pf req).s2c.queue, entry.2.seq = i ∧ cfg.Arrives (w.handle pf req).now entry.1 := by
          rcases moved i here with parked | ⟨resp, emitted, seq⟩
          · exact Or.inl (serverSame ▸ parked)
          · obtain ⟨entry, queued, named, late⟩ := answers resp emitted
            exact Or.inr ⟨entry, queued, by rw [named, seq], late⟩
        rcases all i arriving with ⟨r, listed, seq⟩ | parked | ⟨entry, queued, rest⟩
        · cases List.mem_cons.mp listed with
          | inl here => exact Or.inr (carried (Or.inl (here ▸ seq.symm)))
          | inr later => exact Or.inl ⟨r, later, seq⟩
        · exact Or.inr (carried (Or.inr parked))
        · exact Or.inr (Or.inr ⟨entry, sent.kept entry queued, nowSame.symm ▸ rest⟩)

theorem served (pf : Platform P G) (cfg : Config P) (w : World P G) (noFailovers : cfg.failovers = 0)
    (sim : w.Simulated cfg [] []) (wired : w.Wired cfg) : Served cfg w [] (w.serve pf) := by
  apply Transition.foldl_left (World.handle pf) (Served cfg w)
  · exact fun req left w' so => served_handle pf cfg w req left w' noFailovers so
  · refine ⟨simulated_due_requests cfg w sim, ⟨rfl, rfl, rfl, rfl⟩, wired.s2c, Nat.le_refl _, fun _ member => member,
      fun _ member => Or.inl member, ?_, ?_⟩
    · intro nothing
      refine ⟨List.eq_nil_iff_forall_not_mem.mpr (fun r due => ?_), rfl⟩
      obtain ⟨entry, queued, _, early⟩ := due_queued w.now w.c2s r due
      have late := nothing entry queued
      omega
    · refine Or.inr (fun i arriving => ?_)
      rcases arriving with ⟨entry, queued, early, seq⟩ | parked
      · exact Or.inl ⟨entry.2, mem_due w.now w.c2s wired.c2s.2 entry queued early, seq⟩
      · exact Or.inr (Or.inl parked)

-- ---- handing due responses to the client ----

structure Taken (before : World P G) (left : List Response) (w : World P G) : Prop where
  same : w.server = before.server ∧ w.c2s = before.c2s ∧ w.s2c = (before.s2c.due before.now).2 ∧
    w.lastSend = before.lastSend ∧ w.now = before.now
  open_ : ∀ i ∈ w.client.outstanding, i ∈ before.client.outstanding ∧
    ∀ entry ∈ before.s2c.queue, entry.1 ≤ before.now → entry.2.seq = i → ∃ resp ∈ left, resp.seq = i

theorem on_response_outstanding (reqs : List Request) (c : Client) (resp : Response) (issued : ClientIssued reqs c) (i : Nat)
    (waiting : i ∈ (c.onResponse resp).2.outstanding) : i ∈ c.outstanding ∧ i ≠ resp.seq := by
  rw [Client.onResponse] at waiting
  by_cases duplicate : resp.seq ∈ c.received
  · rw [if_pos duplicate] at waiting
    refine ⟨waiting, fun same => ?_⟩
    exact ((outstanding_iff reqs c i issued).mp waiting).2 (same ▸ duplicate)
  · rw [if_neg duplicate] at waiting
    obtain ⟨apart, inside⟩ := (Tables.mem_erase_iff _ _ _).mp (Std.ExtTreeMap.mem_keys.mp waiting)
    exact ⟨Std.ExtTreeMap.mem_keys.mpr inside, apart⟩

theorem taken_accept (cfg : Config P) (before : World P G) (resp : Response) (left : List Response) (w : World P G)
    (sim : w.Simulated cfg [] (resp :: left)) (so : Taken before (resp :: left) w) : Taken before left (w.accept resp) := by
  refine ⟨so.same, fun i waiting => ?_⟩
  obtain ⟨s, reach, shadows⟩ := sim
  have issued := shadows.client ▸ (reachable_sys_inv _ _ _ s reach).issued
  obtain ⟨earlier, apart⟩ := on_response_outstanding s.requests w.client resp issued i waiting
  obtain ⟨first, due⟩ := so.open_ i earlier
  refine ⟨first, fun entry queued early seq => ?_⟩
  obtain ⟨other, listed, same⟩ := due entry queued early seq
  cases List.mem_cons.mp listed with
  | inl here => exact absurd (here ▸ same.symm) apart
  | inr later => exact ⟨other, later, same⟩

theorem taken (cfg : Config P) (w : World P G) (sim : w.Simulated cfg [] []) (wired : w.Wired cfg) :
    Taken w [] w.receive := by
  have start : Taken w (w.s2c.due w.now).1 { w with s2c := (w.s2c.due w.now).2 } :=
    ⟨⟨rfl, rfl, rfl, rfl, rfl⟩, fun i waiting => ⟨waiting, fun entry queued early seq =>
      ⟨entry.2, mem_due w.now w.s2c wired.s2c.2 entry queued early, seq⟩⟩⟩
  have all := Transition.foldl_left World.accept (fun left w' => w'.Simulated cfg [] left ∧ Taken w left w')
    (fun resp left w' so => ⟨simulated_accept cfg w' resp left so.1, taken_accept cfg w resp left w' so.1 so.2⟩)
    _ _ ⟨simulated_due_responses cfg w sim, start⟩
  exact all.2

-- ---- one tick of the drain ----

-- What a tick without losses did for a request that is still outstanding.
def World.Advanced (cfg : Config P) (w next : World P G) (i : Nat) : Prop :=
  (next.lastSend[i]? = w.lastSend[i]? ∧ w.now - w.lastSend[i]?.getD 0 < cfg.rto ∨
    next.lastSend[i]? = some w.now ∧ ∃ entry ∈ next.c2s.queue, entry.2.seq = i ∧ cfg.Arrives w.now entry.1) ∧
  (w.Arriving i → i ∈ next.server.pendingReqs ∨
    ∃ entry ∈ next.s2c.queue, entry.2.seq = i ∧ cfg.Arrives w.now entry.1)

structure Ticked (cfg : Config P) (w next : World P G) : Prop where
  now : next.now = w.now + 1
  losses : w.c2s.dropped ≤ next.c2s.dropped ∧ w.s2c.dropped ≤ next.s2c.dropped
  waiting : ∀ i ∈ next.client.outstanding, i ∈ w.client.outstanding ∧
    ∀ entry ∈ w.s2c.queue, entry.1 ≤ w.now → entry.2.seq ≠ i
  c2sKept : ∀ entry ∈ w.c2s.queue, w.now < entry.1 → entry ∈ next.c2s.queue
  s2cKept : ∀ entry ∈ w.s2c.queue, w.now < entry.1 → entry ∈ next.s2c.queue
  c2sFresh : ∀ entry ∈ next.c2s.queue, w.now < entry.1 ∧ (entry ∈ w.c2s.queue ∨ w.client.outstanding ≠ [])
  s2cFresh : ∀ entry ∈ next.s2c.queue, w.now < entry.1 ∧ (entry ∈ w.s2c.queue ∨ ∃ req ∈ w.c2s.queue, req.1 ≤ w.now)
  outcome : (w.c2s.dropped < next.c2s.dropped ∨ w.s2c.dropped < next.s2c.dropped) ∨
    ∀ i ∈ next.client.outstanding, w.Advanced cfg next i

theorem ticked (pf : Platform P G) (cfg : Config P) (w : World P G) (noFailovers : cfg.failovers = 0)
    (sim : w.Simulated cfg [] []) (wired : w.Wired cfg) : Ticked cfg w (w.tick pf cfg) := by
  have sends := retransmitted pf cfg w sim wired
  obtain ⟨client₁, server₁, s2c₁, now₁⟩ := sends.same
  have serves := served pf cfg (w.retransmit pf cfg) noFailovers (simulated_retransmit pf cfg w sim) sends.wired
  obtain ⟨client₂, c2s₂, last₂, now₂⟩ := serves.same
  have wired₂ : ((w.retransmit pf cfg).serve pf).Wired cfg :=
    ⟨c2s₂ ▸ ⟨sends.wired.c2s.1, Multimap.beyond_ordered _ _ sends.wired.c2s.2⟩, serves.link⟩
  have takes := taken cfg ((w.retransmit pf cfg).serve pf) serves.sim wired₂
  obtain ⟨server₃, c2s₃, s2c₃, last₃, now₃⟩ := takes.same
  have c2sQueue : ∀ entry, entry ∈ (w.tick pf cfg).c2s.queue ↔ entry ∈ (w.retransmit pf cfg).c2s.queue ∧ w.now < entry.1 := by
    intro entry
    change entry ∈ ((w.retransmit pf cfg).serve pf).receive.c2s.queue ↔ _
    rw [c2s₃, c2s₂, ← now₁]
    exact Multimap.mem_beyond_iff _ _ sends.wired.c2s.2 entry
  have s2cQueue : ∀ entry, entry ∈ (w.tick pf cfg).s2c.queue ↔
      entry ∈ ((w.retransmit pf cfg).serve pf).s2c.queue ∧ w.now < entry.1 := by
    intro entry
    change entry ∈ ((w.retransmit pf cfg).serve pf).receive.s2c.queue ↔ _
    rw [s2c₃, ← now₁, ← now₂]
    exact Multimap.mem_beyond_iff _ _ serves.link.2 entry
  have c2sDropped : (w.tick pf cfg).c2s.dropped = (w.retransmit pf cfg).c2s.dropped := by
    change ((w.retransmit pf cfg).serve pf).receive.c2s.dropped = _
    rw [c2s₃, c2s₂]
    rfl
  have s2cDropped : (w.tick pf cfg).s2c.dropped = ((w.retransmit pf cfg).serve pf).s2c.dropped := by
    change ((w.retransmit pf cfg).serve pf).receive.s2c.dropped = _
    rw [s2c₃]
    rfl
  have nowStep : (w.tick pf cfg).now = w.now + 1 := by
    change ((w.retransmit pf cfg).serve pf).receive.now + 1 = _
    rw [now₃, now₂, now₁]
  have waiting : ∀ i ∈ (w.tick pf cfg).client.outstanding, i ∈ w.client.outstanding ∧
      ∀ entry ∈ w.s2c.queue, entry.1 ≤ w.now → entry.2.seq ≠ i := by
    intro i open_
    obtain ⟨earlier, due⟩ := takes.open_ i open_
    rw [client₂, client₁] at earlier
    refine ⟨earlier, fun entry queued early same => ?_⟩
    obtain ⟨resp, inside, _⟩ := due entry (serves.kept entry (s2c₁ ▸ queued)) (by omega) same
    cases inside
  refine ⟨nowStep, ⟨c2sDropped ▸ sends.losses, s2cDropped ▸ s2c₁ ▸ serves.losses⟩, waiting, ?_, ?_, ?_, ?_, ?_⟩
  · exact fun entry member late => (c2sQueue entry).mpr ⟨sends.kept entry member, late⟩
  · exact fun entry member late => (s2cQueue entry).mpr ⟨serves.kept entry (s2c₁ ▸ member), late⟩
  · intro entry member
    obtain ⟨inside, late⟩ := (c2sQueue entry).mp member
    exact ⟨late, (sends.fresh entry inside).imp_right And.right⟩
  · intro entry member
    obtain ⟨inside, late⟩ := (s2cQueue entry).mp member
    refine ⟨late, ?_⟩
    by_cases some_ : ∃ req ∈ w.c2s.queue, req.1 ≤ w.now
    · exact Or.inr some_
    · refine Or.inl ?_
      have nothing : ∀ req ∈ (w.retransmit pf cfg).c2s.queue, (w.retransmit pf cfg).now < req.1 := by
        intro req queued
        rcases sends.fresh req queued with old | new
        · rw [now₁]
          exact Nat.lt_of_not_le (fun early => some_ ⟨req, old, early⟩)
        · exact new.1.1
      rw [(serves.quiet nothing).2, s2c₁] at inside
      exact inside
  · rw [c2sDropped, s2cDropped]
    rcases sends.outcome with lost | sent
    · exact Or.inl (Or.inl lost)
    · rcases serves.outcome with lost | moved
      · exact Or.inl (Or.inr (s2c₁ ▸ lost))
      · refine Or.inr (fun i open_ => ?_)
        obtain ⟨earlier, _⟩ := waiting i open_
        have last : (w.tick pf cfg).lastSend = (w.retransmit pf cfg).lastSend := last₃.trans last₂
        constructor
        · rcases sent i earlier with ⟨inside, _⟩ | ⟨same, early⟩ | ⟨now, entry, queued, seq, arrives⟩
          · cases inside
          · exact Or.inl ⟨last ▸ same, now₁ ▸ early⟩
          · rw [now₁] at now arrives
            exact Or.inr ⟨last ▸ now, entry, (c2sQueue entry).mpr ⟨queued, arrives.1⟩, seq, arrives⟩
        · intro arriving
          have there : (w.retransmit pf cfg).Arriving i := by
            rcases arriving with ⟨entry, queued, early, seq⟩ | parked
            · exact Or.inl ⟨entry, sends.kept entry queued, now₁ ▸ early, seq⟩
            · exact Or.inr (server₁ ▸ parked)
          rcases moved i there with ⟨r, inside, _⟩ | parked | ⟨entry, queued, seq, arrives⟩
          · cases inside
          · refine Or.inl ?_
            change i ∈ ((w.retransmit pf cfg).serve pf).receive.server.pendingReqs
            rw [server₃]
            exact parked
          · rw [now₂, now₁] at arrives
            exact Or.inr ⟨entry, (s2cQueue entry).mpr ⟨queued, arrives.1⟩, seq, arrives⟩

end Color
