import Color.Harness
import Color.Drain
import Color.Window

set_option autoImplicit false

namespace Color

-- The actions run_one takes: a request is generated only inside the window,
-- and a crash restores the last checkpoint, if failovers are asked for at all.
def harnessPaced (failovers parallel : Nat) (s : Sys) : Action → Prop
  | .generate _ => s.client.outstanding.length < parallel
  | .crash index _ => 0 < failovers ∧ index = 0
  | .request _ _ | .buildReplay _ | .replay _ => False
  | .exchange _ _ | .response _ | .checkpoint _ => True

theorem paced_windowed (parallel : Nat) (s : Sys) (a : Action) (allowed : harnessPaced 0 parallel s a) :
    windowed parallel s a := by
  cases a with
  | generate p => exact allowed
  | exchange | response | checkpoint => trivial
  | request | buildReplay | replay => exact allowed.elim
  | crash index setHash => exact absurd allowed.1 (Nat.lt_irrefl 0)

variable {P G : Type}

-- A state of the system behind one of the harness. Messages popped from a link
-- and not yet handed over are listed apart.
structure Shadows (w : World P G) (reqs : List Request) (resps : List Response) (s : Sys) : Prop where
  client : s.client = w.client
  server : s.server = w.server
  inst : s.inst = w.failoversDone
  saved : s.checkpoints[0]? = some w.lastCkpt
  requests : ∀ r, (∃ entry ∈ w.c2s.queue, entry.2 = r) ∨ r ∈ reqs → r ∈ s.requests
  responses : ∀ resp, (∃ entry ∈ w.s2c.queue, entry.2 = resp) ∨ resp ∈ resps →
    resp.recover = false ∧ ∃ inst, (inst, resp) ∈ s.responses
  silent : w.hashMismatches = 0

abbrev PacedReach (cfg : Config P) : Sys → Prop := Reachable (harnessPaced cfg.failovers cfg.parallel) true true

def World.Simulated (cfg : Config P) (w : World P G) (reqs : List Request) (resps : List Response) : Prop :=
  ∃ s, PacedReach cfg s ∧ Shadows w reqs resps s

theorem shadows_send_request (pf : Platform P G) (w : World P G) (reqs : List Request) (resps : List Response) (s : Sys)
    (r : Request) (shadows : Shadows w reqs resps s) (issued : r ∈ s.requests) :
    Shadows (w.sendRequest pf r) reqs resps s := by
  refine ⟨shadows.client, shadows.server, shadows.inst, shadows.saved, ?_, shadows.responses, shadows.silent⟩
  rintro req (⟨entry, queued, same⟩ | inHand)
  · cases send_queue pf w.now r w.c2s w.rng entry queued with
    | inl old => exact shadows.requests req (Or.inl ⟨entry, old, same⟩)
    | inr new => exact same ▸ new.1 ▸ issued
  · exact shadows.requests req (Or.inr inHand)

theorem shadows_send_response (pf : Platform P G) (w : World P G) (reqs : List Request) (resps : List Response) (s : Sys)
    (resp : Response) (shadows : Shadows w reqs resps s) (normal : resp.recover = false)
    (answered : ∃ inst, (inst, resp) ∈ s.responses) : Shadows (w.sendResponse pf resp) reqs resps s := by
  refine ⟨shadows.client, shadows.server, shadows.inst, shadows.saved, shadows.requests, ?_, shadows.silent⟩
  rintro other (⟨entry, queued, same⟩ | inHand)
  · cases send_queue pf w.now resp w.s2c w.rng entry queued with
    | inl old => exact shadows.responses other (Or.inl ⟨entry, old, same⟩)
    | inr new => exact same ▸ new.1 ▸ ⟨normal, answered⟩
  · exact shadows.responses other (Or.inr inHand)

theorem generate_outstanding (c : Client) (p : Payload) :
    (c.generateRequest p).2.outstanding.length ≤ c.outstanding.length + 1 := by
  change (c.inflight.insert _ _).keys.length ≤ c.inflight.keys.length + 1
  rw [Std.ExtTreeMap.length_keys, Std.ExtTreeMap.length_keys]
  exact Std.ExtTreeMap.size_insert_le

theorem simulated_arrive (pf : Platform P G) (cfg : Config P) (left out : Nat) (w : World P G)
    (counted : w.client.outstanding.length ≤ out) (sim : w.Simulated cfg [] []) :
    (World.arrive pf cfg left out w).Simulated cfg [] [] := by
  induction left generalizing out w with
  | zero => exact sim
  | succ left ih =>
      rw [World.arrive]
      split
      · rename_i room
        obtain ⟨s, reach, shadows⟩ := sim
        have allowed : harnessPaced cfg.failovers cfg.parallel s (.generate (cliPayload w.now (pf.draw w.rng).1)) := by
          change s.client.outstanding.length < cfg.parallel
          rw [shadows.client]
          omega
        apply ih (out + 1)
        · exact Nat.le_trans (generate_outstanding w.client _) (Nat.succ_le_succ counted)
        · refine ⟨_, reach.next allowed rfl, ?_⟩
          apply shadows_send_request
          · refine ⟨?_, shadows.server, shadows.inst, shadows.saved, ?_, shadows.responses, shadows.silent⟩
            · rw [shadows.client]
            · exact fun req where_ => List.mem_append_left _ (shadows.requests req where_)
          · rw [shadows.client]
            exact List.mem_append_right _ (List.mem_singleton.mpr rfl)
      · exact sim

theorem simulated_generate (pf : Platform P G) (cfg : Config P) (w : World P G) (sim : w.Simulated cfg [] []) :
    (w.generate pf cfg).Simulated cfg [] [] := by
  obtain ⟨s, reach, shadows⟩ := sim
  exact simulated_arrive pf cfg _ _ _ (Nat.le_refl _) ⟨s, reach, ⟨shadows.client, shadows.server, shadows.inst,
    shadows.saved, shadows.requests, shadows.responses, shadows.silent⟩⟩

-- Only frozen requests are sent again.
theorem simulated_retry (pf : Platform P G) (cfg : Config P) (w : World P G) (i : Nat) (sim : w.Simulated cfg [] []) :
    (w.retry pf cfg i).Simulated cfg [] [] := by
  rw [World.retry]
  split
  · cases found : w.client.frozen i with
    | none => exact sim
    | some r =>
        obtain ⟨s, reach, shadows⟩ := sim
        have sys := reachable_sys_inv _ _ _ s reach
        have issued : r ∈ s.requests := ((sys.issued.waiting i r).mp (shadows.client ▸ found)).1.1
        exact ⟨s, reach, shadows_send_request pf w [] [] s r shadows issued⟩
  · exact sim

theorem simulated_retransmit (pf : Platform P G) (cfg : Config P) (w : World P G) (sim : w.Simulated cfg [] []) :
    (w.retransmit pf cfg).Simulated cfg [] [] :=
  Transition.foldl_left (World.retry pf cfg) (fun _ w => w.Simulated cfg [] [])
    (fun i _ w before => simulated_retry pf cfg w i before) _ w sim

-- A reachable server is asked again at most once, so no recovery signal is put on the link.
theorem exchange_normal (s : Sys) (req : Request) (app : AppFn) (sys : SysInv s) (member : req ∈ s.requests) :
    ∀ resp ∈ (harnessExchange s.client app req s.server).2.responses, resp.recover = false := by
  have issued := client_inv_issued _ _ sys.client sys.issued
  have settled := (settle_reaches s.requests s.client s.server req 8 sys.client issued sys.server member (by decide)).1
  have normal := on_request_recover_iff app (s.client.settle req 8 s.server) req
  rw [harness_exchange_settle]
  intro resp inside
  cases kind : resp.recover with
  | false => rfl
  | true => exact absurd (normal.mp (List.any_eq_true.mpr ⟨resp, inside, kind⟩)) settled

theorem exchange_silent (s : Sys) (req : Request) (app : AppFn)
    (sys : SysInv (s.answer req (harnessExchange s.client app req s.server))) :
    (harnessExchange s.client app req s.server).2.mismatches = [] := by
  apply List.eq_nil_iff_forall_not_mem.mpr
  intro m inside
  exact sys.silent m (List.mem_append_right _ ((mismatch_mem_observed m _ _ _).mpr inside))

theorem simulated_handle (pf : Platform P G) (cfg : Config P) (w : World P G) (req : Request) (reqs : List Request)
    (resps : List Response) (sim : w.Simulated cfg (req :: reqs) resps) :
    (w.handle pf req).Simulated cfg reqs resps := by
  obtain ⟨s, reach, shadows⟩ := sim
  have sys := reachable_sys_inv _ _ _ s reach
  have member := shadows.requests req (Or.inr List.mem_cons_self)
  obtain ⟨index, found⟩ := List.mem_iff_getElem?.mp member
  have taken : s.step (.exchange index (srvApp w.now)) =
      some (s.answer req (harnessExchange s.client (srvApp w.now) req s.server)) := by
    rw [Sys.step, found]
    rfl
  have allowed : harnessPaced cfg.failovers cfg.parallel s (.exchange index (srvApp w.now)) := trivial
  have next : PacedReach cfg (s.answer req (harnessExchange s.client (srvApp w.now) req s.server)) := reach.next allowed taken
  have normal := exchange_normal s req (srvApp w.now) sys member
  have silent := exchange_silent s req (srvApp w.now) (reachable_sys_inv _ _ _ _ next)
  have sent := answer_sent s req (harnessExchange s.client (srvApp w.now) req s.server)
  have start : Shadows { w with
      server := (harnessExchange w.client (srvApp w.now) req w.server).1
      hashMismatches := w.hashMismatches + (harnessExchange w.client (srvApp w.now) req w.server).2.mismatches.length }
      reqs resps (s.answer req (harnessExchange s.client (srvApp w.now) req s.server)) := by
    rw [shadows.client, shadows.server] at silent ⊢
    refine ⟨shadows.client, rfl, shadows.inst, shadows.saved, ?_, ?_, ?_⟩
    · exact fun r where_ => shadows.requests r (where_.imp_right (List.mem_cons_of_mem _))
    · intro resp where_
      obtain ⟨plain, inst, old⟩ := shadows.responses resp where_
      exact ⟨plain, inst, List.mem_append_left _ old⟩
    · simp [silent, shadows.silent]
  rw [shadows.client, shadows.server] at normal sent next start
  have all := Transition.foldl_left (World.sendResponse pf)
    (fun (left : List Response) w' => (∀ resp ∈ left, resp ∈ (harnessExchange w.client (srvApp w.now) req w.server).2.responses) ∧
      Shadows w' reqs resps (s.answer req (harnessExchange w.client (srvApp w.now) req w.server)))
    (by
      rintro resp rest w' ⟨emitted, before⟩
      have now := emitted resp List.mem_cons_self
      exact ⟨fun other inside => emitted other (List.mem_cons_of_mem _ inside),
        shadows_send_response pf w' reqs resps _ resp before (normal resp now)
          ⟨s.inst, (sent s.inst resp).mpr (Or.inr ⟨rfl, now⟩)⟩⟩)
    (harnessExchange w.client (srvApp w.now) req w.server).2.responses _ ⟨fun _ inside => inside, start⟩
  exact ⟨_, next, all.2⟩

-- What due hands out was on the link, and what it leaves still is.
theorem simulated_due_requests (cfg : Config P) (w : World P G) (sim : w.Simulated cfg [] []) :
    World.Simulated cfg { w with c2s := (w.c2s.due w.now).2 } (w.c2s.due w.now).1 [] := by
  obtain ⟨s, reach, shadows⟩ := sim
  refine ⟨s, reach, shadows.client, shadows.server, shadows.inst, shadows.saved, ?_, shadows.responses, shadows.silent⟩
  rintro r (⟨entry, later, same⟩ | due)
  · exact shadows.requests r (Or.inl ⟨entry, (Multimap.mem_split w.now _ entry).mpr (Or.inr later), same⟩)
  · obtain ⟨entry, queued, same, _⟩ := due_queued w.now w.c2s r due
    exact shadows.requests r (Or.inl ⟨entry, queued, same⟩)

theorem simulated_due_responses (cfg : Config P) (w : World P G) (sim : w.Simulated cfg [] []) :
    World.Simulated cfg { w with s2c := (w.s2c.due w.now).2 } [] (w.s2c.due w.now).1 := by
  obtain ⟨s, reach, shadows⟩ := sim
  refine ⟨s, reach, shadows.client, shadows.server, shadows.inst, shadows.saved, shadows.requests, ?_, shadows.silent⟩
  rintro resp (⟨entry, later, same⟩ | due)
  · exact shadows.responses resp (Or.inl ⟨entry, (Multimap.mem_split w.now _ entry).mpr (Or.inr later), same⟩)
  · obtain ⟨entry, queued, same, _⟩ := due_queued w.now w.s2c resp due
    exact shadows.responses resp (Or.inl ⟨entry, queued, same⟩)

theorem simulated_serve (pf : Platform P G) (cfg : Config P) (w : World P G) (sim : w.Simulated cfg [] []) :
    (w.serve pf).Simulated cfg [] [] :=
  Transition.foldl_left (World.handle pf) (fun left w => w.Simulated cfg left [])
    (fun req rest w before => simulated_handle pf cfg w req rest [] before) _ _ (simulated_due_requests cfg w sim)

theorem simulated_accept (cfg : Config P) (w : World P G) (resp : Response) (resps : List Response)
    (sim : w.Simulated cfg [] (resp :: resps)) : (w.accept resp).Simulated cfg [] resps := by
  obtain ⟨s, reach, shadows⟩ := sim
  obtain ⟨normal, inst, sent⟩ := shadows.responses resp (Or.inr List.mem_cons_self)
  obtain ⟨index, found⟩ := List.mem_iff_getElem?.mp sent
  have taken : s.step (.response index) = some (s.deliver resp) := by
    rw [Sys.step, found]
    simp [normal]
  have allowed : harnessPaced cfg.failovers cfg.parallel s (.response index) := trivial
  have next : PacedReach cfg (s.deliver resp) := reach.next allowed taken
  have silent : (s.client.onResponse resp).1.mismatch = none := by
    cases found : (s.client.onResponse resp).1.mismatch with
    | none => rfl
    | some m =>
        have logged := (deliver_log s resp (.mismatch m)).mpr (Or.inr (Or.inr ⟨m, found, rfl⟩))
        exact absurd logged ((reachable_sys_inv _ _ _ _ next).silent m)
  refine ⟨_, next, ?_, shadows.server, shadows.inst, shadows.saved, shadows.requests, ?_, ?_⟩
  · change (s.client.onResponse resp).2 = (w.client.onResponse resp).2
    rw [shadows.client]
  · exact fun other where_ => shadows.responses other (where_.imp_right (List.mem_cons_of_mem _))
  · change w.hashMismatches + (w.client.onResponse resp).1.mismatch.toList.length = 0
    rw [← shadows.client, silent, shadows.silent]
    rfl

theorem simulated_receive (cfg : Config P) (w : World P G) (sim : w.Simulated cfg [] []) : w.receive.Simulated cfg [] [] :=
  Transition.foldl_left World.accept (fun left w => w.Simulated cfg [] left)
    (fun resp rest w before => simulated_accept cfg w resp rest before) _ _ (simulated_due_responses cfg w sim)

theorem simulated_step (pf : Platform P G) (cfg : Config P) (generating : Bool) (w : World P G)
    (sim : w.Simulated cfg [] []) : (w.step pf cfg generating).Simulated cfg [] [] := by
  apply simulated_receive
  apply simulated_serve
  apply simulated_retransmit
  cases generating with
  | true => exact simulated_generate pf cfg w sim
  | false => exact sim

theorem simulated_clock (cfg : Config P) (w : World P G) (now : Nat) (sim : w.Simulated cfg [] []) :
    World.Simulated cfg { w with now := now } [] [] := by
  obtain ⟨s, reach, shadows⟩ := sim
  exact ⟨s, reach, shadows.client, shadows.server, shadows.inst, shadows.saved, shadows.requests, shadows.responses,
    shadows.silent⟩

theorem simulated_refresh (pf : Platform P G) (cfg : Config P) (i : Nat) (w : World P G) (sim : w.Simulated cfg [] []) :
    (w.refresh pf cfg i).Simulated cfg [] [] := by
  rw [World.refresh]
  split
  · obtain ⟨s, reach, shadows⟩ := sim
    have allowed : harnessPaced cfg.failovers cfg.parallel s (.checkpoint (pf.entries w.rng)) := trivial
    refine ⟨_, reach.next allowed rfl, shadows.client, shadows.server, shadows.inst, ?_, shadows.requests,
      shadows.responses, shadows.silent⟩
    change some (s.server.checkpoint (pf.entries w.rng)) = some (w.server.checkpoint (pf.entries w.rng))
    rw [shadows.server]
  · exact sim

theorem simulated_failover (cfg : Config P) (i : Nat) (w : World P G) (sim : w.Simulated cfg [] []) :
    (w.failover cfg i).Simulated cfg [] [] := by
  rw [World.failover]
  split
  · rename_i due
    obtain ⟨s, reach, shadows⟩ := sim
    have allowed : harnessPaced cfg.failovers cfg.parallel s (.crash 0 true) := ⟨by omega, rfl⟩
    have taken : s.step (.crash 0 true) =
        some { s with server := .ofCheckpoint w.lastCkpt true, inst := s.inst + 1, restored := w.lastCkpt } := by
      rw [Sys.step, shadows.saved]
      rfl
    exact ⟨_, reach.next allowed taken, shadows.client, rfl, congrArg (· + 1) shadows.inst, shadows.saved,
      shadows.requests, shadows.responses, shadows.silent⟩
  · exact sim

theorem simulated_turn (pf : Platform P G) (cfg : Config P) (w : World P G) (i : Nat) (sim : w.Simulated cfg [] []) :
    (w.turn pf cfg i).Simulated cfg [] [] :=
  simulated_clock cfg _ _ (simulated_failover cfg i _ (simulated_refresh pf cfg i _ (simulated_step pf cfg true w sim)))

theorem simulated_start (pf : Platform P G) (seed : UInt64) (cfg : Config P) :
    (World.start pf seed cfg).Simulated cfg [] [] := by
  refine ⟨_, .refl, rfl, rfl, rfl, rfl, ?_, ?_, rfl⟩ <;> simp [World.start]

theorem simulated_turns (pf : Platform P G) (seed : UInt64) (cfg : Config P) (n : Nat) :
    ((List.range n).foldl (World.turn pf cfg) (World.start pf seed cfg)).Simulated cfg [] [] :=
  Transition.foldl_left (World.turn pf cfg) (fun _ w => w.Simulated cfg [] [])
    (fun i _ w before => simulated_turn pf cfg w i before) _ _ (simulated_start pf seed cfg)

theorem simulated_drain (pf : Platform P G) (cfg : Config P) (left : Nat) (w : World P G) (sim : w.Simulated cfg [] []) :
    (w.drain pf cfg left).Simulated cfg [] [] := by
  induction left generalizing w with
  | zero => exact sim
  | succ left ih =>
      rw [World.drain]
      split
      · exact sim
      · exact ih _ (simulated_clock cfg _ _ (simulated_step pf cfg false w sim))

theorem simulated_final (pf : Platform P G) (seed : UInt64) (cfg : Config P) :
    (World.final pf seed cfg).Simulated cfg [] [] :=
  simulated_drain pf cfg cfg.drainCap _ (simulated_turns pf seed cfg cfg.genSteps)

-- The harness only ever drives the two cores through states of the system: both
-- endpoints, the saved checkpoint and every copy on a link are those of a run
-- that paces its requests, settles handshakes on the spot and crashes at most
-- to the last checkpoint.
theorem harness_refines_system (pf : Platform P G) (seed : UInt64) (cfg : Config P) :
    (∀ n, ((List.range n).foldl (World.turn pf cfg) (World.start pf seed cfg)).Simulated cfg [] []) ∧
      ∀ n, (((World.start pf seed cfg).generation pf cfg).drain pf cfg n).Simulated cfg [] [] :=
  ⟨fun n => simulated_turns pf seed cfg n,
    fun n => simulated_drain pf cfg n _ (simulated_turns pf seed cfg cfg.genSteps)⟩

end Color
