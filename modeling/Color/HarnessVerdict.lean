import Color.CommitReports
import Color.HarnessRun

set_option autoImplicit false

namespace Color

variable {P G : Type}

-- ---- the table of application calls ----

-- An instance ran the application once for what is in its table, and that is
-- committed and owed to no one.
def RanOnce (sv : Server) : Prop :=
  ∀ (i n : Nat), sv.appCalls[i]? = some n → n = 1 ∧ i ≤ sv.committedUpto ∧ i ∉ sv.awaiting

def Server.ZeroFree (sv : Server) : Prop := ∀ i : Nat, sv.appCalls[i]? ≠ some 0

theorem count_call_zero_free (sv : Server) (seq : Nat) (before : sv.ZeroFree) : (sv.countCall seq).ZeroFree := by
  intro i found
  rw [Server.countCall, Tables.lookup_insert] at found
  split at found
  · simp at found
  · exact before i found

theorem on_request_zero_free (app : AppFn) (sv : Server) (req : Request) (before : sv.ZeroFree) :
    (sv.onRequest app req).1.ZeroFree := by
  apply on_request_rule (fun next _ => next.ZeroFree)
  · exact fun _ => before
  · intro _ _
    apply answer_committed_rule (fun next _ => next.trackBounds.ZeroFree)
    · exact fun _ _ => before
    · exact fun _ _ => count_call_zero_free _ req.seq before
    · exact fun _ _ => before
  · intro _ _
    apply stage_and_advance_rule (fun next _ => next.trackBounds.ZeroFree)
    · exact before
    · exact fun next _ r kept _ => count_call_zero_free _ r.seq kept

theorem ingest_replay_calls (sv : Server) (rp : Replay) : (sv.ingestReplay rp).appCalls = sv.appCalls := by
  apply Transition.foldl_left Server.ingestEvent (fun _ next => next.appCalls = sv.appCalls)
  · intro e _ next same
    rw [← same, Server.ingestEvent]
    split <;> rfl
  · rfl

theorem settle_calls (c : Client) (req : Request) (rounds : Nat) (sv : Server) :
    (c.settle req rounds sv).appCalls = sv.appCalls := by
  apply settle_rule (fun next => next.appCalls = sv.appCalls)
  · exact fun next same _ => (ingest_replay_calls next _).trans same
  · rfl

theorem ran_once_zero_free (sv : Server) (once : RanOnce sv) : sv.ZeroFree := by
  intro i found
  cases (once i 0 found).1

theorem ran_once_replay (reqs : List Request) (sv next : Server) (calls : next.appCalls = sv.appCalls)
    (effect : ReplayEffect reqs sv next) (once : RanOnce sv) : RanOnce next := by
  intro i n found
  rw [calls] at found
  obtain ⟨one, known⟩ := once i n found
  exact ⟨one, replay_keeps_called reqs sv next i effect known⟩

-- A call is made only for an id that is owed or new, so not one in the table.
theorem ran_once_request (reqs : List Request) (app : AppFn) (sv : Server) (req : Request) (issued : Issued reqs)
    (agrees : Agrees reqs sv) (member : req ∈ reqs) (once : RanOnce sv) : RanOnce (sv.onRequest app req).1 := by
  by_cases refused : sv.needsRecover req
  · rw [on_request_refused app sv req refused]
    exact once
  · have effect := on_request_effect reqs app sv req issued agrees member
    have keyed : sv.Keyed := fun s r found => (agrees.holds.parked s r found).2
    obtain ⟨growth, reacts⟩ := on_request_reacts app sv req keyed refused
    have zeroFree := on_request_zero_free app sv req (ran_once_zero_free sv once)
    have distinct : ((sv.onRequest app req).2.calls.map Call.seq).Nodup :=
      effect.order.imp (fun less => Nat.ne_of_lt less)
    intro i n found
    have total : n = sv.appCalls[i]?.getD 0 + ((sv.onRequest app req).2.calls.map Call.seq).count i := by
      rw [← reacts.counted i, found]
      rfl
    by_cases called : i ∈ (sv.onRequest app req).2.calls.map Call.seq
    · obtain ⟨c, made, seq⟩ := List.mem_map.mp called
      have fresh : sv.appCalls[i]? = none := by
        cases before : sv.appCalls[i]? with
        | none => rfl
        | some m =>
            obtain ⟨_, low, settled⟩ := once i m before
            cases due_fresh sv req i (seq ▸ (effect.due c made).2) with
            | inl owed => exact absurd owed settled
            | inr above => omega
      rw [fresh, List.count_eq_one_of_mem distinct called] at total
      exact ⟨total, seq ▸ effect.done c made⟩
    · rw [List.count_eq_zero_of_not_mem called] at total
      cases before : sv.appCalls[i]? with
      | none =>
          rw [before] at total
          have zero : n = 0 := total
          exact absurd (zero ▸ found) (zeroFree i)
      | some m =>
          rw [before] at total
          obtain ⟨one, known⟩ := once i m before
          have same : n = m := total
          exact ⟨same.trans one, request_keeps_called reqs sv _ req _ i effect known⟩

theorem ran_once_step (s s' : Sys) (a : Action) (sys : SysInv s) (once : RanOnce s.server) (taken : s.step a = some s') :
    RanOnce s'.server := by
  cases step_effect s s' a taken with
  | generated | delivered | built | saved => exact once
  | answered req app rounds member =>
      obtain ⟨replayed, _⟩ := exchange_effects s req app rounds sys member
      have settled := ran_once_replay _ _ _ (settle_calls s.client req rounds s.server) replayed once
      exact ran_once_request s.requests app _ req (client_inv_issued _ _ sys.client sys.issued) replayed.agrees member settled
  | ingested _ rp _ sent =>
      exact ran_once_replay _ _ _ (ingest_replay_calls s.server rp) (ingest_effect s rp sys sent) once
  | restored => simp [RanOnce, Server.ofCheckpoint]

theorem reachable_ran_once (guard : Sys → Action → Prop) (clientHash serverHash : Bool) (s : Sys)
    (run : Reachable guard clientHash serverHash s) : RanOnce s.server :=
  run.invariant_with SysInv (fun s => RanOnce s.server) (reachable_sys_inv guard clientHash serverHash)
    (by simp [RanOnce, Sys.init, Server.start]) (fun s a s' sys once _ taken => ran_once_step s s' a sys once taken)

-- Without failovers the table has every committed id.
structure AllRun (sv : Server) : Prop where
  present : ∀ i, 1 ≤ i → i ≤ sv.committedUpto → i ∈ sv.appCalls
  positive : ∀ i ∈ sv.appCalls, 1 ≤ i

theorem mem_calls_iff (sv : Server) (zeroFree : sv.ZeroFree) (i : Nat) : i ∈ sv.appCalls ↔ 0 < sv.appCalls[i]?.getD 0 := by
  rw [Tables.mem_iff_lookup]
  cases found : sv.appCalls[i]? with
  | none => simp
  | some n =>
      have some_ : n ≠ 0 := fun zero => zeroFree i (zero ▸ found)
      simp only [Option.some.injEq, exists_eq', Option.getD_some, true_iff]
      omega

-- With nothing owed from a replay, the calls are for what the request commits.
theorem reaction_calls (sv : Server) (req : Request) (growth : Nat) (news calls : List Nat)
    (reaction : Reaction sv req growth news calls) (idle : sv.awaiting = ∅) :
    calls = List.range' (sv.committedUpto + 1) growth := by
  cases reaction with
  | resent _ stays => rw [stays]; rfl
  | processed _ _ _ owed =>
      rw [idle] at owed
      exact absurd owed (Finset.notMem_empty _)
  | acknowledged _ stays => rw [stays]; rfl
  | advanced => rfl

theorem all_run_request (app : AppFn) (sv : Server) (req : Request) (keyed : sv.Keyed) (accepted : ¬ sv.needsRecover req)
    (zeroFree : sv.ZeroFree) (idle : sv.awaiting = ∅) (before : AllRun sv) : AllRun (sv.onRequest app req).1 := by
  obtain ⟨growth, reacts⟩ := on_request_reacts app sv req keyed accepted
  have after := mem_calls_iff _ (on_request_zero_free app sv req zeroFree)
  have upto := reacts.upto
  have calls := reaction_calls sv req growth _ _ reacts.reaction idle
  have counted : ∀ i, i ∈ (sv.onRequest app req).1.appCalls ↔
      i ∈ sv.appCalls ∨ sv.committedUpto < i ∧ i ≤ (sv.onRequest app req).1.committedUpto := by
    intro i
    rw [after, reacts.counted, mem_calls_iff sv zeroFree, Nat.add_pos_iff_pos_or_pos, List.count_pos_iff, calls,
      List.mem_range'_1, upto]
    omega
  refine ⟨fun i low high => (counted i).mpr ?_, fun i inside => ?_⟩
  · by_cases old : i ≤ sv.committedUpto
    · exact Or.inl (before.present i low old)
    · exact Or.inr ⟨Nat.lt_of_not_le old, high⟩
  · cases (counted i).mp inside with
    | inl old => exact before.positive i old
    | inr new => exact Nat.le_trans (Nat.succ_le_succ (Nat.zero_le _)) new.1

theorem all_run_step (s s' : Sys) (a : Action) (sys : SysInv s) (free : FailureFree s) (before : AllRun s.server)
    (allowed : noCrash s a) (taken : s.step a = some s') (once : RanOnce s.server) : AllRun s'.server := by
  cases step_effect s s' a taken with
  | generated | delivered | built | saved => exact before
  | answered req app rounds member =>
      have accepted := failure_free_accepts s req sys free member
      have keyed : s.server.Keyed := fun k r found => (sys.server.holds.parked k r found).2
      rw [settle_accepted s.client req rounds s.server accepted]
      exact all_run_request app s.server req keyed accepted (ran_once_zero_free _ once) free.idle before
  | ingested _ rp _ sent =>
      rw [free.replays] at sent
      cases sent
  | restored index setHash cp kind =>
      subst kind
      exact absurd allowed id

theorem reachable_all_run (clientHash serverHash : Bool) (s : Sys) (run : Reachable noCrash clientHash serverHash s) :
    AllRun s.server :=
  run.invariant_with (fun s => SysInv s ∧ FailureFree s ∧ RanOnce s.server) (fun s => AllRun s.server)
    (fun s before => ⟨reachable_sys_inv _ _ _ s before, reachable_failure_free _ _ s before, reachable_ran_once _ _ _ s before⟩)
    ⟨fun i low high => absurd (Nat.le_trans low high) (Nat.not_lt_zero 0), fun i inside => by simp [Sys.init, Server.start] at inside⟩
    (fun s a s' known before allowed taken => all_run_step s s' a known.1 known.2.1 before allowed taken known.2.2)

theorem failure_free_table_size (clientHash serverHash : Bool) (s : Sys)
    (run : Reachable noCrash clientHash serverHash s) : s.server.appCalls.size = s.server.committedUpto := by
  have once := reachable_ran_once _ _ _ s run
  have all := reachable_all_run _ _ s run
  have card : (Finset.Icc 1 s.server.committedUpto).card = s.server.committedUpto := by simp
  apply Nat.le_antisymm
  · refine Nat.le_trans (Tables.size_le_card _ (Finset.Icc 1 s.server.committedUpto) (fun i inside => ?_)) (Nat.le_of_eq card)
    obtain ⟨n, found⟩ := (Tables.mem_iff_lookup _ _).mp inside
    exact Finset.mem_Icc.mpr ⟨all.positive i inside, (once i n found).2.1⟩
  · rw [← card]
    refine Tables.card_le_size _ _ (fun i inside => ?_)
    obtain ⟨low, high⟩ := Finset.mem_Icc.mp inside
    exact all.present i low high

-- ---- the verdict on a run ----

theorem all_answered_iff (s : Sys) (sys : SysInv s) :
    s.client.outstanding = [] ↔ ∀ i, 1 ≤ i → i ≤ s.client.nextSeq - 1 → i ∈ s.client.received := by
  have next := sys.client.next
  constructor
  · intro empty i low high
    obtain ⟨r, inReqs, seq⟩ := numbered_exists _ i sys.client.numbered low (by omega)
    by_contra unknown
    have waiting := (outstanding_iff _ _ i sys.issued).mpr ⟨⟨r, inReqs, seq⟩, unknown⟩
    rw [empty] at waiting
    cases waiting
  · intro all
    apply List.eq_nil_iff_forall_not_mem.mpr
    intro i member
    obtain ⟨⟨r, inReqs, seq⟩, unknown⟩ := (outstanding_iff _ _ i sys.issued).mp member
    obtain ⟨_, low, high⟩ := numbered_seq_index _ r sys.client.numbered inReqs
    exact unknown (all i (by omega) (by omega))

theorem full_hash (s : Sys) (sys : SysInv s) (full : s.server.committedUpto = s.client.nextSeq - 1) :
    s.client.history.curHash = s.server.history.curHash := by
  have next := sys.client.next
  rw [sys.client.hash, sys.server.holds.hash, List.take_of_length_le (by omega)]

theorem no_crash_first (clientHash serverHash : Bool) (s : Sys) (run : Reachable noCrash clientHash serverHash s) :
    s.inst = 0 := by
  apply run.invariant (fun s => s.inst = 0) rfl
  intro s a s' first allowed taken
  cases step_effect s s' a taken with
  | generated | answered | delivered | built | ingested | saved => exact first
  | restored index setHash cp kind =>
      subst kind
      exact absurd allowed id

-- A server that never resumed from a checkpoint holds the whole prefix it committed.
theorem no_crash_prefix (clientHash serverHash : Bool) (s : Sys) (run : Reachable noCrash clientHash serverHash s) :
    s.server.history.events <+: s.client.history.events := by
  have sys := reachable_sys_inv _ _ _ s run
  have base : s.server.history.baseCount = 0 :=
    run.invariant (fun s => s.inst = 0 → s.server.history.baseCount = 0) (fun _ => rfl)
      (fun s a s' before _ taken => step_base s s' a before taken) (no_crash_first _ _ s run)
  rw [sys.client.events, sys.server.holds.events, base, List.drop_zero]
  exact sys.server.holds.ordered

theorem paced_windowed_reach (cfg : Config P) (s : Sys) (noFailovers : cfg.failovers = 0) (reach : PacedReach cfg s) :
    Reachable (windowed cfg.parallel) true true s :=
  reach.mono (fun s a allowed => paced_windowed cfg.parallel s a (noFailovers ▸ allowed))

theorem paced_no_crash (cfg : Config P) (s : Sys) (noFailovers : cfg.failovers = 0) (reach : PacedReach cfg s) :
    Reachable noCrash true true s :=
  (paced_windowed_reach cfg s noFailovers reach).mono (windowed_no_crash cfg.parallel)

-- What the checker looks at apart from liveness and bounds.
structure World.Safe (cfg : Config P) (w : World P G) : Prop where
  silent : w.hashMismatches = 0
  once : ∀ row ∈ w.server.appCalls.toList, row.2 = 1
  hash : w.server.committedUpto = w.client.nextSeq - 1 → w.client.history.curHash = w.server.history.curHash
  safety : cfg.failovers = 0 → w.server.history.events <+: w.client.history.events
  called : cfg.failovers = 0 → w.server.appCalls.size = w.server.committedUpto

theorem simulated_safe (cfg : Config P) (w : World P G) (sim : w.Simulated cfg [] []) : w.Safe cfg := by
  obtain ⟨s, reach, shadows⟩ := sim
  have sys := reachable_sys_inv _ _ _ s reach
  have first := paced_no_crash cfg s
  refine ⟨shadows.silent, fun row member => ?_, ?_, fun none => ?_, fun none => ?_⟩
  · obtain ⟨i, n⟩ := row
    have found := Std.ExtTreeMap.mem_toList_iff_getElem?_eq_some.mp member
    rw [← shadows.server] at found
    exact (reachable_ran_once _ _ _ s reach i n found).1
  · rw [← shadows.client, ← shadows.server]
    exact full_hash s sys
  · rw [← shadows.client, ← shadows.server]
    exact no_crash_prefix _ _ s (first none reach)
  · rw [← shadows.server]
    exact failure_free_table_size _ _ s (first none reach)

theorem simulated_answered_iff (cfg : Config P) (w : World P G) (sim : w.Simulated cfg [] []) :
    w.client.outstanding = [] ↔ ∀ i, 1 ≤ i → i ≤ w.client.nextSeq - 1 → i ∈ w.client.received := by
  obtain ⟨s, reach, shadows⟩ := sim
  rw [← shadows.client]
  exact all_answered_iff s (reachable_sys_inv _ _ _ s reach)

theorem simulated_ok_iff (cfg : Config P) (w : World P G) (sim : w.Simulated cfg [] []) :
    (w.stats cfg).result.ok = true ↔ w.client.outstanding = [] ∧ w.server.committedUpto = w.client.nextSeq - 1 ∧
      w.server.maxRespBuffer ≤ cfg.bound ∧ w.server.maxPending ≤ cfg.bound ∧ w.client.maxAckNew ≤ cfg.bound := by
  have safe := simulated_safe cfg w sim
  have answered := simulated_answered_iff cfg w sim
  have none : decide (cfg.failovers > 0) = false → cfg.failovers = 0 := by simp
  rw [stats_result, check_run_ok_iff]
  constructor
  · intro passes
    exact ⟨answered.mpr passes.answered, passes.committed, passes.buffer, passes.pending, passes.ackNew⟩
  · rintro ⟨empty, full, buffer, pending, ackNew⟩
    exact ⟨fun first => safe.safety (none first), safe.hash full, safe.silent, fun first => safe.called (none first),
      safe.once, full, answered.mp empty, buffer, pending, ackNew⟩

theorem wrapped_of_small (n : Int) (low : 0 ≤ n) (high : n < 2 ^ 64) : (wrapped n : Int) = n := by
  rw [wrapped, Int.emod_eq_of_lt low high, Int.toNat_of_nonneg low]

theorem window_within_bound (cfg : Config P) (latency : 0 ≤ cfg.maxLatency)
    (small : 4 * (cfg.parallel + cfg.maxLatency) + 16 < 2 ^ 64) : cfg.parallel ≤ cfg.bound := by
  have value := wrapped_of_small (4 * (cfg.parallel + cfg.maxLatency) + 16) (by omega) small
  rw [Config.bound]
  omega

-- Without failovers the server is never behind what was answered, and the
-- window bounds the marks.
theorem failure_free_ok_iff (cfg : Config P) (w : World P G) (sim : w.Simulated cfg [] []) (noFailovers : cfg.failovers = 0)
    (latency : 0 ≤ cfg.maxLatency) (small : 4 * (cfg.parallel + cfg.maxLatency) + 16 < 2 ^ 64) :
    (w.stats cfg).result.ok = true ↔ w.client.outstanding = [] := by
  rw [simulated_ok_iff cfg w sim]
  have answered := simulated_answered_iff cfg w sim
  obtain ⟨s, reach, shadows⟩ := sim
  have run := paced_windowed_reach cfg s noFailovers reach
  have sys := reachable_sys_inv _ _ _ s run
  have free := reachable_failure_free _ _ s (paced_no_crash cfg s noFailovers reach)
  have marks := reachable_marks cfg.parallel _ _ s run
  have room := window_within_bound cfg latency small
  rw [← shadows.client, ← shadows.server] at *
  refine ⟨fun passes => passes.1, fun empty => ⟨empty, ?_, ?_, ?_, ?_⟩⟩
  · have next := sys.client.next
    have bound := sys.server.bound
    by_cases some_ : 1 ≤ s.client.nextSeq - 1
    · have last := free.upto _ (answered.mp empty (s.client.nextSeq - 1) some_ (Nat.le_refl _))
      omega
    · omega
  · exact Nat.le_trans marks.buffer room
  · exact Nat.le_trans marks.pending (Nat.le_trans (Nat.sub_le _ _) room)
  · exact Nat.le_trans marks.ackNew room

-- Whatever was lost and however many failovers there were, at no point of a run
-- does the checker find safety broken: a run fails only by liveness or bounds.
theorem harness_always_safe (pf : Platform P G) (seed : UInt64) (cfg : Config P) :
    (∀ n, ((List.range n).foldl (World.turn pf cfg) (World.start pf seed cfg)).Safe cfg) ∧
      ∀ n, (((World.start pf seed cfg).generation pf cfg).drain pf cfg n).Safe cfg :=
  ⟨fun n => simulated_safe cfg _ (simulated_turns pf seed cfg n),
    fun n => simulated_safe cfg _ (simulated_drain pf cfg n _ (simulated_turns pf seed cfg cfg.genSteps))⟩

-- A run passes exactly when everything was answered, the server knows of every
-- request, and the three marks are within the bound.
theorem run_one_ok_iff (pf : Platform P G) (seed : UInt64) (cfg : Config P) :
    (runOne pf seed cfg).result.ok = true ↔
      (World.final pf seed cfg).client.outstanding = [] ∧
      (World.final pf seed cfg).server.committedUpto = (World.final pf seed cfg).client.nextSeq - 1 ∧
      (World.final pf seed cfg).server.maxRespBuffer ≤ cfg.bound ∧ (World.final pf seed cfg).server.maxPending ≤ cfg.bound ∧
      (World.final pf seed cfg).client.maxAckNew ≤ cfg.bound :=
  simulated_ok_iff cfg _ (simulated_final pf seed cfg)

theorem exit_code_zero (runs : List RunStats) : exitCode runs = 0 ↔ ∀ st ∈ runs, st.result.ok = true := by
  rw [exitCode]
  split
  · rename_i none
    rw [List.countP_eq_zero] at none
    exact ⟨fun _ st member => by simpa using none st member, fun _ => rfl⟩
  · rename_i some_
    rw [List.countP_eq_zero] at some_
    exact ⟨fun one => absurd one (by decide), fun all => absurd (fun st member => by simp [all st member]) some_⟩

-- Without failovers main reports a failure exactly when some seed leaves a
-- request unanswered at the cap.
theorem failure_free_exit_code (pf : Platform P G) (cfg : Config P) (noFailovers : cfg.failovers = 0)
    (latency : 0 ≤ cfg.maxLatency) (small : 4 * (cfg.parallel + cfg.maxLatency) + 16 < 2 ^ 64) :
    exitCode (runSeeds pf cfg) = 0 ↔
      ∀ k < cfg.seeds, (World.final pf (cfg.baseSeed + k.toUInt64) cfg).client.outstanding = [] := by
  have each : ∀ k : Nat, (runOne pf (cfg.baseSeed + k.toUInt64) cfg).result.ok = true ↔
      (World.final pf (cfg.baseSeed + k.toUInt64) cfg).client.outstanding = [] :=
    fun k => failure_free_ok_iff cfg _ (simulated_final pf _ cfg) noFailovers latency small
  rw [exit_code_zero, runSeeds, List.forall_mem_map]
  simp only [List.mem_range, each]

theorem failure_free_exit_code_short :
    exitCode (runSeeds countingPlatform ({ seeds := 2, rate := 1, drop := 30, dup := 10, genSteps := 5 } : Config Nat)) = 0 ↔
      ∀ k < 2, (World.final countingPlatform (1 + k.toUInt64)
        ({ seeds := 2, rate := 1, drop := 30, dup := 10, genSteps := 5 } : Config Nat)).client.outstanding = [] :=
  failure_free_exit_code countingPlatform { seeds := 2, rate := 1, drop := 30, dup := 10, genSteps := 5 } rfl (by decide)
    (by decide)

end Color
