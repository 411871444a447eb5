import Color.ReplayEffect
import Color.RequestEffect
import Color.System

set_option autoImplicit false

namespace Color

-- A checkpoint records a state of the agreed order.
structure CheckpointOk (reqs : List Request) (cp : Checkpoint) : Prop where
  bound : cp.committedUpto ≤ reqs.length
  count : cp.eventCount = (canonical (reqs.take cp.committedUpto)).length
  hash : cp.historyHash = rolling (canonical (reqs.take cp.committedUpto))
  rows : ∀ b ∈ cp.buffer, (1 ≤ b.seq ∧ b.seq ≤ cp.committedUpto) ∧ b.hash = rolling (canonical (reqs.take b.seq))

theorem checkpoint_row (sv : Server) (walk : Walk) (b : BufferedResponse) (member : b ∈ (sv.checkpoint walk).buffer) :
    sv.respBuffer[b.seq]? = some b.payload ∧ b.hash = sv.reqHash[b.seq]?.getD 0 := by
  obtain ⟨⟨s, payload⟩, walked, eq⟩ := List.mem_map.mp member
  have stored := (walk.permutes _).mem_iff.mp walked
  subst eq
  exact ⟨Std.ExtTreeMap.mem_toList_iff_getElem?_eq_some.mp stored, rfl⟩

theorem checkpoint_ok (reqs : List Request) (sv : Server) (walk : Walk) (agrees : Agrees reqs sv) :
    CheckpointOk reqs (sv.checkpoint walk) := by
  refine ⟨agrees.bound, agrees.holds.count, agrees.holds.hash, fun b member => ?_⟩
  obtain ⟨stored, hash⟩ := checkpoint_row sv walk b member
  obtain ⟨h, found⟩ := (Tables.mem_iff_lookup _ _).mp (agrees.holds.buffered b.seq ((Tables.mem_iff_lookup _ _).mpr ⟨_, stored⟩))
  rw [hash, found]
  exact agrees.holds.reqHash b.seq h found

theorem of_checkpoint_agrees (reqs : List Request) (cp : Checkpoint) (setHash : Bool) (numbered : Numbered reqs)
    (ok : CheckpointOk reqs cp) : Agrees reqs (.ofCheckpoint cp setHash) := by
  refine ⟨⟨canonical_take_initial reqs _, ?_, ?_, ok.hash, ?_, ?_, ?_, ?_, ?_⟩, ok.bound⟩
  · exact ok.count
  · exact (List.drop_of_length_le (Nat.le_of_eq ok.count.symm)).symm
  · exact (last_request_canonical reqs _ numbered ok.bound).symm
  · intro k r parked
    simp [Server.ofCheckpoint] at parked
  · intro s h found
    obtain ⟨b, member, seq, eq⟩ := Tables.lookup_insert_all_some BufferedResponse.seq BufferedResponse.hash cp.buffer s h found
    rw [← seq, ← eq]
    exact ok.rows b member
  · intro s member
    exact (Tables.mem_insert_all BufferedResponse.seq BufferedResponse.hash cp.buffer s).mpr
      ((Tables.mem_insert_all BufferedResponse.seq BufferedResponse.payload cp.buffer s).mp member)
  · intro s member
    simp [Server.ofCheckpoint] at member

-- ---- a further request changes no earlier prefix ----

section Growth

variable (reqs more : List Request)

theorem take_issued (m : Nat) (bound : m ≤ reqs.length) : (reqs ++ more).take m = reqs.take m :=
  List.take_append_of_le_length bound

theorem agrees_grow (sv : Server) (agrees : Agrees reqs sv) : Agrees (reqs ++ more) sv := by
  have longer : reqs.length ≤ (reqs ++ more).length := by simp
  have holds := agrees.holds
  refine ⟨?_, Nat.le_trans agrees.bound longer⟩
  rw [take_issued reqs more _ agrees.bound]
  refine ⟨?_, holds.count, holds.events, holds.hash, holds.upto, ?_, ?_, holds.buffered, holds.owed⟩
  · exact holds.ordered.trans ⟨canonical more, (canonical_append reqs more).symm⟩
  · exact fun k r parked => ⟨List.mem_append_left _ (holds.parked k r parked).1, (holds.parked k r parked).2⟩
  · intro s h found
    obtain ⟨bounds, eq⟩ := holds.reqHash s h found
    rw [take_issued reqs more s (Nat.le_trans bounds.2 agrees.bound)]
    exact ⟨bounds, eq⟩

theorem resp_ok_grow (resp : Response) (ok : RespOk reqs resp) : RespOk (reqs ++ more) resp := by
  obtain ⟨⟨low, high⟩, hash⟩ := ok
  refine ⟨⟨low, by rw [List.length_append]; omega⟩, ?_⟩
  rw [take_issued reqs more _ high]
  exact hash

theorem checkpoint_ok_grow (cp : Checkpoint) (ok : CheckpointOk reqs cp) : CheckpointOk (reqs ++ more) cp := by
  have taken := take_issued reqs more _ ok.bound
  have bound := ok.bound
  refine ⟨by rw [List.length_append]; omega, taken ▸ ok.count, taken ▸ ok.hash, fun b member => ?_⟩
  obtain ⟨bounds, eq⟩ := ok.rows b member
  rw [take_issued reqs more _ (Nat.le_trans bounds.2 ok.bound)]
  exact ⟨bounds, eq⟩

end Growth

theorem on_request_signal (app : AppFn) (sv : Server) (req : Request) :
    ∀ resp ∈ (sv.onRequest app req).2.responses, resp.recover = true →
      resp.recoverFrom = (sv.onRequest app req).1.history.eventCount := by
  intro resp member signal
  have recover := (on_request_recover_iff app sv req).mp (List.any_eq_true.mpr ⟨resp, member, signal⟩)
  rw [on_request_refused app sv req recover] at member ⊢
  rw [List.mem_singleton.mp member]
  rfl

theorem agrees_count_mono (reqs : List Request) (sv next : Server) (before : Agrees reqs sv) (after : Agrees reqs next)
    (forward : sv.committedUpto ≤ next.committedUpto) : sv.history.eventCount ≤ next.history.eventCount := by
  rw [before.holds.count, after.holds.count]
  exact (canonical_take_mono reqs _ _ forward).length_le

theorem settle_effect (reqs : List Request) (c : Client) (req : Request) (rounds : Nat) (sv : Server)
    (inv : ClientInv reqs c) (issued : Issued reqs) (agrees : Agrees reqs sv) :
    ReplayEffect reqs sv (c.settle req rounds sv) := by
  apply settle_rule (ReplayEffect reqs sv)
  · intro next effect _
    exact replay_effect_trans reqs _ _ _ effect
      (replay_effect reqs next _ issued effect.agrees (build_replay_ok reqs c _ inv) (Nat.le_refl _))
  · exact replay_effect_refl reqs sv agrees

structure SysInv (s : Sys) : Prop where
  client : ClientInv s.requests s.client
  issued : ClientIssued s.requests s.client
  server : Agrees s.requests s.server
  normal : ∀ inst resp, (inst, resp) ∈ s.responses → resp.recover = false → RespOk s.requests resp
  signal : ∀ inst resp, (inst, resp) ∈ s.responses → resp.recover = true →
    inst ≤ s.inst ∧ (inst = s.inst → resp.recoverFrom ≤ s.server.history.eventCount)
  replays : ∀ inst rp, (inst, rp) ∈ s.replays →
    (inst ≤ s.inst ∧ (inst = s.inst → rp.fromIndex ≤ s.server.history.eventCount)) ∧ ReplayOk s.requests rp
  checkpoints : ∀ cp ∈ s.checkpoints, CheckpointOk s.requests cp
  silent : ∀ m, Obs.mismatch m ∉ s.log

theorem exchange_effects (s : Sys) (req : Request) (app : AppFn) (rounds : Nat) (inv : SysInv s) (member : req ∈ s.requests) :
    ReplayEffect s.requests s.server (s.client.settle req rounds s.server) ∧
      RequestEffect s.requests (s.client.settle req rounds s.server) req
        ((s.client.settle req rounds s.server).onRequest app req).1
        ((s.client.settle req rounds s.server).onRequest app req).2 := by
  have issued := client_inv_issued _ _ inv.client inv.issued
  have replayed := settle_effect s.requests s.client req rounds s.server inv.client issued inv.server
  exact ⟨replayed, on_request_effect s.requests app _ req issued replayed.agrees member⟩

theorem ingest_effect (s : Sys) (rp : Replay) (inv : SysInv s) (sent : (s.inst, rp) ∈ s.replays) :
    ReplayEffect s.requests s.server (s.server.ingestReplay rp) := by
  obtain ⟨⟨_, fits⟩, ok⟩ := inv.replays _ rp sent
  exact replay_effect s.requests s.server rp (client_inv_issued _ _ inv.client inv.issued) inv.server ok (fits rfl)

theorem sys_init_inv (clientHash serverHash : Bool) : SysInv (Sys.init clientHash serverHash) := by
  have start : Agrees [] (Server.start none serverHash) := by
    refine ⟨⟨List.prefix_refl _, rfl, rfl, rfl, rfl, ?_, ?_, ?_, ?_⟩, Nat.le_refl _⟩ <;> simp [Server.start]
  refine ⟨client_fresh clientHash, client_fresh_issued clientHash, start, ?_, ?_, ?_, ?_, ?_⟩
  · simp [Sys.init]
  · simp [Sys.init]
  · simp [Sys.init]
  · intro cp member
    rw [List.mem_singleton.mp member]
    exact checkpoint_ok [] _ _ start
  · simp [Sys.init]

theorem generate_sys_inv (s : Sys) (p : Payload) (inv : SysInv s) :
    SysInv { s with client := (s.client.generateRequest p).2, requests := s.requests ++ [(s.client.generateRequest p).1] } := by
  refine ⟨generate_request_inv _ _ p inv.client, generate_request_issued _ _ p inv.client inv.issued,
    agrees_grow _ _ _ inv.server, ?_, inv.signal, ?_, ?_, inv.silent⟩
  · exact fun inst resp member kind => resp_ok_grow _ _ resp (inv.normal inst resp member kind)
  · intro inst rp member
    obtain ⟨position, m, bound, events⟩ := inv.replays inst rp member
    refine ⟨position, m, by rw [List.length_append]; omega, ?_⟩
    rw [take_issued _ _ m bound]
    exact events
  · exact fun cp member => checkpoint_ok_grow _ _ cp (inv.checkpoints cp member)

-- Handling a request on a server that is at least as far as the current one.
theorem answer_sys_inv (s : Sys) (sv : Server) (req : Request) (app : AppFn) (inv : SysInv s)
    (member : req ∈ s.requests) (agrees : Agrees s.requests sv) (forward : s.server.committedUpto ≤ sv.committedUpto) :
    SysInv (s.answer req (sv.onRequest app req)) := by
  obtain ⟨after, onward, responses, quiet⟩ :=
    on_request_agrees s.requests app sv req (client_inv_issued _ _ inv.client inv.issued) agrees member
  have ahead := agrees_count_mono _ _ _ inv.server after (Nat.le_trans forward onward)
  refine ⟨inv.client, inv.issued, after, ?_, ?_, ?_, inv.checkpoints, ?_⟩
  · intro inst resp inside kind
    rcases (answer_sent s req _ inst resp).mp inside with old | ⟨_, emitted⟩
    · exact inv.normal inst resp old kind
    · exact responses resp emitted kind
  · intro inst resp inside kind
    rcases (answer_sent s req _ inst resp).mp inside with old | ⟨here, emitted⟩
    · obtain ⟨bound, position⟩ := inv.signal inst resp old kind
      exact ⟨bound, fun current => Nat.le_trans (position current) ahead⟩
    · exact ⟨Nat.le_of_eq here, fun _ => Nat.le_of_eq (on_request_signal app sv req resp emitted kind)⟩
  · intro inst rp inside
    obtain ⟨⟨bound, position⟩, ok⟩ := inv.replays inst rp inside
    exact ⟨⟨bound, fun current => Nat.le_trans (position current) ahead⟩, ok⟩
  · intro m logged
    cases List.mem_append.mp logged with
    | inl old => exact inv.silent m old
    | inr new =>
        rw [mismatch_mem_observed, quiet] at new
        cases new

theorem deliver_sys_inv (s : Sys) (inst : Nat) (resp : Response) (inv : SysInv s) (sent : (inst, resp) ∈ s.responses)
    (normal : resp.recover = false) : SysInv (s.deliver resp) := by
  obtain ⟨names, hash⟩ := inv.normal inst resp sent normal
  refine ⟨on_response_inv _ _ resp inv.client, on_response_issued _ _ resp inv.issued names, inv.server, inv.normal,
    inv.signal, inv.replays, inv.checkpoints, ?_⟩
  have quiet : (s.client.onResponse resp).1.mismatch = none := by
    rw [Client.onResponse]
    split
    · rfl
    · have agree : hashMismatch resp.seq resp.hash s.client.reqHash[resp.seq]? = none := by
        apply hash_mismatch_none
        intro g e sentHash own
        rw [hash g sentHash, ((inv.client.reqHash resp.seq e).mp own).2]
      change (if s.client.setHash then hashMismatch resp.seq resp.hash s.client.reqHash[resp.seq]? else none) = none
      rw [agree]
      split <;> rfl
  intro m logged
  rcases (deliver_log s resp _).mp logged with old | ⟨_, received⟩ | ⟨_, fired, _⟩
  · exact inv.silent m old
  · cases received
  · rw [quiet] at fired
    cases fired

theorem ingest_sys_inv (s : Sys) (rp : Replay) (inv : SysInv s)
    (effect : ReplayEffect s.requests s.server (s.server.ingestReplay rp)) :
    SysInv { s with server := s.server.ingestReplay rp } := by
  have after := effect.agrees
  have ahead := agrees_count_mono _ _ _ inv.server after effect.upto
  refine ⟨inv.client, inv.issued, after, inv.normal, ?_, ?_, inv.checkpoints, inv.silent⟩
  · intro inst resp member kind
    obtain ⟨known, position⟩ := inv.signal inst resp member kind
    exact ⟨known, fun current => Nat.le_trans (position current) ahead⟩
  · intro inst other member
    obtain ⟨⟨known, position⟩, ok⟩ := inv.replays inst other member
    exact ⟨⟨known, fun current => Nat.le_trans (position current) ahead⟩, ok⟩

-- A crash makes every recovery signal and replay on the network one of an earlier instance.
theorem crash_sys_inv (s : Sys) (cp : Checkpoint) (setHash : Bool) (inv : SysInv s) (taken : cp ∈ s.checkpoints) :
    SysInv { s with server := .ofCheckpoint cp setHash, inst := s.inst + 1, restored := cp } := by
  refine ⟨inv.client, inv.issued, of_checkpoint_agrees _ cp setHash inv.client.numbered (inv.checkpoints cp taken),
    inv.normal, ?_, ?_, inv.checkpoints, inv.silent⟩
  · intro inst resp member kind
    have earlier := (inv.signal inst resp member kind).1
    exact ⟨Nat.le_succ_of_le earlier, fun current => absurd current (by simp only; omega)⟩
  · intro inst rp member
    have earlier := (inv.replays inst rp member).1.1
    exact ⟨⟨Nat.le_succ_of_le earlier, fun current => absurd current (by simp only; omega)⟩, (inv.replays inst rp member).2⟩

theorem step_sys_inv (s s' : Sys) (a : Action) (inv : SysInv s) (taken : s.step a = some s') : SysInv s' := by
  cases step_effect s s' a taken with
  | generated p => exact generate_sys_inv s p inv
  | answered req app rounds member =>
      have replayed := (exchange_effects s req app rounds inv member).1
      exact answer_sys_inv s _ req app inv member replayed.agrees replayed.upto
  | delivered _ inst resp _ sent normal => exact deliver_sys_inv s inst resp inv (List.mem_of_getElem? sent) normal
  | built inst resp sent signal =>
      refine ⟨inv.client, inv.issued, inv.server, inv.normal, inv.signal, ?_, inv.checkpoints, inv.silent⟩
      intro i rp member
      cases List.mem_append.mp member with
      | inl old => exact inv.replays i rp old
      | inr new =>
          cases List.mem_singleton.mp new
          exact ⟨inv.signal inst resp sent signal, build_replay_ok _ _ _ inv.client⟩
  | ingested _ rp _ sent => exact ingest_sys_inv s rp inv (ingest_effect s rp inv sent)
  | saved walk =>
      refine ⟨inv.client, inv.issued, inv.server, inv.normal, inv.signal, inv.replays, ?_, inv.silent⟩
      intro cp member
      cases List.mem_cons.mp member with
      | inl new =>
          rw [new]
          exact checkpoint_ok _ _ walk inv.server
      | inr old => exact inv.checkpoints cp old
  | restored _ setHash cp _ found => exact crash_sys_inv s cp setHash inv (List.mem_of_getElem? found)

theorem reachable_sys_inv (guard : Sys → Action → Prop) (clientHash serverHash : Bool) (s : Sys)
    (run : Reachable guard clientHash serverHash s) : SysInv s :=
  run.invariant SysInv (sys_init_inv clientHash serverHash) (fun s a s' inv _ taken => step_sys_inv s s' a inv taken)

theorem on_request_base (app : AppFn) (sv : Server) (req : Request) :
    (sv.onRequest app req).1.history.baseCount = sv.history.baseCount := by
  apply on_request_rule (fun next _ => next.history.baseCount = sv.history.baseCount)
  · exact fun _ => rfl
  · intro _ _
    exact answer_committed_rule (fun next _ => next.trackBounds.history.baseCount = sv.history.baseCount) app _ req
      (fun _ _ => rfl) (fun _ _ => rfl) (fun _ _ => rfl)
  · intro _ _
    apply stage_and_advance_rule (fun next _ => next.history.baseCount = sv.history.baseCount)
    · rfl
    · intro next _ r same _
      change (next.history.commitRequest r.ackNew r.seq).baseCount = _
      rw [commit_request_append_all, append_all_base, same]

theorem ingest_replay_base (sv : Server) (rp : Replay) :
    (sv.ingestReplay rp).history.baseCount = sv.history.baseCount := by
  rw [ingest_replay_eq, ingest_fold_history, append_all_base]

theorem step_base (s s' : Sys) (a : Action) (before : s.inst = 0 → s.server.history.baseCount = 0)
    (taken : s.step a = some s') : s'.inst = 0 → s'.server.history.baseCount = 0 := by
  cases step_effect s s' a taken with
  | generated | delivered | built | saved => exact before
  | answered req app rounds =>
      intro first
      refine (on_request_base app _ req).trans ?_
      exact settle_rule (fun sv => sv.history.baseCount = 0) s.client req
        (fun sv zero _ => (ingest_replay_base sv _).trans zero) rounds s.server (before first)
  | ingested _ rp => exact fun first => (ingest_replay_base _ rp).trans (before first)
  | restored =>
      intro first
      cases first

-- Across any number of failovers the server holds a prefix of the client's
-- order, and no hash comparison fails on either side. Before the first crash
-- the prefix is the server's own event list.
theorem single_total_order (clientHash serverHash : Bool) (s : Sys)
    (run : Reachable anyAction clientHash serverHash s) :
    Follows s.client.history.events s.server ∧ (∀ m, Obs.mismatch m ∉ s.log) ∧
      (s.inst = 0 → s.server.history.events <+: s.client.history.events) := by
  have inv := reachable_sys_inv anyAction clientHash serverHash s run
  have follows := agrees_follows s.requests s.server inv.server
  rw [← inv.client.events] at follows
  refine ⟨follows, inv.silent, fun first => ?_⟩
  have base : s.inst = 0 → s.server.history.baseCount = 0 :=
    run.invariant (fun s => s.inst = 0 → s.server.history.baseCount = 0) (fun _ => rfl)
      (fun s a s' before _ taken => step_base s s' a before taken)
  rw [follows.events, base first, List.drop_zero]
  exact List.take_prefix _ _

-- A failover in the middle of a conversation: request 2 was committed after the
-- last checkpoint and answered, and request 3 makes the new server ask for it.
def failoverRun : List Action :=
  [.generate [1], .request 0 (fun _ _ _ => [11]), .response 0, .checkpoint .ascending, .generate [2], .request 1 (fun _ _ _ => [12]),
    .response 1, .generate [3], .crash 0 true, .request 2 (fun _ _ _ => [13]), .buildReplay 2, .replay 0,
    .request 2 (fun _ _ _ => [13]), .response 3]

theorem single_total_order_failover :
    (Sys.after anyAction true true failoverRun).client.received = {1, 2, 3} ∧
    (Follows (Sys.after anyAction true true failoverRun).client.history.events (Sys.after anyAction true true failoverRun).server ∧
      (∀ m, Obs.mismatch m ∉ (Sys.after anyAction true true failoverRun).log) ∧
      ((Sys.after anyAction true true failoverRun).inst = 0 →
        (Sys.after anyAction true true failoverRun).server.history.events <+:
          (Sys.after anyAction true true failoverRun).client.history.events)) :=
  ⟨by decide +kernel, single_total_order true true _ (reachable_after anyAction true true failoverRun)⟩

end Color
