import Color.FailureFree
import Color.LostRequest

set_option autoImplicit false

namespace Color

-- ---- the system as the HTTP stack runs it ----

-- What is left of a call that its process did not survive.
def Outcome.cut (out : Outcome) (calls reports : Nat) : Outcome :=
  { calls := out.calls.take calls, mismatches := out.mismatches.take reports }

-- The application and the mismatch callback are outside: what they were told stays told.
def Sys.witnessed (s : Sys) (out : Outcome) : Sys :=
  { s with log := s.log ++ out.calls.map (Obs.invoked s.inst) ++ out.mismatches.map Obs.mismatch }

-- A replay is posted to whatever server is up by then, and a server may fall
-- inside on_request, between two calls of the application.
inductive StackAction where
  | act (a : Action)
  | replay (index : Nat)
  | fall (index : Nat) (app : AppFn) (calls reports : Nat) (setHash : Bool)

-- ingest_replay works where the replay starts within the server's history.
def Sys.stackStep (s : Sys) : StackAction → Option Sys
  | .act a => s.step a
  | .replay index =>
      s.replays[index]?.bind (fun sent =>
        if sent.2.fromIndex ≤ s.server.history.eventCount then some { s with server := s.server.ingestReplay sent.2 }
        else none)
  | .fall index app calls reports setHash =>
      s.requests[index]?.bind (fun req =>
        (s.witnessed ((s.server.onRequest app req).2.cut calls reports)).step (.crash 0 setHash))

-- Handshakes take their own POSTs, and a crash restores the latest checkpoint.
def stackAction (_ : Sys) : StackAction → Prop
  | .act (.exchange _ _) => False
  | .act (.crash index _) => index = 0
  | _ => True

abbrev StackReach (clientHash serverHash : Bool) : Sys → Prop :=
  Transition.Reach Sys.stackStep stackAction (Sys.init clientHash serverHash)

inductive Sys.StackEffect (s : Sys) (a : StackAction) : Sys → Prop where
  | acted (act : Action) (s' : Sys) (kind : a = .act act) (taken : s.step act = some s') : StackEffect s a s'
  | ingested (inst : Nat) (rp : Replay) (sent : (inst, rp) ∈ s.replays)
      (fits : rp.fromIndex ≤ s.server.history.eventCount) : StackEffect s a { s with server := s.server.ingestReplay rp }
  | fell (req : Request) (app : AppFn) (calls reports : Nat) (setHash : Bool) (cp : Checkpoint) (member : req ∈ s.requests)
      (latest : s.checkpoints[0]? = some cp) :
      StackEffect s a { s.witnessed ((s.server.onRequest app req).2.cut calls reports) with
        server := .ofCheckpoint cp setHash, inst := s.inst + 1, restored := cp }

theorem stack_step_effect (s s' : Sys) (a : StackAction) (taken : s.stackStep a = some s') : s.StackEffect a s' := by
  cases a with
  | act a => exact .acted a s' rfl taken
  | replay index =>
      obtain ⟨⟨inst, rp⟩, found, rest⟩ := Option.bind_eq_some_iff.mp taken
      split at rest
      · rename_i fits
        cases rest
        exact .ingested inst rp (List.mem_of_getElem? found) fits
      · cases rest
  | fall index app calls reports setHash =>
      obtain ⟨req, found, rest⟩ := Option.bind_eq_some_iff.mp taken
      obtain ⟨cp, latest, rfl⟩ := Option.map_eq_some_iff.mp rest
      exact .fell req app calls reports setHash cp (List.mem_of_getElem? found) latest

-- ---- the agreed order ----

theorem stack_ingest_effect (s : Sys) (inst : Nat) (rp : Replay) (inv : SysInv s) (sent : (inst, rp) ∈ s.replays)
    (fits : rp.fromIndex ≤ s.server.history.eventCount) :
    ReplayEffect s.requests s.server (s.server.ingestReplay rp) :=
  replay_effect s.requests s.server rp (client_inv_issued _ _ inv.client inv.issued) inv.server
    (inv.replays inst rp sent).2 fits

theorem witnessed_log (s : Sys) (out : Outcome) (o : Obs) : o ∈ (s.witnessed out).log ↔
    o ∈ s.log ∨ (∃ c ∈ out.calls, o = .invoked s.inst c) ∨ ∃ m ∈ out.mismatches, o = .mismatch m := by
  simp [Sys.witnessed, eq_comm]

theorem witnessed_sys_inv (s : Sys) (req : Request) (app : AppFn) (calls reports : Nat) (inv : SysInv s)
    (member : req ∈ s.requests) : SysInv (s.witnessed ((s.server.onRequest app req).2.cut calls reports)) := by
  obtain ⟨_, _, _, quiet⟩ :=
    on_request_agrees s.requests app s.server req (client_inv_issued _ _ inv.client inv.issued) inv.server member
  refine ⟨inv.client, inv.issued, inv.server, inv.normal, inv.signal, inv.replays, inv.checkpoints, fun m logged => ?_⟩
  rcases (witnessed_log s _ _).mp logged with old | ⟨c, _, other⟩ | ⟨m', fired, _⟩
  · exact inv.silent m old
  · cases other
  · rw [Outcome.cut, quiet] at fired
    simp at fired

theorem stack_step_sys_inv (s s' : Sys) (a : StackAction) (inv : SysInv s) (taken : s.stackStep a = some s') :
    SysInv s' := by
  cases stack_step_effect s s' a taken with
  | acted act _ _ taken => exact step_sys_inv s s' act inv taken
  | ingested inst rp sent fits => exact ingest_sys_inv s rp inv (stack_ingest_effect s inst rp inv sent fits)
  | fell req app calls reports setHash cp member latest =>
      exact crash_sys_inv _ cp setHash (witnessed_sys_inv s req app calls reports inv member) (List.mem_of_getElem? latest)

theorem stack_sys_inv (clientHash serverHash : Bool) (s : Sys) (run : StackReach clientHash serverHash s) : SysInv s :=
  run.invariant SysInv (sys_init_inv clientHash serverHash) (fun s a s' inv _ taken => stack_step_sys_inv s s' a inv taken)

-- ---- the first server ----

-- Before the first crash nobody has asked for a replay.
theorem first_no_crash (clientHash serverHash : Bool) (s : Sys) (run : StackReach clientHash serverHash s)
    (first : s.inst = 0) : Reachable noCrash clientHash serverHash s := by
  induction run with
  | refl => exact .refl
  | @next s s' a _ allowed taken ih =>
      cases stack_step_effect s s' a taken with
      | acted act _ same taken =>
          have kind : noCrash s act := by
            cases act with
            | crash index setHash =>
                obtain ⟨cp, _, rfl⟩ := Option.map_eq_some_iff.mp taken
                exact absurd first (Nat.succ_ne_zero s.inst)
            | generate | request | exchange | response | buildReplay | replay | checkpoint => trivial
          have earlier : s.inst = 0 := by
            cases step_effect s s' act taken with
            | restored => exact absurd first (Nat.succ_ne_zero s.inst)
            | generated | answered | delivered | built | ingested | saved => exact first
          exact (ih earlier).next kind taken
      | ingested inst rp sent _ =>
          have none := (reachable_failure_free clientHash serverHash s (ih first)).replays
          rw [none] at sent
          cases sent
      | fell => exact absurd first (Nat.succ_ne_zero s.inst)

-- ---- where results come from ----

-- Any application call is made with the payload of the request it is for, and whatever a
-- server answers, buffers or saves came out of such a call.
structure Sourced (s : Sys) : Prop where
  calls : ∀ inst c, Obs.invoked inst c ∈ s.log → ∃ r ∈ s.requests, r.seq = c.seq ∧ r.payload = c.payload
  buffered : ∀ (i : Nat) (p : Payload), s.server.respBuffer[i]? = some p → Produced s.log i p
  saved : ∀ cp ∈ s.checkpoints, ∀ b ∈ cp.buffer, Produced s.log b.seq b.payload
  plain : ∀ inst resp, (inst, resp) ∈ s.responses → resp.recover = false → resp.noOp = false →
    Produced s.log resp.seq resp.payload

theorem on_request_payloads (reqs : List Request) (app : AppFn) (sv : Server) (req : Request) (issued : Issued reqs)
    (agrees : Agrees reqs sv) (member : req ∈ reqs) :
    ∀ c ∈ (sv.onRequest app req).2.calls, ∃ r ∈ reqs, r.seq = c.seq ∧ r.payload = c.payload := by
  apply on_request_rule (fun _ out => ∀ c ∈ out.calls, ∃ r ∈ reqs, r.seq = c.seq ∧ r.payload = c.payload)
  · exact fun _ _ none => absurd none List.not_mem_nil
  · intro _ _
    apply answer_committed_rule (fun _ out => ∀ c ∈ out.calls, ∃ r ∈ reqs, r.seq = c.seq ∧ r.payload = c.payload)
    · exact fun _ _ _ none => absurd none List.not_mem_nil
    · intro _ _ c called
      rw [List.mem_singleton.mp called]
      exact ⟨req, member, rfl, rfl⟩
    · exact fun _ _ _ none => absurd none List.not_mem_nil
  · intro _ _ c called
    have released := agrees_release reqs sv req agrees
    have drained := stage_and_advance_drained reqs app (sv.releaseAcked req) req issued released member
    obtain ⟨r, parked, payload⟩ := drained.parkedCalls c called
    have known := (agrees_stage reqs _ req released member).holds.parked c.seq r parked
    exact ⟨r, known.1, known.2, payload⟩

theorem sourced_init (clientHash serverHash : Bool) : Sourced (Sys.init clientHash serverHash) := by
  refine ⟨fun _ _ none => absurd none List.not_mem_nil, ?_, ?_, fun _ _ none => absurd none List.not_mem_nil⟩
  · intro i p found
    simp [Sys.init, Server.start] at found
  · intro cp member b row
    rw [List.mem_singleton.mp member] at row
    simp [Server.start, Server.checkpoint, Walk.ascending] at row

theorem sourced_answer (s : Sys) (sv : Server) (req : Request) (app : AppFn) (sys : SysInv s) (sourced : Sourced s)
    (member : req ∈ s.requests) (replayed : ReplayEffect s.requests s.server sv)
    (effect : RequestEffect s.requests sv req (sv.onRequest app req).1 (sv.onRequest app req).2) :
    Sourced (s.answer req (sv.onRequest app req)) := by
  have issued := client_inv_issued _ _ sys.client sys.issued
  have older (seq : Nat) (payload : Payload) (before : Produced s.log seq payload) :
      Produced (s.answer req (sv.onRequest app req)).log seq payload := produced_mono s.log _ seq payload before
  have called (c : Call) (inside : c ∈ (sv.onRequest app req).2.calls) :
      Produced (s.answer req (sv.onRequest app req)).log c.seq c.result :=
    ⟨s.inst, c, List.mem_append_right _ ((invoked_mem_observed s.inst s.inst c req _).mpr ⟨rfl, inside⟩), rfl, rfl⟩
  have kept (i : Nat) (p : Payload) (found : sv.respBuffer[i]? = some p) :
      Produced (s.answer req (sv.onRequest app req)).log i p :=
    older i p (sourced.buffered i p (replayed.buffer i p found))
  refine ⟨fun inst c logged => ?_, fun i p stored => ?_, fun cp taken b row => older _ _ (sourced.saved cp taken b row),
    fun inst resp sent normal plain => ?_⟩
  · rcases List.mem_append.mp logged with old | new
    · exact sourced.calls inst c old
    · have inside := ((invoked_mem_observed inst s.inst c req _).mp new).2
      exact on_request_payloads s.requests app sv req issued replayed.agrees member c inside
  · rcases effect.buffer i p stored with old | ⟨c, inside, rfl, rfl⟩
    · exact kept i p old
    · exact called c inside
  · rcases (answer_sent s req _ inst resp).mp sent with old | ⟨_, emitted⟩
    · exact older _ _ (sourced.plain inst resp old normal plain)
    · rcases effect.answers resp emitted normal plain with stored | ⟨c, inside, seq, result⟩
      · exact kept _ _ stored
      · rw [← seq, ← result]
        exact called c inside

theorem deliver_invokes_nothing (s : Sys) (resp : Response) (inst : Nat) (c : Call)
    (called : Obs.invoked inst c ∈ (s.deliver resp).log) : Obs.invoked inst c ∈ s.log := by
  rcases (deliver_log s resp _).mp called with old | ⟨_, other⟩ | ⟨_, _, other⟩
  · exact old
  · cases other
  · cases other

theorem sourced_deliver (s : Sys) (resp : Response) (sourced : Sourced s) : Sourced (s.deliver resp) := by
  have older (seq : Nat) (payload : Payload) (before : Produced s.log seq payload) :
      Produced (s.deliver resp).log seq payload := by
    obtain ⟨g, c, member, facts⟩ := before
    exact ⟨g, c, (deliver_log s resp _).mpr (Or.inl member), facts⟩
  exact ⟨fun inst c logged => sourced.calls inst c (deliver_invokes_nothing s resp inst c logged),
    fun i p stored => older i p (sourced.buffered i p stored),
    fun cp taken b row => older _ _ (sourced.saved cp taken b row),
    fun inst other sent normal plain => older _ _ (sourced.plain inst other sent normal plain)⟩

theorem restored_sourced (s : Sys) (cp : Checkpoint) (setHash : Bool) (sourced : Sourced s) (taken : cp ∈ s.checkpoints) :
    Sourced { s with server := .ofCheckpoint cp setHash, inst := s.inst + 1, restored := cp } := by
  refine ⟨sourced.calls, fun i p stored => ?_, sourced.saved, sourced.plain⟩
  obtain ⟨b, row, seq, payload⟩ :=
    Tables.lookup_insert_all_some BufferedResponse.seq BufferedResponse.payload cp.buffer i p stored
  rw [← seq, ← payload]
  exact sourced.saved cp taken b row

theorem sourced_step (s s' : Sys) (a : Action) (sys : SysInv s) (sourced : Sourced s) (taken : s.step a = some s') :
    Sourced s' := by
  cases step_effect s s' a taken with
  | generated p =>
      refine ⟨fun inst c logged => ?_, sourced.buffered, sourced.saved, sourced.plain⟩
      obtain ⟨r, member, facts⟩ := sourced.calls inst c logged
      exact ⟨r, List.mem_append_left _ member, facts⟩
  | answered req app rounds member =>
      obtain ⟨replayed, effect⟩ := exchange_effects s req app rounds sys member
      exact sourced_answer s _ req app sys sourced member replayed effect
  | delivered _ _ resp => exact sourced_deliver s resp sourced
  | built => exact ⟨sourced.calls, sourced.buffered, sourced.saved, sourced.plain⟩
  | ingested _ rp _ sent =>
      have effect := ingest_effect s rp sys sent
      exact ⟨sourced.calls, fun i p found => sourced.buffered i p (effect.buffer i p found), sourced.saved, sourced.plain⟩
  | saved walk =>
      refine ⟨sourced.calls, sourced.buffered, fun cp member b row => ?_, sourced.plain⟩
      cases List.mem_cons.mp member with
      | inl new =>
          rw [new] at row
          exact sourced.buffered _ _ (checkpoint_row s.server walk b row).1
      | inr old => exact sourced.saved cp old b row
  | restored index setHash cp kind found => exact restored_sourced s cp setHash sourced (List.mem_of_getElem? found)

theorem witnessed_sourced (s : Sys) (req : Request) (app : AppFn) (calls reports : Nat) (sys : SysInv s) (sourced : Sourced s)
    (member : req ∈ s.requests) : Sourced (s.witnessed ((s.server.onRequest app req).2.cut calls reports)) := by
  have issued := client_inv_issued _ _ sys.client sys.issued
  have older (seq : Nat) (payload : Payload) (before : Produced s.log seq payload) :
      Produced (s.witnessed ((s.server.onRequest app req).2.cut calls reports)).log seq payload := by
    obtain ⟨g, c, inside, facts⟩ := before
    exact ⟨g, c, (witnessed_log s _ _).mpr (Or.inl inside), facts⟩
  refine ⟨fun inst c logged => ?_, fun i p stored => older i p (sourced.buffered i p stored),
    fun cp taken b row => older _ _ (sourced.saved cp taken b row),
    fun inst resp sent normal plain => older _ _ (sourced.plain inst resp sent normal plain)⟩
  rcases (witnessed_log s _ _).mp logged with old | ⟨made, inside, same⟩ | ⟨m, _, other⟩
  · exact sourced.calls inst c old
  · cases same
    exact on_request_payloads s.requests app s.server req issued sys.server member c (List.mem_of_mem_take inside)
  · cases other

theorem stack_step_sourced (s s' : Sys) (a : StackAction) (sys : SysInv s) (sourced : Sourced s)
    (taken : s.stackStep a = some s') : Sourced s' := by
  cases stack_step_effect s s' a taken with
  | acted act _ _ taken => exact sourced_step s s' act sys sourced taken
  | ingested inst rp sent fits =>
      have effect := stack_ingest_effect s inst rp sys sent fits
      exact ⟨sourced.calls, fun i p found => sourced.buffered i p (effect.buffer i p found), sourced.saved, sourced.plain⟩
  | fell req app calls reports setHash cp member latest =>
      exact restored_sourced _ cp setHash (witnessed_sourced s req app calls reports sys sourced member)
        (List.mem_of_getElem? latest)

theorem stack_sourced (clientHash serverHash : Bool) (s : Sys) (run : StackReach clientHash serverHash s) : Sourced s :=
  run.invariant_with SysInv Sourced (stack_sys_inv clientHash serverHash) (sourced_init clientHash serverHash)
    (fun s a s' sys sourced _ taken => stack_step_sourced s s' a sys sourced taken)

end Color
