import Color.ClientCanonical
import Color.Interceptor
import Color.ReplayEffect
import Color.ReplayFit
import Color.System

set_option autoImplicit false

namespace Color

-- No committed request is left hanging: what is held waits for a later commit,
-- and what is parked waits behind a gap.
structure Interceptor.NoneHanging (ic : Interceptor) : Prop where
  held : ∀ s ∈ ic.pending, ic.core.committedUpto < s
  parked : ∀ s ∈ ic.core.pendingReqs, ic.core.committedUpto + 1 < s

-- The ids of the request events that ingest_replay takes in.
def Server.replayed (sv : Server) (rp : Replay) : List Nat :=
  let have_ := sv.history.eventCount
  let skip := if have_ > rp.fromIndex then have_ - rp.fromIndex else 0
  ((rp.events.drop skip).filter (fun e => !e.isResponse)).map ReplayEvent.seq

-- The replay stays below everything that waits.
def Interceptor.Undisturbed (ic : Interceptor) (rp : Replay) : Prop :=
  ∀ i ∈ ic.core.replayed rp, (∀ s ∈ ic.pending, i < s) ∧ ∀ s ∈ ic.core.pendingReqs, i + 1 < s

def HttpCall.Passes (call : HttpCall) (ic : Interceptor) : Prop :=
  call.req.header (text "Color-Replay") ≠ [] → ic.Undisturbed (fromJsonReplay call.req.readBody).2

theorem ingest_events_upto (events : List ReplayEvent) (sv : Server) (s : Nat) :
    (events.foldl Server.ingestEvent sv).committedUpto < s ↔
      sv.committedUpto < s ∧ ∀ i ∈ (events.filter (fun e => !e.isResponse)).map ReplayEvent.seq, i < s := by
  induction events generalizing sv with
  | nil => simp
  | cons e events ih =>
      rw [List.foldl_cons, ih]
      cases kind : e.isResponse with
      | true =>
          have upto : (sv.ingestEvent e).committedUpto = sv.committedUpto := by simp [Server.ingestEvent, kind]
          simp [upto, kind]
      | false =>
          have upto : (sv.ingestEvent e).committedUpto = if e.seq > sv.committedUpto then e.seq else sv.committedUpto := by
            simp [Server.ingestEvent, kind]
          simp only [upto, kind, Bool.not_false, List.filter_cons_of_pos, List.map_cons, List.forall_mem_cons]
          by_cases above : e.seq > sv.committedUpto
          · rw [if_pos above]
            exact ⟨fun both => ⟨by omega, both⟩, fun both => both.2⟩
          · rw [if_neg above]
            exact ⟨fun both => ⟨both.1, by omega, both.2⟩, fun both => ⟨both.1, both.2.2⟩⟩

theorem ingest_replay_parked (sv : Server) (rp : Replay) : (sv.ingestReplay rp).pendingReqs = sv.pendingReqs := by
  rw [Server.ingestReplay]
  generalize rp.events.drop _ = events
  induction events generalizing sv with
  | nil => rfl
  | cons e events ih => rw [List.foldl_cons, ih, ingest_event_parked]

theorem on_replay_none_hanging (ic : Interceptor) (object : Nat) (req : ServerRequest) (clear : ic.NoneHanging) :
    (ic.onReplay object req).1.NoneHanging ↔ ic.Undisturbed (fromJsonReplay req.readBody).2 := by
  generalize rpEq : (fromJsonReplay req.readBody).2 = rp
  have core : (ic.onReplay object req).1.core = ic.core.ingestReplay rp := by rw [← rpEq]; rfl
  have held : (ic.onReplay object req).1.pending = ic.pending := rfl
  have upto : ∀ s, (ic.core.ingestReplay rp).committedUpto < s ↔
      ic.core.committedUpto < s ∧ ∀ i ∈ ic.core.replayed rp, i < s := fun s => ingest_events_upto _ ic.core s
  constructor
  · intro after i member
    constructor
    · intro s inside
      have above := after.held s inside
      rw [core] at above
      exact ((upto s).mp above).2 i member
    · intro s inside
      have above := after.parked s (by rwa [core, ingest_replay_parked])
      rw [core] at above
      have below := ((upto (s - 1)).mp (by omega)).2 i member
      omega
  · intro below
    constructor
    · intro s inside
      rw [core]
      exact (upto s).mpr ⟨clear.held s inside, fun i member => (below i member).1 s inside⟩
    · intro s inside
      rw [core, ingest_replay_parked] at inside
      have gap := clear.parked s inside
      have under := (upto (s - 1)).mpr ⟨by omega, fun i member => by
        have := (below i member).2 s inside
        omega⟩
      rw [core]
      omega

-- Parked requests are stored under their own ids.
def Server.Keyed (sv : Server) : Prop := ∀ (s : Nat) (r : Request), sv.pendingReqs[s]? = some r → r.seq = s

-- What an accepted call answers, whatever requests came before.
structure Answers (sv : Server) (seq : Nat) (next : Server) (out : Outcome) : Prop where
  answered : ∀ t, t ≤ next.committedUpto → t = seq ∨ sv.committedUpto < t → ∃ resp ∈ out.responses, resp.seq = t
  parked : ∀ s ∈ next.pendingReqs, next.committedUpto + 1 < s

theorem stage_keyed (sv : Server) (req : Request) (keyed : sv.Keyed) : (sv.stage req).Keyed := by
  intro s r found
  cases Tables.insert_found _ _ _ _ _ found with
  | inl own => rw [← own.2, own.1]
  | inr old => exact keyed s r old

theorem commit_keyed (app : AppFn) (sv : Server) (r : Request) (keyed : sv.Keyed) : (sv.commit app r).1.Keyed := by
  intro s other found
  change (sv.pendingReqs.erase (sv.committedUpto + 1))[s]? = some other at found
  exact keyed s other (Tables.erase_found _ _ _ _ found).2

theorem on_request_keyed (app : AppFn) (sv : Server) (req : Request) (keyed : sv.Keyed) :
    (sv.onRequest app req).1.Keyed := by
  apply on_request_rule (fun next _ => next.Keyed)
  · exact fun _ => keyed
  · intro _ _
    apply answer_committed_rule (fun next _ => next.trackBounds.Keyed)
    · exact fun _ _ => keyed
    · exact fun _ _ => keyed
    · exact fun _ _ => keyed
  · intro _ _
    apply stage_and_advance_rule (fun next _ => next.Keyed)
    · exact stage_keyed _ req keyed
    · exact fun next _ r before _ => commit_keyed app next r before

-- The commit loop, from an origin whose parked requests are all ahead of it.
structure Advances (sv next : Server) (out : Outcome) : Prop where
  keyed : next.Keyed
  answered : ∀ t, t ≤ next.committedUpto → sv.committedUpto < t → ∃ resp ∈ out.responses, resp.seq = t
  parked : ∀ s ∈ next.pendingReqs, next.committedUpto < s

theorem advances_commit (app : AppFn) (origin sv : Server) (out : Outcome) (r : Request) (before : Advances origin sv out)
    (found : sv.pendingReqs[sv.committedUpto + 1]? = some r) :
    Advances origin (sv.commit app r).1 (out ++ (sv.commit app r).2) := by
  have seq : r.seq = sv.committedUpto + 1 := before.keyed _ r found
  have upto : (sv.commit app r).1.committedUpto = r.seq := rfl
  have parked : (sv.commit app r).1.pendingReqs = sv.pendingReqs.erase (sv.committedUpto + 1) := rfl
  refine ⟨commit_keyed app sv r before.keyed, ?_, ?_⟩
  · intro t below above
    rw [upto, seq] at below
    rw [outcome_append_responses, commit_responses]
    by_cases last : t = sv.committedUpto + 1
    · exact ⟨_, List.mem_append_right _ List.mem_cons_self, seq.trans last.symm⟩
    · obtain ⟨resp, member, same⟩ := before.answered t (by omega) above
      exact ⟨resp, List.mem_append_left _ member, same⟩
  · intro s member
    rw [parked, Tables.mem_erase_iff] at member
    have ahead := before.parked s member.2
    omega

theorem stage_and_advance_advances (app : AppFn) (sv : Server) (req : Request) (keyed : sv.Keyed)
    (ahead : ∀ s ∈ sv.pendingReqs, sv.committedUpto < s) (fresh : sv.committedUpto < req.seq) :
    Advances sv (sv.stageAndAdvance app req).1 (sv.stageAndAdvance app req).2 := by
  apply stage_and_advance_rule (Advances sv)
  · refine ⟨stage_keyed sv req keyed, fun t below above => absurd below (Nat.not_le.mpr above), ?_⟩
    intro s member
    cases (Tables.mem_insert_iff _ _ _ _).mp member with
    | inl own => exact own ▸ fresh
    | inr old => exact ahead s old
  · exact fun next out r before found => advances_commit app sv next out r before found

theorem on_request_answers (app : AppFn) (sv : Server) (req : Request) (keyed : sv.Keyed)
    (gap : ∀ s ∈ sv.pendingReqs, sv.committedUpto + 1 < s) (accepted : ¬ sv.needsRecover req) :
    Answers sv req.seq (sv.onRequest app req).1 (sv.onRequest app req).2 := by
  apply on_request_rule (fun next out => Answers sv req.seq next out)
  · exact fun refused => absurd refused accepted
  · intro _ known
    have answer : ∀ (next : Server) (out : Outcome), next.pendingReqs = sv.pendingReqs →
        next.committedUpto = sv.committedUpto → (∃ resp ∈ out.responses, resp.seq = req.seq) →
        Answers sv req.seq next.trackBounds out := by
      intro next out parked upto own
      constructor
      · intro t below either
        cases either with
        | inl same => exact same ▸ own
        | inr above => exact absurd below (by change ¬ t ≤ next.committedUpto; omega)
      · intro s member
        change next.committedUpto + 1 < s
        rw [upto]
        exact gap s (parked ▸ member)
    apply answer_committed_rule (fun next out => Answers sv req.seq next.trackBounds out)
    · exact fun payload _ => answer _ _ rfl rfl ⟨_, List.mem_cons_self, rfl⟩
    · exact fun _ _ => answer _ _ rfl rfl ⟨_, List.mem_cons_self, rfl⟩
    · exact fun _ _ => answer _ _ rfl rfl ⟨_, List.mem_cons_self, rfl⟩
  · intro _ fresh
    have advances := stage_and_advance_advances app (sv.releaseAcked req) req keyed
      (fun s member => Nat.lt_of_succ_lt (gap s member)) fresh
    have stops := stage_and_advance_stops app (sv.releaseAcked req) req
    constructor
    · intro t below either
      apply advances.answered t below
      cases either with
      | inl same => exact same ▸ fresh
      | inr above => exact above
    · intro s member
      have ahead := advances.parked s member
      have other : s ≠ ((sv.releaseAcked req).stageAndAdvance app req).1.committedUpto + 1 := by
        intro same
        obtain ⟨r, found⟩ := (Tables.mem_iff_lookup _ _).mp member
        rw [same] at found
        exact absurd (stops.symm.trans found) (by simp)
      change ((sv.releaseAcked req).stageAndAdvance app req).1.committedUpto + 1 < s
      omega

theorem recovery_of_on_request (app : AppFn) (sv : Server) (req : Request) :
    recoveryOf (sv.onRequest app req).2.responses =
      if sv.needsRecover req then some (sv.recoverySignal req) else none := by
  by_cases recover : sv.needsRecover req
  · rw [on_request_refused app sv req recover, if_pos recover]
    rfl
  · have normal := mt (on_request_recover_iff app sv req).mp recover
    rw [if_neg recover]
    cases shape : (sv.onRequest app req).2.responses with
    | nil => rfl
    | cons resp rest =>
        cases rest with
        | nil =>
            have plain : resp.recover = false := by simpa [shape] using normal
            simp [recoveryOf, plain]
        | cons _ _ => rfl

theorem complete_held_member (setHash : Bool) (responses : List Response) (pending : SeqMap Nat) (s : Nat) :
    s ∈ (completeHeld setHash responses pending).1 ↔ s ∈ pending ∧ ∀ resp ∈ responses, resp.seq ≠ s := by
  induction responses generalizing pending with
  | nil => simp [completeHeld]
  | cons resp rest ih =>
      rw [completeHeld]
      cases found : pending[resp.seq]? with
      | none =>
          have absent : resp.seq ∉ pending := by
            intro member
            obtain ⟨object, there⟩ := (Tables.mem_iff_lookup _ _).mp member
            rw [found] at there
            cases there
          simp only [ih, List.forall_mem_cons]
          constructor
          · exact fun both => ⟨both.1, fun same => absent (same ▸ both.1), both.2⟩
          · exact fun all => ⟨all.1, all.2.2⟩
      | some object =>
          have left : ∀ p : SeqMap Nat × Nat × List Effect,
              (if resp.noOp then (p.1, p.2.1, Effect.reply object (complete setHash resp) :: p.2.2)
                else (p.1, p.2.1 + 1, Effect.reply object (complete setHash resp) :: .committed resp.seq resp.payload :: p.2.2)).1 =
                p.1 := by
            intro p
            split <;> rfl
          simp only [left, ih, List.forall_mem_cons, Tables.mem_erase_iff]
          tauto

theorem maybe_checkpoint_core (ic : Interceptor) (committed : Nat) :
    (ic.maybeCheckpoint committed).1.core = ic.core ∧ (ic.maybeCheckpoint committed).1.pending = ic.pending := by
  rw [Interceptor.maybeCheckpoint]
  split
  · exact ⟨rfl, rfl⟩
  · split <;> exact ⟨rfl, rfl⟩

theorem serve_refused (app : AppFn) (ic : Interceptor) (object : Nat) (creq : Request)
    (recover : ic.core.needsRecover creq) : (ic.serve app object creq).1.core = ic.core ∧
      (ic.serve app object creq).1.pending = (ic.pending.insert creq.seq object).erase creq.seq := by
  rw [Interceptor.serve, on_request_refused app ic.core creq recover]
  exact ⟨rfl, rfl⟩

theorem serve_accepted (app : AppFn) (ic : Interceptor) (object : Nat) (creq : Request)
    (accepted : ¬ ic.core.needsRecover creq) :
    (ic.serve app object creq).1.core = (ic.core.onRequest app creq).1 ∧
      (ic.serve app object creq).1.pending =
        (completeHeld ic.setHash (ic.core.onRequest app creq).2.responses (ic.pending.insert creq.seq object)).1 := by
  have recovery := recovery_of_on_request app ic.core creq
  rw [if_neg accepted] at recovery
  rw [Interceptor.serve]
  simp only [recovery]
  exact maybe_checkpoint_core _ _

-- on_request commits and answers together, whatever the request is.
theorem serve_none_hanging (app : AppFn) (ic : Interceptor) (object : Nat) (creq : Request) (keyed : ic.core.Keyed)
    (clear : ic.NoneHanging) : (ic.serve app object creq).1.NoneHanging := by
  by_cases recover : ic.core.needsRecover creq
  · obtain ⟨core, pending⟩ := serve_refused app ic object creq recover
    refine ⟨?_, core ▸ clear.parked⟩
    intro s member
    rw [pending, Tables.mem_erase_iff, Tables.mem_insert_iff] at member
    rw [core]
    cases member.2 with
    | inl own => exact absurd own member.1
    | inr old => exact clear.held s old
  · obtain ⟨core, pending⟩ := serve_accepted app ic object creq recover
    have answers := on_request_answers app ic.core creq keyed clear.parked recover
    refine ⟨?_, core ▸ answers.parked⟩
    intro s member
    rw [pending, complete_held_member, Tables.mem_insert_iff] at member
    rw [core]
    by_contra committed
    have due : s = creq.seq ∨ ic.core.committedUpto < s := member.1.imp_right (clear.held s)
    obtain ⟨resp, answered, same⟩ := answers.answered s (Nat.le_of_not_lt committed) due
    exact member.2 resp answered same

theorem step_none_hanging (ic : Interceptor) (call : HttpCall) (keyed : ic.core.Keyed) (clear : ic.NoneHanging) :
    (ic.step call).NoneHanging ↔ call.Passes ic := by
  rw [Interceptor.step, Interceptor.onRequest]
  by_cases replay : call.req.header (text "Color-Replay") ≠ []
  · rw [if_pos replay, on_replay_none_hanging ic call.object call.req clear]
    exact ⟨fun below _ => below, fun passes => passes replay⟩
  · rw [if_neg replay]
    have served := serve_none_hanging call.app ic call.object call.req.parse keyed clear
    exact ⟨fun _ replayed => absurd replayed replay, fun _ => served⟩

theorem serve_keyed (app : AppFn) (ic : Interceptor) (object : Nat) (creq : Request) (keyed : ic.core.Keyed) :
    (ic.serve app object creq).1.core.Keyed := by
  by_cases recover : ic.core.needsRecover creq
  · rw [(serve_refused app ic object creq recover).1]
    exact keyed
  · rw [(serve_accepted app ic object creq recover).1]
    exact on_request_keyed app ic.core creq keyed

theorem step_keyed (ic : Interceptor) (call : HttpCall) (keyed : ic.core.Keyed) : (ic.step call).core.Keyed := by
  rw [Interceptor.step, Interceptor.onRequest]
  split
  · intro s r found
    change (ic.core.ingestReplay _).pendingReqs[s]? = some r at found
    rw [ingest_replay_parked] at found
    exact keyed s r found
  · exact serve_keyed call.app ic call.object call.req.parse keyed

theorem create_pending (files : Files) (setHash : Bool) (checkpointPath : Path) (checkpointEvery : Nat) :
    (Interceptor.create files setHash checkpointPath checkpointEvery).core.pendingReqs = ∅ ∧
      (Interceptor.create files setHash checkpointPath checkpointEvery).pending = ∅ := by
  refine ⟨?_, rfl⟩
  rw [Interceptor.create]
  simp only
  split <;> rfl

theorem run_keyed (start : Interceptor) (calls : List HttpCall) (keyed : start.core.Keyed) : (start.run calls).core.Keyed := by
  induction calls using List.reverseRecOn with
  | nil => exact keyed
  | append_singleton calls call ih =>
      rw [interceptor_run_snoc]
      exact step_keyed _ call ih

-- ---- 64-bit numbers ----

-- The seqs that committed_upto_ may take lie below the bound.
structure Server.Below (bound : Nat) (sv : Server) : Prop where
  upto : sv.committedUpto < bound
  parked : ∀ (s : Nat) r, sv.pendingReqs[s]? = some r → r.seq < bound

def HttpCall.Below (bound : Nat) (call : HttpCall) : Prop :=
  if call.req.header (text "Color-Replay") ≠ [] then ∀ e ∈ (fromJsonReplay call.req.readBody).2.events, e.seq < bound
  else call.req.parse.seq < bound

theorem commit_below (app : AppFn) (bound : Nat) (sv : Server) (r : Request) (below : sv.Below bound)
    (found : sv.pendingReqs[sv.committedUpto + 1]? = some r) : (sv.commit app r).1.Below bound := by
  refine ⟨below.parked _ r found, fun s other kept => ?_⟩
  change (sv.pendingReqs.erase (sv.committedUpto + 1))[s]? = some other at kept
  exact below.parked s other (Tables.erase_found _ _ _ _ kept).2

theorem on_request_below (app : AppFn) (bound : Nat) (sv : Server) (req : Request) (below : sv.Below bound)
    (small : req.seq < bound) : (sv.onRequest app req).1.Below bound := by
  apply on_request_rule (fun next _ => next.Below bound)
  · exact fun _ => below
  · intro _ _
    apply answer_committed_rule (fun next _ => next.trackBounds.Below bound)
    · exact fun _ _ => ⟨below.upto, below.parked⟩
    · exact fun _ _ => ⟨below.upto, below.parked⟩
    · exact fun _ _ => ⟨below.upto, below.parked⟩
  · intro _ _
    have drained : ((sv.releaseAcked req).stageAndAdvance app req).1.Below bound := by
      apply stage_and_advance_rule (fun next _ => next.Below bound)
      · refine ⟨below.upto, fun s r found => ?_⟩
        cases Tables.insert_found _ _ _ _ _ found with
        | inl own => exact own.2 ▸ small
        | inr old => exact below.parked s r old
      · exact fun next _ r before found => commit_below app bound next r before found
    exact ⟨drained.upto, drained.parked⟩

theorem ingest_replay_below (bound : Nat) (sv : Server) (rp : Replay) (below : sv.Below bound)
    (small : ∀ e ∈ rp.events, e.seq < bound) : (sv.ingestReplay rp).Below bound := by
  refine ⟨?_, fun s r found => ?_⟩
  · apply (ingest_events_upto _ sv bound).mpr
    refine ⟨below.upto, fun i listed => ?_⟩
    obtain ⟨e, among, rfl⟩ := List.mem_map.mp listed
    exact small e (List.mem_of_mem_drop (List.mem_of_mem_filter among))
  · rw [ingest_replay_parked] at found
    exact below.parked s r found

theorem step_below (bound : Nat) (ic : Interceptor) (call : HttpCall) (below : ic.core.Below bound)
    (small : call.Below bound) : (ic.step call).core.Below bound := by
  rw [HttpCall.Below] at small
  rw [Interceptor.step, Interceptor.onRequest]
  split
  · rename_i replay
    rw [if_pos replay] at small
    exact ingest_replay_below bound ic.core _ below small
  · rename_i plain
    rw [if_neg plain] at small
    by_cases recover : ic.core.needsRecover call.req.parse
    · rw [(serve_refused call.app ic call.object call.req.parse recover).1]
      exact below
    · rw [(serve_accepted call.app ic call.object call.req.parse recover).1]
      exact on_request_below call.app bound ic.core call.req.parse below small

-- Counters are natural numbers here. Where no message and no checkpoint file names
-- the greatest 64-bit seq, committed_upto_ + 1 of the source is the same number.
theorem run_does_not_wrap (files : Files) (setHash : Bool) (checkpointPath : Path) (checkpointEvery : Nat)
    (calls : List HttpCall)
    (file : (Interceptor.create files setHash checkpointPath checkpointEvery).core.committedUpto < 2 ^ 64 - 1)
    (small : ∀ call ∈ calls, call.Below (2 ^ 64 - 1)) :
    let sv := ((Interceptor.create files setHash checkpointPath checkpointEvery).run calls).core
    (sv.committedUpto + 1) % 2 ^ 64 = sv.committedUpto + 1 := by
  have parked := (create_pending files setHash checkpointPath checkpointEvery).1
  generalize Interceptor.create files setHash checkpointPath checkpointEvery = start at file parked ⊢
  have below : (start.run calls).core.Below (2 ^ 64 - 1) := by
    induction calls using List.reverseRecOn with
    | nil => exact ⟨file, fun s r found => by simp [Interceptor.run, parked] at found⟩
    | append_singleton calls call ih =>
        rw [interceptor_run_snoc]
        exact step_below _ _ call (ih fun other member => small other (List.mem_append_left _ member))
          (small call (List.mem_append_right _ (List.mem_singleton.mpr rfl)))
  have upto := below.upto
  exact Nat.mod_eq_of_lt (by omega)

-- ---- runs ----

theorem run_none_hanging (start : Interceptor) (calls : List HttpCall) (keyed : start.core.Keyed) (clear : start.NoneHanging)
    (passes : ∀ before call after, calls = before ++ call :: after → call.Passes (start.run before)) :
    (start.run calls).NoneHanging := by
  induction calls using List.reverseRecOn with
  | nil => exact clear
  | append_singleton calls call ih =>
      have before := ih (fun early other late shape => passes early other (late ++ [call]) (by simp [shape]))
      rw [interceptor_run_snoc]
      exact (step_none_hanging _ call (run_keyed start calls keyed) before).mpr (passes calls call [] rfl)

-- Every state of a run is clear exactly if every replay of it stays below what
-- waits at that moment, whoever sends the calls.
theorem none_hanging_iff (files : Files) (setHash : Bool) (checkpointPath : Path) (checkpointEvery : Nat)
    (calls : List HttpCall) :
    (∀ before after, calls = before ++ after →
        ((Interceptor.create files setHash checkpointPath checkpointEvery).run before).NoneHanging) ↔
      ∀ before call after, calls = before ++ call :: after →
        call.Passes ((Interceptor.create files setHash checkpointPath checkpointEvery).run before) := by
  obtain ⟨parked, held⟩ := create_pending files setHash checkpointPath checkpointEvery
  generalize Interceptor.create files setHash checkpointPath checkpointEvery = start at parked held ⊢
  have keyed : start.core.Keyed := fun s r found => by simp [parked] at found
  constructor
  · intro clear before call after shape
    have now := clear before (call :: after) shape
    have next := clear (before ++ [call]) after (by simp [shape])
    rw [interceptor_run_snoc] at next
    exact (step_none_hanging _ call (run_keyed start before keyed) now).mp next
  · intro passes before after shape
    have clear : start.NoneHanging :=
      ⟨fun s member => by simp [held] at member, fun s member => by simp [parked] at member⟩
    apply run_none_hanging start before keyed clear
    exact fun early call late split => passes early call (late ++ after) (by simp [shape, split])

-- Two requests are sent, the first is answered, a third acknowledges that; then
-- the server restarts empty.
def hangingActions : List ClientAction :=
  [.generate [97], .generate [98], .respond { seq := 1, payload := [65] }, .generate [99]]

def requestCall (object : Nat) (r : Request) : HttpCall :=
  ⟨object, fun _ payload _ => payload, plainRequest (headerLines r) r.payload⟩

def replayCall (object fromIndex : Nat) (rp : Replay) : HttpCall :=
  ⟨object, fun _ payload _ => payload, plainRequest (recoverLines fromIndex) rp.toJson⟩

-- The second request is resent and parked; the third asks for the replay, which passes over it.
def hangingCalls : List HttpCall :=
  match Client.requests hangingActions { setHash := false } with
  | [_, second, third] =>
      [requestCall 0 second, requestCall 1 third,
        replayCall 2 0 (Client.buildReplay (Client.run { setHash := false } hangingActions) 0)]
  | _ => []

theorem request_left_hanging : ¬ ((Interceptor.create (fun _ => none) false [] 16).run hangingCalls).NoneHanging := by
  intro clear
  have held : 2 ∈ ((Interceptor.create (fun _ => none) false [] 16).run hangingCalls).pending := by decide +kernel
  have passed : ((Interceptor.create (fun _ => none) false [] 16).run hangingCalls).core.committedUpto = 3 := by
    decide +kernel
  have above := clear.held 2 held
  rw [passed] at above
  exact absurd above (by decide)

end Color
