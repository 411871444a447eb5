import Color.HeldRequests

set_option autoImplicit false

namespace Color

-- ---- what one on_request commits, whatever is parked ----

structure Committed (sv next : Server) (out : Outcome) : Prop where
  keyed : next.Keyed
  upto : sv.committedUpto ≤ next.committedUpto
  calls : out.calls.map Call.seq = List.range' (sv.committedUpto + 1) (next.committedUpto - sv.committedUpto)
  answers : out.responses.map (fun resp => (resp.seq, resp.noOp)) = out.calls.map (fun c => (c.seq, false))
  taken : ∀ k, sv.committedUpto < k → k ≤ next.committedUpto → k ∈ sv.pendingReqs
  parked : ∀ k, k ∈ next.pendingReqs ↔ k ∈ sv.pendingReqs ∧ ¬ (sv.committedUpto < k ∧ k ≤ next.committedUpto)
  counted : ∀ s, next.appCalls[s]?.getD 0 = sv.appCalls[s]?.getD 0 + (out.calls.map Call.seq).count s

theorem committed_refl (sv : Server) (keyed : sv.Keyed) : Committed sv sv {} := by
  refine ⟨keyed, Nat.le_refl _, by simp, rfl, ?_, ?_, fun s => rfl⟩
  · exact fun k above within => absurd within (Nat.not_le.mpr above)
  · exact fun k => ⟨fun inside => ⟨inside, by omega⟩, fun both => both.1⟩

theorem committed_commit (app : AppFn) (origin sv : Server) (out : Outcome) (r : Request) (before : Committed origin sv out)
    (found : sv.pendingReqs[sv.committedUpto + 1]? = some r) :
    Committed origin (sv.commit app r).1 (out ++ (sv.commit app r).2) := by
  have seq : r.seq = sv.committedUpto + 1 := before.keyed _ r found
  have upto : (sv.commit app r).1.committedUpto = sv.committedUpto + 1 := seq
  have calls : (sv.commit app r).2.calls.map Call.seq = [sv.committedUpto + 1] := by rw [← seq]; rfl
  have forward := before.upto
  have parked : (sv.commit app r).1.pendingReqs = sv.pendingReqs.erase (sv.committedUpto + 1) := rfl
  refine ⟨commit_keyed app sv r before.keyed, by omega, ?_, ?_, ?_, ?_, ?_⟩
  · have edge : origin.committedUpto + 1 + (sv.committedUpto - origin.committedUpto) = sv.committedUpto + 1 := by omega
    have span : sv.committedUpto + 1 - origin.committedUpto = (sv.committedUpto - origin.committedUpto) + 1 := by omega
    rw [outcome_append_calls, List.map_append, before.calls, calls, upto, span, List.range'_1_concat, edge]
  · rw [outcome_append_responses, outcome_append_calls, List.map_append, List.map_append, before.answers]
    rfl
  · intro k above within
    rw [upto] at within
    by_cases here : k = sv.committedUpto + 1
    · have now : k ∈ sv.pendingReqs := here ▸ (Tables.mem_iff_lookup _ _).mpr ⟨r, found⟩
      exact ((before.parked k).mp now).1
    · exact before.taken k above (by omega)
  · intro k
    rw [parked, Tables.mem_erase_iff, before.parked k, upto]
    constructor
    · exact fun both => ⟨both.2.1, fun range => both.2.2 ⟨range.1, by omega⟩⟩
    · exact fun both => ⟨fun here => both.2 (by omega), both.1, fun range => both.2 ⟨range.1, by omega⟩⟩
  · intro s
    have step := count_call_lookup sv r.seq s
    have own : (sv.commit app r).1.appCalls = (sv.countCall r.seq).appCalls := rfl
    have one : [sv.committedUpto + 1].count s = if s = r.seq then 1 else 0 := by
      by_cases same : s = r.seq
      · simp [← seq, same]
      · simp [← seq, same, Ne.symm same]
    rw [own, step, before.counted s, outcome_append_calls, List.map_append, calls, List.count_append, one, Nat.add_assoc]

theorem stage_and_advance_committed (app : AppFn) (sv : Server) (req : Request) (keyed : sv.Keyed) :
    Committed (sv.stage req) (sv.stageAndAdvance app req).1 (sv.stageAndAdvance app req).2 := by
  apply stage_and_advance_rule (Committed (sv.stage req))
  · exact committed_refl _ (stage_keyed sv req keyed)
  · exact fun next out r before found => committed_commit app (sv.stage req) next out r before found

-- The ids a fresh request commits: its own or parked, without a gap above the counter.
def Server.Completes (sv : Server) (req : Request) (t : Nat) : Prop :=
  ∀ u ∈ Finset.Ioc sv.committedUpto t, u = req.seq ∨ u ∈ sv.pendingReqs

theorem advance_range (app : AppFn) (sv : Server) (req : Request) (keyed : sv.Keyed) (t : Nat) :
    t ≤ (sv.stageAndAdvance app req).1.committedUpto ↔ sv.Completes req t := by
  have committed := stage_and_advance_committed app sv req keyed
  have forward : sv.committedUpto ≤ (sv.stageAndAdvance app req).1.committedUpto := committed.upto
  have staged : ∀ u, u ∈ (sv.stage req).pendingReqs ↔ u = req.seq ∨ u ∈ sv.pendingReqs :=
    fun u => Tables.mem_insert_iff _ _ _ _
  constructor
  · intro within u inside
    obtain ⟨low, high⟩ := Finset.mem_Ioc.mp inside
    exact (staged u).mp (committed.taken u low (by omega))
  · intro all
    by_contra beyond
    have next := all ((sv.stageAndAdvance app req).1.committedUpto + 1) (Finset.mem_Ioc.mpr (by omega))
    have still := (committed.parked _).mpr ⟨(staged _).mpr next, by omega⟩
    obtain ⟨r, found⟩ := (Tables.mem_iff_lookup _ _).mp still
    rw [stage_and_advance_stops app sv req] at found
    cases found

-- ---- what is reported of it ----

def Effect.reported : Effect → Option Nat
  | .committed seq _ => some seq
  | _ => none

def Effect.saved : Effect → Option Nat
  | .writeCheckpoint core => some core.committedUpto
  | _ => none

def Response.news (resp : Response) : Option Nat := if resp.noOp then none else some resp.seq

-- The loop over the responses reports what is held and no bare acknowledgement.
theorem complete_held_reports (setHash : Bool) (responses : List Response) (pending : SeqMap Nat)
    (distinct : (responses.map Response.seq).Nodup) :
    (completeHeld setHash responses pending).2.2.filterMap Effect.reported =
        (responses.filterMap Response.news).filter (fun s => decide (s ∈ pending)) ∧
      (completeHeld setHash responses pending).2.1 =
        ((responses.filterMap Response.news).filter (fun s => decide (s ∈ pending))).length ∧
      (completeHeld setHash responses pending).2.2.filterMap Effect.saved = [] := by
  induction responses generalizing pending with
  | nil => exact ⟨rfl, rfl, rfl⟩
  | cons resp rest ih =>
      rw [List.map_cons, List.nodup_cons] at distinct
      obtain ⟨fresh, later⟩ := distinct
      rw [completeHeld]
      cases found : pending[resp.seq]? with
      | none =>
          have absent : resp.seq ∉ pending := (getElem?_eq_none_iff _ _).mp found
          have skipped : ((resp :: rest).filterMap Response.news).filter (fun s => decide (s ∈ pending)) =
              (rest.filterMap Response.news).filter (fun s => decide (s ∈ pending)) := by
            rw [List.filterMap_cons, Response.news]
            cases resp.noOp <;> simp [absent]
          rw [skipped]
          exact ih pending later
      | some object =>
          have held : resp.seq ∈ pending := (Tables.mem_iff_lookup _ _).mpr ⟨object, found⟩
          have same : (rest.filterMap Response.news).filter (fun s => decide (s ∈ pending.erase resp.seq)) =
              (rest.filterMap Response.news).filter (fun s => decide (s ∈ pending)) := by
            apply List.filter_congr
            intro s listed
            obtain ⟨other, inside, news⟩ := List.mem_filterMap.mp listed
            have named : other.seq = s := by
              rw [Response.news] at news
              split at news
              · cases news
              · exact Option.some.inj news
            have apart : s ≠ resp.seq := fun eq => fresh (eq ▸ named ▸ List.mem_map_of_mem inside)
            rw [decide_eq_decide, Tables.mem_erase_iff]
            exact ⟨fun both => both.2, fun inside => ⟨apart, inside⟩⟩
          obtain ⟨reports, number, saved⟩ := ih (pending.erase resp.seq) later
          rw [same] at reports number
          cases kind : resp.noOp with
          | true =>
              have quiet : (resp :: rest).filterMap Response.news = rest.filterMap Response.news := by
                simp [Response.news, kind]
              simp only [if_true]
              rw [quiet]
              exact ⟨reports, number, saved⟩
          | false =>
              have first : (resp :: rest).filterMap Response.news = resp.seq :: rest.filterMap Response.news := by
                simp [Response.news, kind]
              simp only [Bool.false_eq_true, if_false]
              have counted : (resp.seq :: rest.filterMap Response.news).filter (fun s => decide (s ∈ pending)) =
                  resp.seq :: (rest.filterMap Response.news).filter (fun s => decide (s ∈ pending)) := by
                simp [held]
              rw [first, counted]
              exact ⟨congrArg (resp.seq :: ·) reports, congrArg (· + 1) number, saved⟩

-- ---- one accepted request ----

-- What an accepted request is to the core: the ids whose responses carry a
-- payload, and those the application was called for.
inductive Reaction (sv : Server) (req : Request) (growth : Nat) : List Nat → List Nat → Prop where
  | resent (known : req.seq ≤ sv.committedUpto) (stays : growth = 0) (buffered : req.seq ∈ (sv.releaseAcked req).respBuffer) :
      Reaction sv req growth [req.seq] []
  | processed (known : req.seq ≤ sv.committedUpto) (stays : growth = 0)
      (unbuffered : req.seq ∉ (sv.releaseAcked req).respBuffer) (owed : req.seq ∈ sv.awaiting) :
      Reaction sv req growth [req.seq] [req.seq]
  | acknowledged (known : req.seq ≤ sv.committedUpto) (stays : growth = 0)
      (unbuffered : req.seq ∉ (sv.releaseAcked req).respBuffer) (settled : req.seq ∉ sv.awaiting) :
      Reaction sv req growth [] []
  | advanced (fresh : sv.committedUpto < req.seq)
      (range : ∀ t, (t ≤ sv.committedUpto + growth ↔ sv.Completes req t)) :
      Reaction sv req growth (List.range' (sv.committedUpto + 1) growth) (List.range' (sv.committedUpto + 1) growth)

structure Reacts (sv : Server) (req : Request) (next : Server) (out : Outcome) (growth : Nat) : Prop where
  upto : next.committedUpto = sv.committedUpto + growth
  counted : ∀ s, next.appCalls[s]?.getD 0 = sv.appCalls[s]?.getD 0 + (out.calls.map Call.seq).count s
  within : ∀ s ∈ out.calls.map Call.seq, s ≤ next.committedUpto
  distinct : (out.responses.map Response.seq).Nodup
  reaction : Reaction sv req growth (out.responses.filterMap Response.news) (out.calls.map Call.seq)

theorem answer_reacts (app : AppFn) (sv : Server) (req : Request) (known : req.seq ≤ sv.committedUpto) :
    Reacts sv req ((sv.releaseAcked req).answerCommitted app req).1.trackBounds
      ((sv.releaseAcked req).answerCommitted app req).2 0 := by
  have absent (missing : (sv.releaseAcked req).respBuffer[req.seq]? = none) :
      req.seq ∉ (sv.releaseAcked req).respBuffer := (getElem?_eq_none_iff _ _).mp missing
  apply answer_committed_rule (fun next out => Reacts sv req next.trackBounds out 0)
  case resent =>
    intro payload stored
    have buffered : req.seq ∈ (sv.releaseAcked req).respBuffer := (Tables.mem_iff_lookup _ _).mpr ⟨payload, stored⟩
    exact ⟨rfl, fun s => rfl, by simp, by simp, .resent known rfl buffered⟩
  case late =>
    intro missing owed
    have counted (s : Nat) := count_call_lookup sv req.seq s
    refine ⟨rfl, fun s => ?_, ?_, by simp [process_responses], .processed known rfl (absent missing) owed⟩
    · change (sv.countCall req.seq).appCalls[s]?.getD 0 = _ + [req.seq].count s
      rw [counted]
      by_cases same : s = req.seq
      · simp [same]
      · simp [same, Ne.symm same]
    · intro s listed
      exact List.mem_singleton.mp listed ▸ known
  case acknowledged =>
    intro missing settled
    exact ⟨rfl, fun s => rfl, by simp, by simp, .acknowledged known rfl (absent missing) settled⟩

theorem advance_reacts (app : AppFn) (sv : Server) (req : Request) (keyed : sv.Keyed) (fresh : sv.committedUpto < req.seq) :
    Reacts sv req ((sv.releaseAcked req).stageAndAdvance app req).1.trackBounds
      ((sv.releaseAcked req).stageAndAdvance app req).2
      (((sv.releaseAcked req).stageAndAdvance app req).1.committedUpto - sv.committedUpto) := by
  have committed := stage_and_advance_committed app (sv.releaseAcked req) req keyed
  have forward : sv.committedUpto ≤ ((sv.releaseAcked req).stageAndAdvance app req).1.committedUpto := committed.upto
  have answers := committed.answers
  have calls : ((sv.releaseAcked req).stageAndAdvance app req).2.calls.map Call.seq =
      List.range' (sv.committedUpto + 1) (((sv.releaseAcked req).stageAndAdvance app req).1.committedUpto - sv.committedUpto) :=
    committed.calls
  have named : ((sv.releaseAcked req).stageAndAdvance app req).2.responses.map Response.seq =
      ((sv.releaseAcked req).stageAndAdvance app req).2.calls.map Call.seq := by
    have firsts := congrArg (List.map Prod.fst) answers
    rwa [List.map_map, List.map_map] at firsts
  have news : ((sv.releaseAcked req).stageAndAdvance app req).2.responses.filterMap Response.news =
      ((sv.releaseAcked req).stageAndAdvance app req).2.calls.map Call.seq := by
    have kept := congrArg (List.filterMap (fun pair : Nat × Bool => if pair.2 then none else some pair.1)) answers
    rw [List.filterMap_map, List.filterMap_map] at kept
    exact kept.trans (congrFun List.filterMap_eq_map' _)
  refine ⟨(Nat.add_sub_cancel' forward).symm, committed.counted, ?_, ?_, ?_⟩
  · intro s listed
    rw [calls, List.mem_range'_1] at listed
    change s ≤ ((sv.releaseAcked req).stageAndAdvance app req).1.committedUpto
    omega
  · rw [named, calls]
    exact List.nodup_range'
  · rw [news, calls]
    refine .advanced fresh (fun t => ?_)
    rw [Nat.add_sub_cancel' forward]
    exact advance_range app (sv.releaseAcked req) req keyed t

theorem on_request_reacts (app : AppFn) (sv : Server) (req : Request) (keyed : sv.Keyed) (accepted : ¬ sv.needsRecover req) :
    ∃ growth, Reacts sv req (sv.onRequest app req).1 (sv.onRequest app req).2 growth := by
  apply on_request_rule (fun next out => ∃ growth, Reacts sv req next out growth)
  case refused => exact fun refused => absurd refused accepted
  case committed => exact fun _ known => ⟨0, answer_reacts app sv req known⟩
  case fresh => exact fun _ fresh => ⟨_, advance_reacts app sv req keyed fresh⟩

-- ---- one call ----

-- A call in numbers: what it reports, the ids the application is called for,
-- how far the counter moves, and whether the call ends with a checkpoint.
structure Gain (ic next : Interceptor) (effects : List Effect) (reports answers : List Nat) (growth : Nat) (written : Prop) :
    Prop where
  told : effects.filterMap Effect.reported = reports
  upto : next.core.committedUpto = ic.core.committedUpto + growth
  counted : ∀ s, next.core.appCalls[s]?.getD 0 = ic.core.appCalls[s]?.getD 0 + answers.count s
  within : ∀ s ∈ answers, s ≤ next.core.committedUpto
  ledger : written ∧ effects.filterMap Effect.saved = [next.core.committedUpto] ∧ next.commitsSinceCkpt = 0 ∨
    ¬ written ∧ effects.filterMap Effect.saved = [] ∧ next.commitsSinceCkpt = ic.commitsSinceCkpt + reports.length
  settings : next.checkpointPath = ic.checkpointPath ∧ next.checkpointEvery = ic.checkpointEvery

structure Interceptor.Checkpointing (ic : Interceptor) : Prop where
  path : ic.checkpointPath ≠ []
  every : ic.checkpointEvery ≠ 0

theorem maybe_checkpoint_gain (ic : Interceptor) (committed : Nat) (on : ic.Checkpointing) :
    (ic.checkpointEvery ≤ ic.commitsSinceCkpt + committed ∧
        ic.maybeCheckpoint committed = ({ ic with commitsSinceCkpt := 0 }, [.writeCheckpoint ic.core])) ∨
      (¬ ic.checkpointEvery ≤ ic.commitsSinceCkpt + committed ∧
        ic.maybeCheckpoint committed = ({ ic with commitsSinceCkpt := ic.commitsSinceCkpt + committed }, [])) := by
  have enabled : ¬ (ic.checkpointPath = [] ∨ ic.checkpointEvery = 0) := by
    rw [not_or]
    exact ⟨on.path, on.every⟩
  rw [Interceptor.maybeCheckpoint, if_neg enabled]
  by_cases due : ic.checkpointEvery ≤ ic.commitsSinceCkpt + committed
  · rw [if_pos due]
    exact Or.inl ⟨due, rfl⟩
  · rw [if_neg due]
    exact Or.inr ⟨due, rfl⟩

theorem abort_silent (stale : Option Nat) :
    (stale.map Effect.abort).toList.filterMap Effect.reported = [] ∧
      (stale.map Effect.abort).toList.filterMap Effect.saved = [] := by
  cases stale <;> exact ⟨rfl, rfl⟩

theorem refused_gain (app : AppFn) (ic : Interceptor) (object : Nat) (creq : Request)
    (recover : ic.core.needsRecover creq) :
    Gain ic (ic.serve app object creq).1 (ic.serve app object creq).2 [] [] 0 False := by
  have silent := abort_silent ic.pending[creq.seq]?
  rw [Interceptor.serve, on_request_refused app ic.core creq recover]
  refine ⟨?_, rfl, fun s => rfl, by simp, Or.inr ⟨id, ?_, rfl⟩, ⟨rfl, rfl⟩⟩
  · change List.filterMap _ (_ ++ _) = _
    rw [List.filterMap_append, silent.1]
    rfl
  · change List.filterMap _ (_ ++ _) = _
    rw [List.filterMap_append, silent.2]
    rfl

theorem accepted_gain (app : AppFn) (ic : Interceptor) (object : Nat) (creq : Request) (on : ic.Checkpointing)
    (accepted : ¬ ic.core.needsRecover creq) (growth : Nat)
    (reacts : Reacts ic.core creq (ic.core.onRequest app creq).1 (ic.core.onRequest app creq).2 growth) :
    let reports := ((ic.core.onRequest app creq).2.responses.filterMap Response.news).filter
      (fun s => decide (s ∈ ic.pending.insert creq.seq object))
    Gain ic (ic.serve app object creq).1 (ic.serve app object creq).2 reports
      ((ic.core.onRequest app creq).2.calls.map Call.seq) growth
      (ic.checkpointEvery ≤ ic.commitsSinceCkpt + reports.length) := by
  intro reports
  have recovery := recovery_of_on_request app ic.core creq
  rw [if_neg accepted] at recovery
  obtain ⟨reported, number, unsaved⟩ :=
    complete_held_reports ic.setHash _ (ic.pending.insert creq.seq object) reacts.distinct
  have silent := abort_silent ic.pending[creq.seq]?
  have shape : ic.serve app object creq =
      let left := completeHeld ic.setHash (ic.core.onRequest app creq).2.responses (ic.pending.insert creq.seq object)
      let next : Interceptor := { ic with core := (ic.core.onRequest app creq).1, pending := left.1 }
      ((next.maybeCheckpoint left.2.1).1,
        (ic.pending[creq.seq]?.map Effect.abort).toList ++ left.2.2 ++ (next.maybeCheckpoint left.2.1).2) := by
    rw [Interceptor.serve]
    simp only [recovery]
  rw [shape]
  simp only
  rw [number]
  have wrote := maybe_checkpoint_gain { ic with
    core := (ic.core.onRequest app creq).1
    pending := (completeHeld ic.setHash (ic.core.onRequest app creq).2.responses (ic.pending.insert creq.seq object)).1 }
    reports.length ⟨on.path, on.every⟩
  cases wrote with
  | inl write =>
      rw [write.2]
      refine ⟨?_, reacts.upto, reacts.counted, reacts.within, Or.inl ⟨write.1, ?_, rfl⟩, ⟨rfl, rfl⟩⟩
      · rw [List.filterMap_append, List.filterMap_append, silent.1, reported, List.nil_append]
        exact List.append_nil _
      · rw [List.filterMap_append, List.filterMap_append, silent.2, unsaved]
        rfl
  | inr skip =>
      rw [skip.2]
      refine ⟨?_, reacts.upto, reacts.counted, reacts.within, Or.inr ⟨skip.1, ?_, rfl⟩, ⟨rfl, rfl⟩⟩
      · rw [List.filterMap_append, List.filterMap_append, silent.1, reported, List.nil_append]
        exact List.append_nil _
      · rw [List.filterMap_append, List.filterMap_append, silent.2, unsaved]
        rfl

-- What a call must be like, in the state it meets. A retry that is resent
-- counts again; so does a late answer, unless the checkpoint it sets off clears
-- the count; a commit whose object is gone counts for nothing.
def Interceptor.CountsOnce (ic : Interceptor) (creq : Request) : Prop :=
  ic.core.needsRecover creq ∨
  (creq.seq ≤ ic.core.committedUpto ∧ creq.seq ∉ (ic.core.releaseAcked creq).respBuffer ∧
    (creq.seq ∈ ic.core.awaiting →
      ic.core.appCalls[creq.seq]?.getD 0 = 0 ∧ ic.checkpointEvery ≤ ic.commitsSinceCkpt + 1)) ∨
  (ic.core.committedUpto < creq.seq ∧
    ∀ t, ic.core.committedUpto < t → ic.core.Completes creq t → t = creq.seq ∨ t ∈ ic.pending)

-- A replay must not move the counter.
def HttpCall.CountsOnce (call : HttpCall) (ic : Interceptor) : Prop :=
  if call.req.header (text "Color-Replay") ≠ [] then
    ∀ i ∈ ic.core.replayed (fromJsonReplay call.req.readBody).2, i ≤ ic.core.committedUpto
  else ic.CountsOnce call.req.parse

-- The numbers add up: each id that is answered for the first time is reported
-- once and nothing else is, and the count follows the counter.
def AddsUp (ic : Interceptor) (reports answers : List Nat) (growth : Nat) (written : Prop) : Prop :=
  (∀ s, reports.count s = if s ∈ answers ∧ ic.core.appCalls[s]?.getD 0 = 0 then 1 else 0) ∧
    (written ∨ reports.length = growth)

theorem accepted_adds_up (ic : Interceptor) (creq : Request) (object growth : Nat) (news answers : List Nat)
    (accepted : ¬ ic.core.needsRecover creq) (called : ∀ s, ic.core.appCalls[s]?.getD 0 ≠ 0 → s ≤ ic.core.committedUpto)
    (reaction : Reaction ic.core creq growth news answers) :
    let reports := news.filter (fun s => decide (s ∈ ic.pending.insert creq.seq object))
    ic.CountsOnce creq ↔ AddsUp ic reports answers growth (ic.checkpointEvery ≤ ic.commitsSinceCkpt + reports.length) := by
  intro reports
  have own : creq.seq ∈ ic.pending.insert creq.seq object := (Tables.mem_insert_iff _ _ _ _).mpr (Or.inl rfl)
  cases reaction with
  | resent known stays buffered =>
      have reported : reports = [creq.seq] := List.filter_cons_of_pos (decide_eq_true own)
      apply iff_of_false
      · rintro (refused | ⟨_, unbuffered, _⟩ | ⟨fresh, _⟩)
        · exact accepted refused
        · exact unbuffered buffered
        · omega
      · intro adds
        have counted := adds.1 creq.seq
        rw [reported] at counted
        simp at counted
  | processed known stays unbuffered owed =>
      have reported : reports = [creq.seq] := List.filter_cons_of_pos (decide_eq_true own)
      rw [Interceptor.CountsOnce, AddsUp, reported, stays]
      constructor
      · rintro (refused | ⟨_, _, late⟩ | ⟨fresh, _⟩)
        · exact absurd refused accepted
        · obtain ⟨first, write⟩ := late owed
          refine ⟨fun s => ?_, Or.inl write⟩
          by_cases same : s = creq.seq
          · simp [same, first]
          · simp [same, Ne.symm same]
        · omega
      · intro adds
        have counted := adds.1 creq.seq
        have write := adds.2.resolve_right (by simp)
        refine Or.inr (Or.inl ⟨known, unbuffered, fun _ => ⟨?_, write⟩⟩)
        by_contra again
        simp [again] at counted
  | acknowledged known stays unbuffered settled =>
      have reported : reports = [] := rfl
      apply iff_of_true
      · exact Or.inr (Or.inl ⟨known, unbuffered, fun owed => absurd owed settled⟩)
      · rw [AddsUp, reported, stays]
        exact ⟨fun s => by simp, Or.inr rfl⟩
  | advanced fresh range =>
      have unseen : ∀ t, ic.core.committedUpto < t → ic.core.appCalls[t]?.getD 0 = 0 := by
        intro t above
        by_contra again
        have below := called t again
        omega
      have held : ∀ t, t ∈ ic.pending.insert creq.seq object ↔ t = creq.seq ∨ t ∈ ic.pending :=
        fun t => Tables.mem_insert_iff _ _ _ _
      have inside : ∀ t, t ∈ List.range' (ic.core.committedUpto + 1) growth ↔
          ic.core.committedUpto < t ∧ t ≤ ic.core.committedUpto + growth := by
        intro t
        rw [List.mem_range'_1]
        omega
      constructor
      · rintro (refused | ⟨known, _⟩ | ⟨_, all⟩)
        · exact absurd refused accepted
        · omega
        · have whole : reports = List.range' (ic.core.committedUpto + 1) growth := by
            apply List.filter_eq_self.mpr
            intro t listed
            obtain ⟨above, within⟩ := (inside t).mp listed
            exact decide_eq_true ((held t).mpr (all t above ((range t).mp within)))
          rw [AddsUp, whole]
          have once : (List.range' (ic.core.committedUpto + 1) growth).Nodup := List.nodup_range'
          refine ⟨fun s => ?_, Or.inr List.length_range'⟩
          rw [once.count]
          by_cases listed : s ∈ List.range' (ic.core.committedUpto + 1) growth
          · rw [if_pos listed, if_pos ⟨listed, unseen s ((inside s).mp listed).1⟩]
          · rw [if_neg listed, if_neg (fun both => listed both.1)]
      · intro adds
        refine Or.inr (Or.inr ⟨fresh, fun t above completes => ?_⟩)
        have listed := (inside t).mpr ⟨above, (range t).mpr completes⟩
        have counted := adds.1 t
        rw [if_pos ⟨listed, unseen t above⟩] at counted
        have reported : t ∈ reports := List.count_pos_iff.mp (by omega)
        exact (held t).mp (of_decide_eq_true (List.mem_filter.mp reported).2)

def Interceptor.answered (ic : Interceptor) (call : HttpCall) : List Nat :=
  if call.req.header (text "Color-Replay") ≠ [] then []
  else (ic.core.onRequest call.app call.req.parse).2.calls.map Call.seq

theorem replay_gain (ic : Interceptor) (object : Nat) (req : ServerRequest) :
    Gain ic (ic.onReplay object req).1 (ic.onReplay object req).2 [] []
      ((ic.onReplay object req).1.core.committedUpto - ic.core.committedUpto) False := by
  have forward : ic.core.committedUpto ≤ (ic.onReplay object req).1.core.committedUpto := by
    by_contra back
    have moved := (ingest_events_upto _ ic.core ic.core.committedUpto).mp (Nat.not_le.mp back)
    exact Nat.lt_irrefl _ moved.1
  have calls : ∀ (events : List ReplayEvent) (sv : Server),
      (events.foldl Server.ingestEvent sv).appCalls = sv.appCalls := by
    intro events
    induction events with
    | nil => exact fun sv => rfl
    | cons e rest ih =>
        intro sv
        rw [List.foldl_cons, ih, Server.ingestEvent]
        split <;> rfl
  refine ⟨rfl, (Nat.add_sub_cancel' forward).symm, fun s => ?_, by simp, Or.inr ⟨id, rfl, rfl⟩, ⟨rfl, rfl⟩⟩
  change (ic.core.ingestReplay _).appCalls[s]?.getD 0 = _
  rw [Server.ingestReplay, calls]
  rfl

theorem replay_adds_up (ic : Interceptor) (object : Nat) (req : ServerRequest) :
    (∀ i ∈ ic.core.replayed (fromJsonReplay req.readBody).2, i ≤ ic.core.committedUpto) ↔
      AddsUp ic [] [] ((ic.onReplay object req).1.core.committedUpto - ic.core.committedUpto) False := by
  have upto : (ic.onReplay object req).1.core.committedUpto < ic.core.committedUpto + 1 ↔
      ic.core.committedUpto < ic.core.committedUpto + 1 ∧
        ∀ i ∈ ic.core.replayed (fromJsonReplay req.readBody).2, i < ic.core.committedUpto + 1 :=
    ingest_events_upto _ ic.core _
  constructor
  · intro within
    have still := upto.mpr ⟨Nat.lt_succ_self _, fun i listed => Nat.lt_succ_of_le (within i listed)⟩
    exact ⟨fun s => by simp, Or.inr (Nat.sub_eq_zero_of_le (Nat.le_of_lt_succ still)).symm⟩
  · intro adds i listed
    have still : 0 = (ic.onReplay object req).1.core.committedUpto - ic.core.committedUpto := adds.2.resolve_left id
    exact Nat.le_of_lt_succ ((upto.mp (by omega)).2 i listed)

theorem call_gain (ic : Interceptor) (call : HttpCall) (on : ic.Checkpointing) (keyed : ic.core.Keyed)
    (called : ∀ s, ic.core.appCalls[s]?.getD 0 ≠ 0 → s ≤ ic.core.committedUpto) :
    ∃ reports growth written,
      Gain ic (ic.step call) (ic.onRequest call.app call.object call.req).2 reports (ic.answered call) growth written ∧
        (call.CountsOnce ic ↔ AddsUp ic reports (ic.answered call) growth written) := by
  rw [Interceptor.step, Interceptor.onRequest, Interceptor.answered, HttpCall.CountsOnce]
  by_cases replay : call.req.header (text "Color-Replay") ≠ []
  · simp only [if_pos replay]
    exact ⟨_, _, _, replay_gain ic call.object call.req, replay_adds_up ic call.object call.req⟩
  · simp only [if_neg replay]
    by_cases recover : ic.core.needsRecover call.req.parse
    · rw [on_request_refused call.app ic.core call.req.parse recover]
      refine ⟨_, _, _, refused_gain call.app ic call.object call.req.parse recover, iff_of_true (Or.inl recover) ?_⟩
      exact ⟨fun s => by simp, Or.inr rfl⟩
    · obtain ⟨growth, reacts⟩ := on_request_reacts call.app ic.core call.req.parse keyed recover
      exact ⟨_, _, _, accepted_gain call.app ic call.object call.req.parse on recover growth reacts,
        accepted_adds_up ic call.req.parse call.object growth _ _ recover called reacts.reaction⟩

-- ---- whole runs ----

-- The ids the application was called for, in order.
def Interceptor.answers (ic : Interceptor) : List HttpCall → List Nat
  | [] => []
  | call :: rest => ic.answered call ++ (ic.step call).answers rest

theorem answers_snoc (ic : Interceptor) (calls : List HttpCall) (call : HttpCall) :
    ic.answers (calls ++ [call]) = ic.answers calls ++ (ic.run calls).answered call := by
  induction calls generalizing ic with
  | nil => simp [Interceptor.answers, Interceptor.run]
  | cons first rest ih =>
      rw [List.cons_append, Interceptor.answers, ih, Interceptor.answers, List.append_assoc]
      rfl

-- committed_upto when the last checkpoint was written, or at construction.
def Interceptor.mark (ic : Interceptor) (calls : List HttpCall) : Nat :=
  ((ic.log calls).filterMap Effect.saved).getLast?.getD ic.core.committedUpto

structure ReportsOnce (start : Interceptor) (calls : List HttpCall) : Prop where
  reports : ∀ s, ((start.log calls).filterMap Effect.reported).count s = if s ∈ start.answers calls then 1 else 0
  cadence : (start.run calls).commitsSinceCkpt + start.mark calls = (start.run calls).core.committedUpto

-- What holds in every state of a run, whatever the calls are.
structure Tallied (start : Interceptor) (calls : List HttpCall) : Prop where
  keyed : (start.run calls).core.Keyed
  on : (start.run calls).Checkpointing
  counted : ∀ s, (start.run calls).core.appCalls[s]?.getD 0 = (start.answers calls).count s
  within : ∀ s ∈ start.answers calls, s ≤ (start.run calls).core.committedUpto

theorem tallied_called (start : Interceptor) (calls : List HttpCall) (tallied : Tallied start calls) (s : Nat) :
    (start.run calls).core.appCalls[s]?.getD 0 ≠ 0 ↔ s ∈ start.answers calls := by
  rw [tallied.counted s, ← Nat.pos_iff_ne_zero, List.count_pos_iff]

theorem tallied_gain (start : Interceptor) (calls : List HttpCall) (call : HttpCall) (tallied : Tallied start calls) :
    ∃ reports growth written,
      Gain (start.run calls) ((start.run calls).step call) ((start.run calls).onRequest call.app call.object call.req).2
        reports ((start.run calls).answered call) growth written ∧
      (call.CountsOnce (start.run calls) ↔
        AddsUp (start.run calls) reports ((start.run calls).answered call) growth written) := by
  apply call_gain _ call tallied.on tallied.keyed
  exact fun s called => tallied.within s ((tallied_called start calls tallied s).mp called)

theorem run_tallied (start : Interceptor) (calls : List HttpCall) (init : Tallied start []) : Tallied start calls := by
  induction calls using List.reverseRecOn with
  | nil => exact init
  | append_singleton calls call ih =>
      obtain ⟨reports, growth, written, gain, _⟩ := tallied_gain start calls call ih
      refine ⟨?_, ?_, ?_, ?_⟩
      · rw [interceptor_run_snoc]
        exact step_keyed _ call ih.keyed
      · rw [interceptor_run_snoc]
        exact ⟨gain.settings.1 ▸ ih.on.path, gain.settings.2 ▸ ih.on.every⟩
      · intro s
        rw [interceptor_run_snoc, answers_snoc, gain.counted s, ih.counted s, List.count_append]
      · intro s listed
        rw [answers_snoc] at listed
        rw [interceptor_run_snoc]
        cases List.mem_append.mp listed with
        | inl old =>
            have before := ih.within s old
            rw [gain.upto]
            omega
        | inr new => exact gain.within s new

theorem mark_snoc (start : Interceptor) (calls : List HttpCall) (call : HttpCall) :
    start.mark (calls ++ [call]) =
      (((start.run calls).onRequest call.app call.object call.req).2.filterMap Effect.saved).getLast?.getD (start.mark calls) := by
  rw [Interceptor.mark, Interceptor.mark, log_snoc, List.filterMap_append, List.getLast?_append]
  cases (((start.run calls).onRequest call.app call.object call.req).2.filterMap Effect.saved).getLast? <;> rfl

-- From a state where the numbers fit, they fit after the call exactly if they add up in it.
theorem step_reports_once (start : Interceptor) (calls : List HttpCall) (call : HttpCall) (tallied : Tallied start calls)
    (before : ReportsOnce start calls) :
    ReportsOnce start (calls ++ [call]) ↔ call.CountsOnce (start.run calls) := by
  obtain ⟨reports, growth, written, gain, exactly⟩ := tallied_gain start calls call tallied
  rw [exactly]
  have reported (s : Nat) : ((start.log (calls ++ [call])).filterMap Effect.reported).count s =
      (if s ∈ start.answers calls then 1 else 0) + reports.count s := by
    rw [log_snoc, List.filterMap_append, List.count_append, before.reports s, gain.told]
  have known (s : Nat) := tallied_called start calls tallied s
  have cadence := before.cadence
  have ledger : (start.run (calls ++ [call])).commitsSinceCkpt + start.mark (calls ++ [call]) =
      (start.run (calls ++ [call])).core.committedUpto ↔ written ∨ reports.length = growth := by
    rw [interceptor_run_snoc, mark_snoc, gain.upto]
    cases gain.ledger with
    | inl wrote =>
        rw [wrote.2.1, wrote.2.2, gain.upto]
        exact iff_of_true (Nat.zero_add _) (Or.inl wrote.1)
    | inr kept =>
        rw [kept.2.1, kept.2.2]
        change _ + start.mark calls = _ ↔ _
        constructor
        · exact fun same => Or.inr (by omega)
        · intro either
          have same := either.resolve_left kept.1
          omega
  constructor
  · intro after
    refine ⟨fun s => ?_, ledger.mp after.cadence⟩
    have total := after.reports s
    rw [reported, answers_snoc] at total
    by_cases old : s ∈ start.answers calls
    · have again := (known s).mpr old
      simp [old] at total
      simp [again, total]
    · have first : (start.run calls).core.appCalls[s]?.getD 0 = 0 := by
        by_contra called
        exact old ((known s).mp called)
      simpa [old, first] using total
  · intro adds
    refine ⟨fun s => ?_, ledger.mpr adds.2⟩
    rw [reported, answers_snoc, adds.1 s]
    by_cases old : s ∈ start.answers calls
    · have again := (known s).mpr old
      simp [old, again]
    · have first : (start.run calls).core.appCalls[s]?.getD 0 = 0 := by
        by_contra called
        exact old ((known s).mp called)
      simp [old, first]

theorem run_reports_once (start : Interceptor) (calls : List HttpCall) (tallied : Tallied start []) (init : ReportsOnce start [])
    (counts : ∀ before call after, calls = before ++ call :: after → call.CountsOnce (start.run before)) :
    ReportsOnce start calls := by
  induction calls using List.reverseRecOn with
  | nil => exact init
  | append_singleton calls call ih =>
      have before := ih (fun early other late shape => counts early other (late ++ [call]) (by simp [shape]))
      exact (step_reports_once start calls call (run_tallied start calls tallied) before).mpr (counts calls call [] rfl)

theorem create_counters (files : Files) (setHash : Bool) (checkpointPath : Path) (checkpointEvery : Nat)
    (path : checkpointPath ≠ []) (every : 0 < checkpointEvery) :
    let start := Interceptor.create files setHash checkpointPath checkpointEvery
    Tallied start [] ∧ ReportsOnce start [] := by
  intro start
  have parked := (create_pending files setHash checkpointPath checkpointEvery).1
  have uncalled : start.core.appCalls = ∅ := by
    change (if (loadCheckpoint files checkpointPath).1 then _ else _ : Server).appCalls = ∅
    split <;> rfl
  constructor
  · refine ⟨?_, ⟨path, Nat.ne_of_gt every⟩, ?_, fun s none => absurd none List.not_mem_nil⟩
    · intro s r found
      change (Interceptor.create files setHash checkpointPath checkpointEvery).core.pendingReqs[s]? = some r at found
      simp [parked] at found
    · intro s
      change start.core.appCalls[s]?.getD 0 = 0
      simp [uncalled]
  · exact ⟨fun s => rfl, Nat.zero_add _⟩

-- In every state of a run each first answer has been reported once, nothing
-- else has, and the count is that of the counter, exactly if every call of the
-- run is one that counts once.
theorem reports_once_iff (files : Files) (setHash : Bool) (checkpointPath : Path) (checkpointEvery : Nat)
    (calls : List HttpCall) (path : checkpointPath ≠ []) (every : 0 < checkpointEvery) :
    let start := Interceptor.create files setHash checkpointPath checkpointEvery
    (∀ before after, calls = before ++ after → ReportsOnce start before) ↔
      ∀ before call after, calls = before ++ call :: after → call.CountsOnce (start.run before) := by
  intro start
  obtain ⟨tallied, init⟩ := create_counters files setHash checkpointPath checkpointEvery path every
  constructor
  · intro once before call after shape
    have now := once before (call :: after) shape
    have next := once (before ++ [call]) after (by simp [shape])
    exact (step_reports_once start before call (run_tallied start before tallied) now).mp next
  · intro counts before after shape
    apply run_reports_once start before tallied init
    exact fun early call late split => counts early call (late ++ after) (by simp [shape, split])

-- The client sends its first request again because the reply got lost.
def retriedCalls : List HttpCall :=
  let r := ((Client.fresh false).generateRequest [97]).1
  [requestCall 0 r, requestCall 1 r]

theorem reports_once_iff_retried :
    let start := Interceptor.create (fun _ => none) false [99] 16
    (∀ before after, retriedCalls = before ++ after → ReportsOnce start before) ↔
      ∀ before call after, retriedCalls = before ++ call :: after → call.CountsOnce (start.run before) :=
  reports_once_iff (fun _ => none) false [99] 16 retriedCalls (by decide) (by decide)

theorem retry_reported_twice :
    ¬ ∀ (files : Files) (setHash : Bool) (checkpointPath : Path) (checkpointEvery : Nat) (calls : List HttpCall),
      checkpointPath ≠ [] → 0 < checkpointEvery →
      ReportsOnce (Interceptor.create files setHash checkpointPath checkpointEvery) calls := by
  intro all
  have once := (all (fun _ => none) false [99] 16 retriedCalls (by decide) (by decide)).reports 1
  have reported : (((Interceptor.create (fun _ => none) false [99] 16).log retriedCalls).filterMap Effect.reported).count 1 = 2 := by
    decide +kernel
  rw [reported] at once
  split at once <;> cases once

end Color
