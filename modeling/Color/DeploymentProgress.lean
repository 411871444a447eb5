import Color.DeploymentAnswers
import Color.RequestObjects

set_option autoImplicit false

namespace Color

-- ---- what a call settles ----

theorem performed_settled (walk : Walk) (d : Deployment) (effects : List Effect) (n : Nat)
    (finishes : finished n effects ≠ 0) (conn : Connection)
    (found : (effects.foldl (Deployment.perform walk) d).connections[n]? = some conn) : conn.fate ≠ .handling := by
  induction effects using List.reverseRecOn generalizing conn with
  | nil => exact absurd (finished_nil n) finishes
  | append_singleton effects e ih =>
      rw [finished_append] at finishes
      rw [List.foldl_append] at found
      have settled (o : Nat) (fate : Fate) (last : e = .abort o ∨ ∃ reply, e = .reply o reply) (kind : fate ≠ .handling)
          (spot : ((effects.foldl (Deployment.perform walk) d).settle o fate).connections[n]? = some conn) :
          conn.fate ≠ .handling := by
        rw [Deployment.settle, List.getElem?_modify] at spot
        obtain ⟨middle, there, changed⟩ := Option.map_eq_some_iff.mp spot
        by_cases own : o = n
        · rw [if_pos own] at changed
          rw [← changed]
          exact kind
        · have quiet : finished n [e] = 0 := by
            rcases last with rfl | ⟨reply, rfl⟩
            · rw [finished_abort, if_neg own]
            · rw [finished_reply, if_neg own]
          rw [if_neg own] at changed
          exact ih (by omega) conn (there.trans (congrArg some changed))
      cases e with
      | reply o reply => exact settled o (.replied reply) (Or.inr ⟨reply, rfl⟩) (fun same => by cases same) found
      | abort o => exact settled o .aborted (Or.inl rfl) (fun same => by cases same) found
      | committed seq payload => exact ih (by rwa [finished_committed] at finishes) conn found
      | writeCheckpoint core => exact ih (by simpa [finished, Effect.finishes] using finishes) conn found

theorem performed_unfinished (d d' : Deployment) (effects : List Effect) (n : Nat) (conn : Connection)
    (performed : Performed d d' effects) (untouched : finished n effects = 0) (known : d.connections[n]? = some conn) :
    d'.connections[n]? = some conn := by
  have silent := List.countP_eq_zero.mp untouched
  obtain ⟨fate, found⟩ := performed.kept n conn known
  obtain ⟨first, there, _, cause⟩ := performed.moved n _ found
  rw [known] at there
  cases there
  rcases cause with same | ⟨reply, member, _⟩ | ⟨member, _⟩
  · change fate = conn.fate at same
    rw [found, same]
  · exact absurd (decide_eq_true rfl) (silent _ member)
  · exact absurd (decide_eq_true rfl) (silent _ member)

-- What had arrived stays arrived.
theorem performed_arrived (d d' : Deployment) (effects : List Effect) (n : Nat) (conn : Connection)
    (performed : Performed d d' effects) (known : d.connections[n]? = some conn) (gone : conn.fate ≠ .sent) :
    ∃ later, d'.connections[n]? = some later ∧ later.call = conn.call ∧ later.fate ≠ .sent := by
  obtain ⟨fate, found⟩ := performed.kept n conn known
  refine ⟨_, found, rfl, ?_⟩
  obtain ⟨_, there, _, cause⟩ := performed.moved n _ found
  rw [known] at there
  cases there
  rcases cause with same | ⟨reply, _, replied⟩ | ⟨_, aborted⟩
  · rw [same]
    exact gone
  · rw [replied]
    exact fun other => by cases other
  · rw [aborted]
    exact fun other => by cases other

-- ---- objects and POSTs ----

-- While its server lives, a POST that arrived and was not finished is kept under one id; nothing else is.
structure Housed (d : Deployment) : Prop where
  held : ∀ (n : Nat) conn, d.connections[n]? = some conn → conn.fate = .handling → conn.server = d.inst →
    ∃ seq, Kept d.interceptor.pending n (some seq)
  free : ∀ n, (∀ conn, d.connections[n]? = some conn → conn.fate ≠ .handling ∨ conn.server ≠ d.inst) →
    Kept d.interceptor.pending n none
  past : ∀ (n : Nat) conn, d.connections[n]? = some conn → conn.server ≤ d.inst

theorem kept_empty (n : Nat) : Kept ∅ n none := by
  intro s
  simp

theorem housed_performed_past (walk : Walk) (d : Deployment) (n : Nat) (conn : Connection) (ic : Interceptor) (out : Outcome)
    (effects : List Effect) (housed : Housed d) (m : Nat) (later : Connection)
    (found : (effects.foldl (Deployment.perform walk) (d.handed n conn ic out)).connections[m]? = some later) :
    later.server ≤ d.inst := by
  obtain ⟨middle, spot, same, _⟩ := (performed_all walk _ _).moved m later found
  rw [same]
  rcases row_set d.connections n m _ middle spot with ⟨_, rfl⟩ | ⟨_, old⟩
  · exact Nat.le_refl _
  · exact housed.past m middle old

theorem housed_arrive (d : Deployment) (n : Nat) (conn : Connection) (got : ServerRequest) (app : AppFn) (walk : Walk)
    (known : d.connections[n]? = some conn) (sent : conn.fate = .sent) (housed : Housed d) :
    Housed (d.handle n conn got app walk (d.interceptor.onRequest app n got).2.length) := by
  rw [handle_effects, List.take_length]
  have past := housed_performed_past walk d n conn (d.interceptor.onRequest app n got).1
    (Deployment.reaction d.interceptor app got) (d.interceptor.onRequest app n got).2 housed
  have performed := performed_all walk (d.handed n conn (d.interceptor.onRequest app n got).1
    (Deployment.reaction d.interceptor app got)) (d.interceptor.onRequest app n got).2
  have settled := performed_settled walk (d.handed n conn (d.interceptor.onRequest app n got).1
    (Deployment.reaction d.interceptor app got)) (d.interceptor.onRequest app n got).2
  generalize Deployment.reaction d.interceptor app got = out at *
  generalize final : (d.interceptor.onRequest app n got).2.foldl (Deployment.perform walk)
    (d.handed n conn (d.interceptor.onRequest app n got).1 out) = d' at *
  have interceptor : d'.interceptor = (d.interceptor.onRequest app n got).1 := performed_interceptor _ d' _ performed
  have inst : d'.inst = d.inst := (congrArg Deployment.inst performed.rest :)
  have unknown : Kept d.interceptor.pending n none := by
    apply housed.free
    intro other found
    rw [known] at found
    cases found
    rw [sent]
    exact Or.inl fun same => by cases same
  have own := step_own d.interceptor ⟨n, app, got⟩ unknown
  have others (m : Nat) (place : Option Nat) (apart : n ≠ m) := step_other d.interceptor ⟨n, app, got⟩ m place apart
  change (_ ∧ Kept (d.interceptor.onRequest app n got).1.pending n _ ∧
    finished n (d.interceptor.onRequest app n got).2 = 0) ∨ (Kept (d.interceptor.onRequest app n got).1.pending n none ∧
    finished n (d.interceptor.onRequest app n got).2 = 1) at own
  have mine : (d.handed n conn (d.interceptor.onRequest app n got).1 out).connections[n]? =
      some { conn with server := d.inst, fate := .handling } := handed_own d n conn _ out known
  have elsewhere (m : Nat) (apart : n ≠ m) : (d.handed n conn (d.interceptor.onRequest app n got).1 out).connections[m]? =
      d.connections[m]? := List.getElem?_set_ne apart
  refine ⟨fun m later found handling here => ?_, fun m idle => ?_, fun m later found => inst ▸ past m later found⟩
  · rw [interceptor]
    have still : finished m (d.interceptor.onRequest app n got).2 = 0 := by
      by_contra done
      exact settled m done later found handling
    obtain ⟨middle, spot, same, _⟩ := performed.moved m later found
    by_cases apart : n = m
    · subst apart
      rcases own with ⟨_, kept, _⟩ | ⟨_, once⟩
      · exact ⟨_, kept⟩
      · omega
    · have old := (elsewhere m apart).symm.trans spot
      have unchanged := performed_unfinished _ d' _ m middle performed still spot
      rw [found] at unchanged
      cases unchanged
      obtain ⟨seq, kept⟩ := housed.held m later old handling (here.trans inst)
      obtain ⟨next, after, leaves⟩ := others m (some seq) apart kept
      rcases leaves with stays | gone
      · exact ⟨seq, stays.1 ▸ after⟩
      · have once : finished m (d.interceptor.onRequest app n got).2 = 1 := gone.2.2
        omega
  · rw [interceptor]
    by_cases apart : n = m
    · subst apart
      rcases own with ⟨_, _, untouched⟩ | ⟨kept, _⟩
      · have unchanged := performed_unfinished _ d' _ n _ performed untouched mine
        rcases idle _ unchanged with other | other
        · exact absurd rfl other
        · exact absurd inst.symm other
      · exact kept
    · by_cases busy : ∃ old, d.connections[m]? = some old ∧ old.fate = .handling ∧ old.server = d.inst
      · obtain ⟨old, there, handling, here⟩ := busy
        obtain ⟨seq, kept⟩ := housed.held m old there handling here
        obtain ⟨next, after, leaves⟩ := others m (some seq) apart kept
        rcases leaves with stays | gone
        · have unchanged := performed_unfinished _ d' _ m old performed stays.2 ((elsewhere m apart).trans there)
          rcases idle old unchanged with other | other
          · exact absurd handling other
          · exact absurd (here.trans inst.symm) other
        · exact gone.2.1 ▸ after
      · have kept := housed.free m fun old there => by
          by_cases handling : old.fate = .handling
          · exact Or.inr fun here => busy ⟨old, there, handling, here⟩
          · exact Or.inl handling
        obtain ⟨next, after, leaves⟩ := others m none apart kept
        exact (leaves_nowhere m next _ leaves).1 ▸ after

theorem housed_create (clientHash serverHash : Bool) (checkpointPath : Path) (checkpointEvery : Nat) :
    Housed (Deployment.create clientHash serverHash checkpointPath checkpointEvery) :=
  ⟨(fun _ _ none => by cases none), fun n _ => kept_empty n, (fun _ _ none => by cases none)⟩

theorem housed_frame (d d' : Deployment) (housed : Housed d) (connections : d'.connections = d.connections)
    (interceptor : d'.interceptor = d.interceptor) (inst : d'.inst = d.inst) : Housed d' := by
  refine ⟨?_, ?_, ?_⟩
  · exact connections ▸ interceptor ▸ inst ▸ housed.held
  · exact connections ▸ interceptor ▸ inst ▸ housed.free
  · exact connections ▸ inst ▸ housed.past

theorem housed_post (d d' : Deployment) (i : Nat) (taken : d.post i = some d') (housed : Housed d) : Housed d' := by
  obtain ⟨call, posting, _, _, rfl⟩ := post_cases d d' i taken
  refine ⟨fun n conn found handling here => ?_, fun n idle => ?_, fun n conn found => ?_⟩
  · rcases row_pushed d.connections _ conn n found with ⟨_, rfl⟩ | old
    · cases handling
    · exact housed.held n conn old handling here
  · exact housed.free n fun conn known => idle conn (row_kept d.connections _ n conn known)
  · rcases row_pushed d.connections _ conn n found with ⟨_, rfl⟩ | old
    · exact Nat.zero_le _
    · exact housed.past n conn old

-- A new server holds nothing.
theorem housed_crash (d : Deployment) (past : ∀ (n : Nat) conn, d.connections[n]? = some conn → conn.server ≤ d.inst) :
    Housed d.crash := by
  refine ⟨fun n conn found _ here => ?_, fun n _ => kept_empty n, fun n conn found => ?_⟩
  · have before : conn.server ≤ d.inst := past n conn found
    have now : conn.server = d.inst + 1 := here
    omega
  · have before : conn.server ≤ d.inst := past n conn found
    change conn.server ≤ d.inst + 1
    omega

theorem housed_step (d d' : Deployment) (a : DeployAction) (housed : Housed d) (taken : d.step a = some d') : Housed d' := by
  cases a with
  | start payload =>
      cases taken
      exact housed_frame d _ housed rfl rfl rfl
  | post i => exact housed_post d d' i taken housed
  | arrive n got app walk =>
      obtain ⟨conn, known, sent, rfl⟩ := arrive_cases d d' n got app walk taken
      exact housed_arrive d n conn got app walk known sent housed
  | receive n res =>
      obtain ⟨conn, call, _, _, _, _, rfl⟩ := receive_cases d d' n res taken
      exact housed_frame d _ housed rfl rfl rfl
  | giveUp i =>
      obtain ⟨call, _, rfl⟩ := give_up_cases d d' i taken
      exact housed_frame d _ housed rfl rfl rfl
  | crash =>
      cases taken
      exact housed_crash d housed.past
  | fall n got app calls reports =>
      obtain ⟨conn, _, rfl⟩ := fall_cases d d' n got app calls reports taken
      apply housed_crash
      intro m later found
      have same : (d.stricken n conn got ((Deployment.reaction d.interceptor app got).cut calls reports)).inst = d.inst :=
        (congrArg Deployment.inst (performed_all .ascending _ _).rest :)
      rw [same]
      exact housed_performed_past .ascending d n conn _ _ _ housed m later found
  | die n got app walk count bytes =>
      obtain ⟨conn, _, rfl⟩ := die_cases d d' n got app walk count bytes taken
      apply housed_crash
      intro m later found
      have same : ((d.handle n conn got app walk count).interrupt walk bytes
          (d.interceptor.onRequest app n got).2[count]?).inst = d.inst := by
        have handled : (d.handle n conn got app walk count).inst = d.inst :=
          (congrArg Deployment.inst (performed_all walk _ _).rest :)
        unfold Deployment.interrupt
        split <;> exact handled
      have spot : (d.handle n conn got app walk count).connections[m]? = some later := by
        unfold Deployment.interrupt at found
        split at found <;> exact found
      rw [same]
      exact housed_performed_past walk d n conn _ _ _ housed m later spot

theorem deployed_housed (clientHash serverHash : Bool) (checkpointPath : Path) (checkpointEvery : Nat) (d : Deployment)
    (reach : DeployReach clientHash serverHash checkpointPath checkpointEvery d) : Housed d :=
  reach.invariant Housed (housed_create clientHash serverHash checkpointPath checkpointEvery)
    (fun d a d' housed _ taken => housed_step d d' a housed taken)

-- ---- while the first server lives ----

structure FirstServer (d : Deployment) (s : Sys) : Prop where
  mirrors : Mirrors d s
  sys : SysInv s
  free : FailureFree s
  answers : AnswerInv s

theorem first_server (clientHash serverHash : Bool) (d : Deployment) (sim : d.Simulated clientHash serverHash)
    (first : d.inst = 0) : ∃ s, FirstServer d s := by
  obtain ⟨s, run, mirrors, _⟩ := sim
  have quiet := first_no_crash clientHash serverHash s run (mirrors.inst.trans first)
  exact ⟨s, mirrors, stack_sys_inv _ _ s run, reachable_failure_free _ _ s quiet,
    reachable_answers _ _ s (quiet.mono no_crash_covered)⟩

-- Nobody recovers, so every POST is a request's.
theorem first_requests (d : Deployment) (s : Sys) (one : FirstServer d s) (posting : Posting) (asked : Asked s posting) :
    posting = .request := by
  cases posting with
  | request => rfl
  | replay fromIndex rp =>
      obtain ⟨_, inst, listed⟩ := asked
      rw [one.free.replays] at listed
      cases listed

theorem numbered_call (d : Deployment) (s : Sys) (i : Nat) (req : Request) (sys : SysInv s) (mirrors : Mirrors d s)
    (issued : s.requests[i]? = some req) : req.seq = i + 1 ∧ ∃ call, d.calls[i]? = some call ∧ call.req = req := by
  refine ⟨sys.client.numbered i req issued, ?_⟩
  rw [mirrors.requests, List.getElem?_map] at issued
  exact Option.map_eq_some_iff.mp issued

-- A request whose POST arrived is committed or parked; an aborted POST gave way to another one of its call.
structure Prompt (d : Deployment) : Prop where
  clear : d.interceptor.NoneHanging
  arrived : ∀ (n : Nat) conn, d.connections[n]? = some conn → conn.fate ≠ .sent →
    conn.call + 1 ≤ d.interceptor.core.committedUpto ∨ conn.call + 1 ∈ d.interceptor.core.pendingReqs
  superseded : ∀ (n : Nat) conn, d.connections[n]? = some conn → conn.fate = .aborted → ∃ m other, m ≠ n ∧
    d.connections[m]? = some other ∧ other.call = conn.call ∧ other.fate ≠ .sent

theorem prompt_create (clientHash serverHash : Bool) (checkpointPath : Path) (checkpointEvery : Nat) :
    Prompt (Deployment.create clientHash serverHash checkpointPath checkpointEvery) := by
  obtain ⟨parked, held⟩ := create_pending (fun _ => none) serverHash checkpointPath checkpointEvery
  refine ⟨⟨fun seq member => ?_, fun seq member => ?_⟩, (fun _ _ none => by cases none), (fun _ _ none => by cases none)⟩
  · change seq ∈ (Interceptor.create (fun _ => none) serverHash checkpointPath checkpointEvery).pending at member
    rw [held] at member
    simp at member
  · change seq ∈ (Interceptor.create (fun _ => none) serverHash checkpointPath checkpointEvery).core.pendingReqs at member
    rw [parked] at member
    simp at member

theorem prompt_frame (d d' : Deployment) (prompt : Prompt d) (connections : d'.connections = d.connections)
    (interceptor : d'.interceptor = d.interceptor) : Prompt d' := by
  refine ⟨?_, ?_, ?_⟩
  · exact interceptor ▸ prompt.clear
  · exact connections ▸ interceptor ▸ prompt.arrived
  · exact connections ▸ prompt.superseded

theorem prompt_post (d d' : Deployment) (i : Nat) (taken : d.post i = some d') (prompt : Prompt d) : Prompt d' := by
  obtain ⟨call, posting, _, _, rfl⟩ := post_cases d d' i taken
  refine ⟨prompt.clear, fun n conn found gone => ?_, fun n conn found aborted => ?_⟩
  · rcases row_pushed d.connections _ conn n found with ⟨_, rfl⟩ | old
    · exact absurd rfl gone
    · exact prompt.arrived n conn old gone
  · rcases row_pushed d.connections _ conn n found with ⟨_, rfl⟩ | old
    · cases aborted
    · obtain ⟨m, other, apart, there, facts⟩ := prompt.superseded n conn old aborted
      exact ⟨m, other, apart, row_kept d.connections _ m other there, facts⟩

theorem prompt_arrive (d : Deployment) (s : Sys) (n : Nat) (conn : Connection)
    (got : ServerRequest) (app : AppFn) (walk : Walk) (one : FirstServer d s) (housed : Housed d) (prompt : Prompt d)
    (known : d.connections[n]? = some conn) (sent : conn.fate = .sent)
    (delivered : DeliversRequest conn.lines conn.body got) :
    Prompt (d.handle n conn got app walk (d.interceptor.onRequest app n got).2.length) := by
  have mirrors := one.mirrors
  have sys := one.sys
  have free := one.free
  obtain ⟨_, _, _, asked, _⟩ := mirrors.connections n conn known
  have kind := first_requests d s one conn.posting asked
  obtain ⟨req, issued, served, _⟩ := request_served d s n conn got app sys mirrors known kind delivered
  have member := List.mem_of_getElem? issued
  obtain ⟨number, _⟩ := numbered_call d s conn.call req sys mirrors issued
  have accepted := failure_free_accepts s req sys free member
  have client := client_inv_issued _ _ sys.client sys.issued
  have progress := on_request_progress s.requests app s.server req client sys.server member accepted
  have forward := (on_request_effect s.requests app s.server req client sys.server member).upto
  rw [mirrors.server] at progress forward
  have keyed : d.interceptor.core.Keyed := fun seq r found =>
    (sys.server.holds.parked seq r (mirrors.server ▸ found)).2
  obtain ⟨front, written, effects⟩ := serve_effects app d.interceptor n req
  -- A POST that is not held at the server is not touched by the call.
  have untouched (m : Nat) (old : Connection) (apart : n ≠ m) (there : d.connections[m]? = some old)
      (idle : old.fate ≠ .handling) : finished m (d.interceptor.onRequest app n got).2 = 0 := by
    have kept : Kept d.interceptor.pending m none := by
      apply housed.free
      intro other found
      rw [there] at found
      cases found
      exact Or.inl idle
    obtain ⟨next, _, leaves⟩ := step_other d.interceptor ⟨n, app, got⟩ m none apart kept
    exact (leaves_nowhere m next _ leaves).2
  have unknown : Kept d.interceptor.pending n none := by
    apply housed.free
    intro other found
    rw [known] at found
    cases found
    rw [sent]
    exact Or.inl fun same => by cases same
  have aborts (o : Nat) (cut : .abort o ∈ (d.interceptor.onRequest app n got).2) :
      d.interceptor.pending[req.seq]? = some o := by
    rw [served] at cut
    exact (early_effect app _ n req _ front written effects _ cut fun _ other => by cases other).aborts o rfl
  rw [handle_effects, List.take_length]
  have performed := performed_all walk (d.handed n conn (d.interceptor.onRequest app n got).1
    (Deployment.reaction d.interceptor app got)) (d.interceptor.onRequest app n got).2
  generalize Deployment.reaction d.interceptor app got = out at *
  generalize final : (d.interceptor.onRequest app n got).2.foldl (Deployment.perform walk)
    (d.handed n conn (d.interceptor.onRequest app n got).1 out) = d' at *
  have interceptor : d'.interceptor = (d.interceptor.serve app n req).1 :=
    (performed_interceptor _ d' _ performed).trans (congrArg Prod.fst served)
  have mine : (d.handed n conn (d.interceptor.onRequest app n got).1 out).connections[n]? =
      some { conn with server := d.inst, fate := .handling } := handed_own d n conn _ out known
  have elsewhere (m : Nat) (apart : n ≠ m) : (d.handed n conn (d.interceptor.onRequest app n got).1 out).connections[m]? =
      d.connections[m]? := List.getElem?_set_ne apart
  obtain ⟨arrival, here, sameCall, handled⟩ :=
    performed_arrived _ d' _ n _ performed mine (fun other => by cases other)
  refine ⟨?_, fun m later found gone => ?_, fun m later found aborted => ?_⟩
  · rw [interceptor]
    exact serve_none_hanging app d.interceptor n req keyed prompt.clear
  · rw [interceptor, effects.core]
    have waits (seq : Nat) (due : seq = req.seq ∨ seq ∈ d.interceptor.core.pendingReqs) :
        seq ≤ (d.interceptor.core.onRequest app req).1.committedUpto ∨
          seq ∈ (d.interceptor.core.onRequest app req).1.pendingReqs := by
      by_cases within : seq ≤ (d.interceptor.core.onRequest app req).1.committedUpto
      · exact Or.inl within
      · exact Or.inr (progress.parked seq (by omega) due)
    by_cases apart : n = m
    · subst apart
      rw [here] at found
      cases found
      rw [sameCall]
      exact waits _ (Or.inl number.symm)
    · obtain ⟨old, spot, same, _⟩ := performed.moved m later found
      rw [elsewhere m apart] at spot
      have before : old.fate ≠ .sent := by
        intro pending
        have idle : old.fate ≠ .handling := by
          rw [pending]
          exact fun other => by cases other
        have unchanged := performed_unfinished _ d' _ m old performed (untouched m old apart spot idle)
          ((elsewhere m apart).trans spot)
        rw [found] at unchanged
        cases unchanged
        exact gone pending
      have call : later.call = old.call := (congrArg Connection.call same :)
      rw [call]
      rcases prompt.arrived m old spot before with committed | parked
      · exact Or.inl (by omega)
      · exact waits _ (Or.inr parked)
  · obtain ⟨middle, spot, same, cause⟩ := performed.moved m later found
    have call : later.call = middle.call := (congrArg Connection.call same :)
    rw [call]
    have apart : n ≠ m := by
      rintro rfl
      rw [mine] at spot
      cases spot
      rcases cause with unchanged | ⟨reply, _, replied⟩ | ⟨cut, _⟩
      · rw [aborted] at unchanged
        cases unchanged
      · rw [aborted] at replied
        cases replied
      · cases (unknown req.seq).mp (aborts n cut)
    rw [elsewhere m apart] at spot
    rcases cause with unchanged | ⟨reply, _, replied⟩ | ⟨cut, _⟩
    · obtain ⟨o, other, different, there, sameOther, passed⟩ := prompt.superseded m middle spot (unchanged ▸ aborted)
      by_cases own : n = o
      · subst own
        rw [known] at there
        cases there
        exact absurd sent passed
      · obtain ⟨after, found', call', gone⟩ :=
          performed_arrived _ d' _ o other performed ((elsewhere o own).trans there) passed
        exact ⟨o, after, different, found', call'.trans sameOther, gone⟩
    · rw [aborted] at replied
      cases replied
    · obtain ⟨holder, r, there, named, right, _⟩ := mirrors.pending req.seq m (aborts m cut)
      rw [spot] at there
      cases there
      obtain ⟨other, _⟩ := numbered_call d s middle.call r sys mirrors named
      have posted : conn.call = middle.call := by omega
      exact ⟨n, arrival, apart, here, sameCall.trans posted, handled⟩

theorem prompt_step (clientHash serverHash : Bool) (d d' : Deployment) (a : DeployAction) (housed : Housed d)
    (sim : d.Simulated clientHash serverHash) (before : d.inst = 0 → Prompt d) (orderly : d.Orderly a)
    (taken : d.step a = some d') (first : d'.inst = 0) : Prompt d' := by
  cases a with
  | start payload =>
      cases taken
      exact prompt_frame d _ (before first) rfl rfl
  | post i =>
      have same : d'.inst = d.inst := by
        obtain ⟨call, posting, _, _, rfl⟩ := post_cases d d' i taken
        rfl
      exact prompt_post d d' i taken (before (same.symm.trans first))
  | arrive n got app walk =>
      obtain ⟨conn, known, sent, rfl⟩ := arrive_cases d d' n got app walk taken
      have same : (d.handle n conn got app walk (d.interceptor.onRequest app n got).2.length).inst = d.inst :=
        (congrArg Deployment.inst (performed_all walk _ _).rest :)
      have alive := same.symm.trans first
      obtain ⟨s, one⟩ := first_server clientHash serverHash d sim alive
      exact prompt_arrive d s n conn got app walk one housed (before alive) known sent (orderly conn known).1
  | receive n res =>
      obtain ⟨conn, call, _, _, _, _, rfl⟩ := receive_cases d d' n res taken
      exact prompt_frame d _ (before first) rfl rfl
  | giveUp i =>
      obtain ⟨call, _, rfl⟩ := give_up_cases d d' i taken
      exact prompt_frame d _ (before first) rfl rfl
  | crash =>
      cases taken
      exact absurd first (Nat.succ_ne_zero d.inst)
  | fall n got app calls reports =>
      obtain ⟨conn, _, rfl⟩ := fall_cases d d' n got app calls reports taken
      exact absurd first (Nat.succ_ne_zero _)
  | die n got app walk count bytes =>
      obtain ⟨conn, _, rfl⟩ := die_cases d d' n got app walk count bytes taken
      exact absurd first (Nat.succ_ne_zero _)

theorem deployed_prompt (clientHash serverHash : Bool) (checkpointPath : Path) (checkpointEvery : Nat) (d : Deployment)
    (reach : DeployReach clientHash serverHash checkpointPath checkpointEvery d) (first : d.inst = 0) : Prompt d :=
  reach.invariant_with (fun d => Housed d ∧ d.Simulated clientHash serverHash) (fun d => d.inst = 0 → Prompt d)
    (fun d reach => ⟨deployed_housed clientHash serverHash checkpointPath checkpointEvery d reach,
      deployed_simulated clientHash serverHash checkpointPath checkpointEvery d reach⟩)
    (fun _ => prompt_create clientHash serverHash checkpointPath checkpointEvery)
    (fun d a d' known before orderly taken first =>
      prompt_step clientHash serverHash d d' a known.1 known.2 before orderly taken first) first

-- ---- nothing waits for ever ----

-- A held POST waits for an earlier request of which no POST has come in.
theorem held_for_missing (d : Deployment) (s : Sys) (n : Nat) (conn : Connection)
    (one : FirstServer d s) (housed : Housed d) (prompt : Prompt d) (answering : Answering d)
    (first : d.inst = 0) (known : d.connections[n]? = some conn) (handling : conn.fate = .handling) :
    ∃ call, d.calls[d.interceptor.core.committedUpto]? = some call ∧ d.interceptor.core.committedUpto < conn.call ∧
      call.posting = some .request ∧ ∀ (m : Nat) other, d.connections[m]? = some other →
        other.call = d.interceptor.core.committedUpto → other.fate = .sent := by
  have mirrors := one.mirrors
  have here : conn.server = d.inst := by
    have past := housed.past n conn known
    omega
  obtain ⟨seq, kept⟩ := housed.held n conn known handling here
  have held := (kept seq).mpr rfl
  obtain ⟨holder, r, there, named, right, _⟩ := mirrors.pending seq n held
  rw [known] at there
  cases there
  obtain ⟨number, _⟩ := numbered_call d s conn.call r one.sys mirrors named
  have above := prompt.clear.held seq ((Tables.mem_iff_lookup _ _).mpr ⟨n, held⟩)
  have missing (m : Nat) (other : Connection) (found : d.connections[m]? = some other)
      (same : other.call = d.interceptor.core.committedUpto) : other.fate = .sent := by
    by_contra gone
    rcases prompt.arrived m other found gone with committed | parked
    · omega
    · have beyond := prompt.clear.parked _ parked
      omega
  have apart : d.interceptor.core.committedUpto < conn.call := by
    have different : conn.call ≠ d.interceptor.core.committedUpto := fun same => by
      have sent := missing n conn known same
      rw [handling] at sent
      cases sent
    omega
  have inside : d.interceptor.core.committedUpto < d.calls.length := by
    have bound := (List.getElem?_eq_some_iff.mp named).1
    rw [mirrors.requests, List.length_map] at bound
    omega
  have there : d.calls[d.interceptor.core.committedUpto]? = some d.calls[d.interceptor.core.committedUpto] :=
    List.getElem?_eq_getElem inside
  refine ⟨_, there, apart, ?_, missing⟩
  generalize d.calls[d.interceptor.core.committedUpto] = call at there
  cases posted : call.posting with
  | none =>
      -- An answer to it would show that it was committed.
      obtain ⟨resp, only⟩ := answering.returned _ call there posted
      obtain ⟨⟨_, own⟩, inst, answered⟩ := mirrors.answers _ call there resp (only ▸ List.mem_singleton.mpr rfl)
      have within := (one.free.sent inst resp answered).2
      have issued : s.requests[d.interceptor.core.committedUpto]? = some call.req := by
        rw [mirrors.requests, List.getElem?_map, there]
        rfl
      obtain ⟨index, _⟩ := numbered_call d s _ call.req one.sys mirrors issued
      rw [mirrors.server] at within
      omega
  | some posting =>
      have asked := mirrors.calls _ call there posting posted
      rw [first_requests d s one posting asked]

theorem arrived_post_accounted (clientHash serverHash : Bool) (checkpointPath : Path) (checkpointEvery : Nat)
    (d : Deployment) (reach : DeployReach clientHash serverHash checkpointPath checkpointEvery d) (first : d.inst = 0) (n : Nat)
    (conn : Connection) (known : d.connections[n]? = some conn) (gone : conn.fate ≠ .sent) :
    (∃ resp, conn.fate = .replied (complete d.interceptor.setHash resp) ∧ resp.seq = conn.call + 1) ∨
    (conn.fate = .aborted ∧ (∀ call, d.calls[conn.call]? = some call → call.attempt ≠ some n) ∧
      ∃ m other, m ≠ n ∧ d.connections[m]? = some other ∧ other.call = conn.call ∧ other.fate ≠ .sent) ∨
    (conn.fate = .handling ∧ ∃ call, d.calls[d.interceptor.core.committedUpto]? = some call ∧
      d.interceptor.core.committedUpto < conn.call ∧ call.posting = some .request ∧
      ∀ (m : Nat) other, d.connections[m]? = some other → other.call = d.interceptor.core.committedUpto →
        other.fate = .sent) := by
  have housed := deployed_housed clientHash serverHash checkpointPath checkpointEvery d reach
  have prompt := deployed_prompt clientHash serverHash checkpointPath checkpointEvery d reach first
  have answering := deployed_answering clientHash serverHash checkpointPath checkpointEvery d reach
  have sim := deployed_simulated clientHash serverHash checkpointPath checkpointEvery d reach
  obtain ⟨s, one⟩ := first_server clientHash serverHash d sim first
  cases fate : conn.fate with
  | sent => exact absurd fate gone
  | replied reply =>
      obtain ⟨req, issued, _, asked, genuine⟩ := one.mirrors.connections n conn known
      have kind := first_requests d s one conn.posting asked
      obtain ⟨number, _⟩ := numbered_call d s conn.call req one.sys one.mirrors issued
      obtain ⟨resp, listed, ⟨_, seq, rfl⟩ | ⟨signal, _⟩⟩ := genuine kind reply fate
      · exact Or.inl ⟨resp, rfl, seq.trans number⟩
      · rw [(one.free.sent _ resp listed).1] at signal
        cases signal
  | aborted =>
      refine Or.inr (Or.inl ⟨rfl, fun call there waiting => ?_, prompt.superseded n conn known fate⟩)
      exact one.mirrors.waited conn.call call n conn there waiting known fate
  | handling =>
      exact Or.inr (Or.inr ⟨rfl, held_for_missing d s n conn one housed prompt answering first known fate⟩)

-- The second request comes in first.
def heldMoves : List PlainMove := [.start [97], .start [98], .post 1, .arrive 0]

def heldDeployment : Deployment := heldMoves.foldl Deployment.plain (.create true true [] 16)

def Connection.isHeld (conn : Connection) : Bool :=
  match conn.fate with
  | .handling => true
  | _ => false

theorem arrived_post_accounted_held : ∃ conn : Connection,
    (heldDeployment.connections[0]? = some conn ∧ conn.fate = .handling) ∧
    ((∃ resp : Response, conn.fate = .replied (complete heldDeployment.interceptor.setHash resp) ∧
      resp.seq = conn.call + 1) ∨
    (conn.fate = .aborted ∧
      (∀ call : SendCall, heldDeployment.calls[conn.call]? = some call → call.attempt ≠ some 0) ∧
      ∃ (m : Nat) (other : Connection), m ≠ 0 ∧ heldDeployment.connections[m]? = some other ∧
        other.call = conn.call ∧ other.fate ≠ .sent) ∨
    (conn.fate = .handling ∧ ∃ call : SendCall,
      heldDeployment.calls[heldDeployment.interceptor.core.committedUpto]? = some call ∧
      heldDeployment.interceptor.core.committedUpto < conn.call ∧ call.posting = some .request ∧
      ∀ (m : Nat) (other : Connection), heldDeployment.connections[m]? = some other →
        other.call = heldDeployment.interceptor.core.committedUpto → other.fate = .sent)) := by
  have held : heldDeployment.connections[0]?.map Connection.isHeld = some true := by decide +kernel
  obtain ⟨conn, known, kind⟩ := Option.map_eq_some_iff.mp held
  have handling : conn.fate = .handling := by
    cases fate : conn.fate with
    | handling => rfl
    | sent | aborted | replied =>
        rw [Connection.isHeld, fate] at kind
        cases kind
  have gone : conn.fate ≠ .sent := by
    rw [handling]
    exact fun other => by cases other
  have first : heldDeployment.inst = 0 := by decide +kernel
  have reach : DeployReach true true [] 16 heldDeployment := plain_run_reach true true [] 16 heldMoves
  exact ⟨conn, ⟨known, handling⟩, arrived_post_accounted true true [] 16 heldDeployment reach first 0 conn known gone⟩

-- The POST that a waiting call waits for has come in, for every such call.
def Connection.arrived (conn : Connection) : Bool :=
  match conn.fate with
  | .sent => false
  | .handling | .replied _ | .aborted => true

def Deployment.AllArrived (d : Deployment) : Prop :=
  ∀ call ∈ d.calls, call.posting.isSome = true →
    ((call.attempt.bind fun n => d.connections[n]?).map Connection.arrived) = some true

instance (d : Deployment) : Decidable d.AllArrived :=
  inferInstanceAs (Decidable (∀ call ∈ d.calls, call.posting.isSome = true →
    ((call.attempt.bind fun n => d.connections[n]?).map Connection.arrived) = some true))

theorem all_arrived_attempt (d : Deployment) (arrived : d.AllArrived) (i : Nat) (call : SendCall)
    (there : d.calls[i]? = some call) (waiting : call.posting ≠ none) :
    ∃ n conn, call.attempt = some n ∧ d.connections[n]? = some conn ∧ conn.arrived = true := by
  have passed := arrived call (List.mem_of_getElem? there) (Option.isSome_iff_ne_none.mpr waiting)
  obtain ⟨conn, known, gone⟩ := Option.map_eq_some_iff.mp passed
  obtain ⟨n, attempt, found⟩ := Option.bind_eq_some_iff.mp known
  exact ⟨n, conn, attempt, found, gone⟩

-- The answer of a waiting call is not a no-op.
theorem first_answer_full (d : Deployment) (s : Sys) (i : Nat) (call : SendCall) (server : Nat) (resp : Response)
    (one : FirstServer d s) (answering : Answering d) (there : d.calls[i]? = some call) (waiting : call.posting ≠ none)
    (listed : (server, resp) ∈ s.responses) (own : resp.seq = i + 1) : resp.noOp = false := by
  by_contra empty
  have normal := (one.free.sent server resp listed).1
  have heard := one.answers.lost.noOps server resp listed normal (by simpa using empty)
  rw [one.mirrors.client, own, answering.received] at heard
  obtain ⟨j, other, found, closed, same⟩ := heard
  obtain rfl : i = j := by omega
  rw [there] at found
  cases found
  exact waiting closed

-- Whoever waits for a POST of its request that was answered returns with that answer.
theorem receive_returns (d : Deployment) (s : Sys) (n : Nat) (conn : Connection) (i : Nat) (call : SendCall)
    (resp : Response) (lines : List (List UInt8)) (mirrors : Mirrors d s) (answering : Answering d) (there : d.calls[i]? = some call)
    (posted : call.attempt = some n) (request : call.posting = some .request) (known : d.connections[n]? = some conn)
    (own : conn.call = i) (fate : conn.fate = .replied (complete d.interceptor.setHash resp))
    (listed : (conn.server, resp) ∈ s.responses) (plain : resp.recover = false) (index : resp.seq = i + 1)
    (full : resp.noOp = false) (delivered : DeliversReply (complete d.interceptor.setHash resp) lines) :
    ∃ d' after, d.receive n (received (complete d.interceptor.setHash resp) lines) = some d' ∧
      d'.calls[i]? = some after ∧ after.posting = none ∧ after.answers = [resp] ∧ (i + 1, resp.payload) ∈ d'.delivered := by
  have waiting : call.posting ≠ none := by
    rw [request]
    exact Option.some_ne_none _
  have read := complete_read_whole call.req _ resp lines (mirrors.responses _ resp listed) plain delivered
  obtain ⟨seen, answer⟩ := see_answered d call _ resp request read
  have unknown : resp.seq ∉ d.client.received := by
    rw [answering.received]
    rintro ⟨j, other, spot, closed, same⟩
    obtain rfl : i = j := by omega
    rw [there] at spot
    cases spot
    exact waiting closed
  refine ⟨d.see i call (received (complete d.interceptor.setHash resp) lines),
    call.turn none (some resp), ?_, ?_, rfl, ?_, ?_⟩
  · rw [Deployment.receive, known, Option.bind_some, own, there, Option.bind_some, if_pos posted, fate]
  · rw [Deployment.see, seen, answer]
    exact List.getElem?_set_self (List.getElem?_eq_some_iff.mp there).1
  · rw [SendCall.turn, answering.waiting i call there waiting]
    rfl
  · rw [Deployment.see, answer, Option.bind_some, on_response_first_heard d.client resp unknown, full, index]
    exact List.mem_append_right _ (List.mem_singleton.mpr rfl)

theorem all_arrived_returns (clientHash serverHash : Bool) (checkpointPath : Path) (checkpointEvery : Nat) (d : Deployment)
    (reach : DeployReach clientHash serverHash checkpointPath checkpointEvery d) (first : d.inst = 0)
    (arrived : d.AllArrived) (i : Nat) (call : SendCall) (there : d.calls[i]? = some call) (waiting : call.posting ≠ none) :
    ∃ n conn resp, (call.attempt = some n ∧ d.connections[n]? = some conn ∧
      conn.fate = .replied (complete d.interceptor.setHash resp) ∧ resp.noOp = false) ∧
      ∀ lines, DeliversReply (complete d.interceptor.setHash resp) lines →
        ∃ d' after, d.receive n (received (complete d.interceptor.setHash resp) lines) = some d' ∧
          d'.calls[i]? = some after ∧ after.posting = none ∧ after.answers = [resp] ∧
          (i + 1, resp.payload) ∈ d'.delivered := by
  have housed := deployed_housed clientHash serverHash checkpointPath checkpointEvery d reach
  have prompt := deployed_prompt clientHash serverHash checkpointPath checkpointEvery d reach first
  have answering := deployed_answering clientHash serverHash checkpointPath checkpointEvery d reach
  have sim := deployed_simulated clientHash serverHash checkpointPath checkpointEvery d reach
  obtain ⟨s, one⟩ := first_server clientHash serverHash d sim first
  have mirrors := one.mirrors
  -- The attempt of a waiting call is a POST of that call.
  have attempt (j : Nat) (other : SendCall) (found : d.calls[j]? = some other) (unanswered : other.posting ≠ none) :
      ∃ n conn, (other.attempt = some n ∧ d.connections[n]? = some conn) ∧ conn.call = j ∧ conn.arrived = true := by
    obtain ⟨n, conn, attempt, known, gone⟩ := all_arrived_attempt d arrived j other found unanswered
    obtain ⟨same, spot, own, _⟩ := mirrors.attempts j other n found attempt
    rw [known] at spot
    cases spot
    exact ⟨n, conn, ⟨attempt, known⟩, own, gone⟩
  obtain ⟨n, conn, ⟨posted, known⟩, own, gone⟩ := attempt i call there waiting
  obtain ⟨req, issued, _, asked, genuine⟩ := mirrors.connections n conn known
  have kind := first_requests d s one conn.posting asked
  obtain ⟨number, found, sameCall, sameReq⟩ := numbered_call d s conn.call req one.sys mirrors issued
  rw [own] at sameCall
  rw [there] at sameCall
  cases sameCall
  cases fate : conn.fate with
  | sent =>
      rw [Connection.arrived, fate] at gone
      cases gone
  | aborted => exact absurd fate (mirrors.waited i call n conn there posted known)
  | handling =>
      obtain ⟨early, spot, _, earlyPosted, missing⟩ :=
        held_for_missing d s n conn one housed prompt answering first known fate
      have earlyWaits : early.posting ≠ none := by
        rw [earlyPosted]
        exact Option.some_ne_none _
      obtain ⟨m, other, ⟨_, seen⟩, place, passed⟩ := attempt _ early spot earlyWaits
      rw [Connection.arrived, missing m other seen place] at passed
      cases passed
  | replied reply =>
      obtain ⟨resp, listed, ⟨plain, seq, rfl⟩ | ⟨signal, _⟩⟩ := genuine kind reply fate
      · have index : resp.seq = i + 1 := by omega
        have full := first_answer_full d s i call conn.server resp one answering there waiting listed index
        refine ⟨n, conn, resp, ⟨posted, known, fate, full⟩, fun lines delivered => ?_⟩
        have request : call.posting = some .request := by
          obtain ⟨same, spot, _, posting⟩ := mirrors.attempts i call n there posted
          rw [known] at spot
          cases spot
          rw [posting, kind]
        exact receive_returns d s n conn i call resp lines mirrors answering there posted request known own fate listed plain
          index full delivered
      · rw [(one.free.sent _ resp listed).1] at signal
        cases signal

-- Only replies come in.
def Receives (d : Deployment) (a : DeployAction) : Prop := (∃ n res, a = .receive n res) ∧ d.Orderly a

theorem receive_closes (clientHash serverHash : Bool) (checkpointPath : Path) (checkpointEvery : Nat) (d d' : Deployment)
    (n : Nat) (res : HttpResult) (reach : DeployReach clientHash serverHash checkpointPath checkpointEvery d)
    (first : d.inst = 0) (arrived : d.AllArrived) (orderly : d.Orderly (.receive n res))
    (taken : d.receive n res = some d') : d'.inst = 0 ∧ d'.AllArrived := by
  have sim := deployed_simulated clientHash serverHash checkpointPath checkpointEvery d reach
  obtain ⟨s, one⟩ := first_server clientHash serverHash d sim first
  obtain ⟨conn, call, known, there, posted, _, rfl⟩ := receive_cases d d' n res taken
  obtain ⟨_, spot, _, posting⟩ := one.mirrors.attempts conn.call call n there posted
  have waiting : call.posting ≠ none := by
    rw [posting]
    exact Option.some_ne_none _
  obtain ⟨m, same, resp, ⟨attempt, place, replied, _⟩, returns⟩ := all_arrived_returns clientHash serverHash checkpointPath
    checkpointEvery d reach first arrived conn.call call there waiting
  rw [posted] at attempt
  cases attempt
  rw [known] at place
  cases place
  obtain ⟨lines, delivered, rfl⟩ := orderly conn _ known replied
  obtain ⟨other, after, again, closed, silent, _⟩ := returns lines delivered
  rw [taken] at again
  cases again
  refine ⟨first, fun later member unanswered => ?_⟩
  obtain ⟨j, found⟩ := List.mem_iff_getElem?.mp member
  rcases row_set d.calls conn.call j _ later found with ⟨rfl, rfl⟩ | ⟨_, old⟩
  · rw [found] at closed
    cases closed
    rw [silent] at unanswered
    cases unanswered
  · exact arrived later (List.mem_of_getElem? old) unanswered

-- As long as the first server lives no answer is a no-op.
theorem first_delivered (clientHash serverHash : Bool) (checkpointPath : Path) (checkpointEvery : Nat) (d : Deployment)
    (reach : DeployReach clientHash serverHash checkpointPath checkpointEvery d) (first : d.inst = 0) (i : Nat)
    (call : SendCall) (there : d.calls[i]? = some call) (closed : call.posting = none) : ∃ p, (i + 1, p) ∈ d.delivered := by
  have answering := deployed_answering clientHash serverHash checkpointPath checkpointEvery d reach
  have sim := deployed_simulated clientHash serverHash checkpointPath checkpointEvery d reach
  obtain ⟨s, one⟩ := first_server clientHash serverHash d sim first
  have heard := (answering.received (i + 1)).mpr ⟨i, call, there, closed, rfl⟩
  rw [← one.mirrors.client] at heard
  obtain ⟨resp, logged, seq⟩ := one.answers.lost.logged _ heard
  have full := (one.answers.lost.receipts resp logged).1
  refine ⟨resp.payload, ?_⟩
  rw [← one.mirrors.delivered, ← seq]
  refine List.mem_filterMap.mpr ⟨_, logged, ?_⟩
  rw [Obs.handed, full]
  rfl

theorem lossless_round_returns (clientHash serverHash : Bool) (checkpointPath : Path) (checkpointEvery : Nat)
    (d d' : Deployment) (reach : DeployReach clientHash serverHash checkpointPath checkpointEvery d) (first : d.inst = 0)
    (arrived : d.AllArrived) (later : Transition.Reach Deployment.step Receives d d')
    (quiet : ∀ n res, d'.Orderly (.receive n res) → d'.receive n res = none) :
    ∀ (i : Nat) call, d'.calls[i]? = some call → call.posting = none ∧ ∃ p, (i + 1, p) ∈ d'.delivered := by
  obtain ⟨reach', first', arrived'⟩ : DeployReach clientHash serverHash checkpointPath checkpointEvery d' ∧ d'.inst = 0 ∧
      d'.AllArrived := by
    apply later.invariant (fun d => DeployReach clientHash serverHash checkpointPath checkpointEvery d ∧ d.inst = 0 ∧
      d.AllArrived) ⟨reach, first, arrived⟩
    rintro before a next ⟨run, one, stands⟩ ⟨⟨n, res, rfl⟩, orderly⟩ taken
    have after := receive_closes clientHash serverHash checkpointPath checkpointEvery before next n res run one stands orderly
      taken
    exact ⟨run.next orderly taken, after⟩
  intro i call there
  have closed : call.posting = none := by
    by_contra waiting
    obtain ⟨n, conn, resp, ⟨_, known, replied, _⟩, returns⟩ := all_arrived_returns clientHash serverHash checkpointPath
      checkpointEvery d' reach' first' arrived' i call there waiting
    have carried := plain_reply_carried _ (complete_named d'.interceptor.setHash resp)
    obtain ⟨next, _, taken, _⟩ := returns _ carried
    rw [quiet n _ fun other reply spot same => ?_] at taken
    · cases taken
    · rw [known] at spot
      cases spot
      rw [replied] at same
      cases same
      exact ⟨_, carried, rfl⟩
  exact ⟨closed, first_delivered clientHash serverHash checkpointPath checkpointEvery d' reach' first' i call there closed⟩

theorem plain_receives (clientHash serverHash : Bool) (d : Deployment) (sim : d.Simulated clientHash serverHash)
    (ns : List Nat) : Transition.Reach Deployment.step Receives d (ns.foldl (fun d n => d.plain (.receive n)) d) := by
  have carried (ns : List Nat) : (ns.foldl (fun d n => d.plain (.receive n)) d).Simulated clientHash serverHash ∧
      Transition.Reach Deployment.step Receives d (ns.foldl (fun d n => d.plain (.receive n)) d) := by
    induction ns using List.reverseRecOn with
    | nil => exact ⟨sim, .refl⟩
    | append_singleton ns n ih =>
        obtain ⟨known, run⟩ := ih
        rw [List.foldl_append]
        generalize ns.foldl (fun d n => d.plain (.receive n)) d = before at known run
        have orderly := plain_receipt clientHash serverHash before n known
        change (((before.receive n (before.plainResult n)).getD before).Simulated clientHash serverHash) ∧
          Transition.Reach Deployment.step Receives d ((before.receive n (before.plainResult n)).getD before)
        cases taken : before.receive n (before.plainResult n) with
        | none => exact ⟨known, run⟩
        | some next =>
            exact ⟨deployed_receive clientHash serverHash before next n _ orderly taken known,
              run.next ⟨⟨n, _, rfl⟩, orderly⟩ taken⟩
  exact (carried ns).2

-- Then the first one comes in as well, and both are answered.
def arrivedMoves : List PlainMove := [.start [97], .start [98], .post 1, .arrive 0, .post 0, .arrive 1]

def arrivedDeployment : Deployment := arrivedMoves.foldl Deployment.plain (.create true true [] 16)

def returnedDeployment : Deployment := [1, 0].foldl (fun d n => d.plain (.receive n)) arrivedDeployment

theorem lossless_round_returns_both : returnedDeployment.delivered = [(1, [97]), (2, [98])] ∧
    ∀ (i : Nat) call, returnedDeployment.calls[i]? = some call →
      call.posting = none ∧ ∃ p, (i + 1, p) ∈ returnedDeployment.delivered := by
  have reach := plain_run_reach true true [] 16 arrivedMoves
  have sim := deployed_simulated true true [] 16 arrivedDeployment reach
  have idle : ∀ call ∈ returnedDeployment.calls, call.attempt = none := by decide +kernel
  refine ⟨by decide +kernel, lossless_round_returns true true [] 16 arrivedDeployment returnedDeployment reach
    (by decide +kernel) (by decide +kernel) (plain_receives true true arrivedDeployment sim [1, 0]) fun n res _ => ?_⟩
  cases taken : returnedDeployment.receive n res with
  | none => rfl
  | some next =>
      obtain ⟨conn, call, _, there, posted, _⟩ := receive_cases returnedDeployment next n res taken
      rw [idle call (List.mem_of_getElem? there)] at posted
      cases posted

end Color
