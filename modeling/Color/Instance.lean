import Color.TotalOrder

set_option autoImplicit false

namespace Color

def callsOf (g : Nat) (log : List Obs) : List Call :=
  log.filterMap (fun o => match o with
    | .invoked inst c => if inst = g then some c else none
    | _ => none)

theorem calls_of_append (g : Nat) (log more : List Obs) : callsOf g (log ++ more) = callsOf g log ++ callsOf g more :=
  List.filterMap_append

theorem mem_calls_of (g : Nat) (log : List Obs) (c : Call) : c ∈ callsOf g log ↔ Obs.invoked g c ∈ log := by
  rw [callsOf, List.mem_filterMap]
  constructor
  · rintro ⟨o, member, eq⟩
    cases o with
    | invoked inst d =>
        by_cases same : inst = g
        · simp only [same, if_true, Option.some.injEq] at eq
          rw [← same, ← eq]
          exact member
        · simp [same] at eq
    | accepted | received | mismatch => cases eq
  · exact fun member => ⟨_, member, by simp⟩

theorem calls_of_observed (g inst : Nat) (req : Request) (out : Outcome) :
    callsOf g (observed inst req out) = if inst = g then out.calls else [] := by
  by_cases same : inst = g <;> by_cases refused : out.responses.any Response.recover <;>
    simp [callsOf, observed, same, refused, List.filterMap_append, List.filterMap_map]

theorem calls_of_deliver (g : Nat) (s : Sys) (resp : Response) : callsOf g (s.deliver resp).log = callsOf g s.log := by
  change callsOf g (s.log ++ (if (s.client.onResponse resp).1.first then [Obs.received resp] else []) ++
    ((s.client.onResponse resp).1.mismatch.map Obs.mismatch).toList) = _
  rw [calls_of_append, calls_of_append]
  cases (s.client.onResponse resp).1.first <;> cases (s.client.onResponse resp).1.mismatch <;> simp [callsOf]

-- What the current instance has processed is committed and not owed any more.
structure InstanceInv (s : Sys) : Prop where
  calledBy : ∀ g c, Obs.invoked g c ∈ s.log → g ≤ s.inst
  acceptedBy : ∀ g r, Obs.accepted g r ∈ s.log → g ≤ s.inst
  called : ∀ c, Obs.invoked s.inst c ∈ s.log → c.seq ≤ s.server.committedUpto ∧ c.seq ∉ s.server.awaiting
  acked : ∀ r, Obs.accepted s.inst r ∈ s.log → ∀ i, r.Acknowledges i → i ≤ s.server.committedUpto
  parked : ∀ (k : Nat) (r : Request), s.server.pendingReqs[k]? = some r → Obs.accepted s.inst r ∈ s.log

-- An id that is committed and not awaiting stays so while the instance lives.
theorem replay_keeps_called (reqs : List Request) (sv next : Server) (i : Nat) (effect : ReplayEffect reqs sv next)
    (before : i ≤ sv.committedUpto ∧ i ∉ sv.awaiting) : i ≤ next.committedUpto ∧ i ∉ next.awaiting := by
  refine ⟨Nat.le_trans before.1 effect.upto, fun owed => ?_⟩
  cases effect.awaiting i owed with
  | inl old => exact before.2 old
  | inr above => omega

theorem request_keeps_called (reqs : List Request) (sv next : Server) (req : Request) (out : Outcome) (i : Nat)
    (effect : RequestEffect reqs sv req next out) (before : i ≤ sv.committedUpto ∧ i ∉ sv.awaiting) :
    i ≤ next.committedUpto ∧ i ∉ next.awaiting :=
  ⟨Nat.le_trans before.1 effect.upto, fun owed => before.2 (effect.awaiting owed)⟩

theorem due_fresh (sv : Server) (req : Request) (i : Nat) (due : sv.Due req i) :
    i ∈ sv.awaiting ∨ sv.committedUpto < i := by
  rcases due with ⟨_, owed⟩ | ⟨_, above, _⟩
  · exact Or.inl owed
  · exact Or.inr above

theorem accepted_logged (s : Sys) (sv : Server) (req : Request) (app : AppFn) (accepted : ¬ sv.needsRecover req) :
    Obs.accepted s.inst req ∈ (s.answer req (sv.onRequest app req)).log :=
  List.mem_append_right _ ((accepted_mem_observed _ _ _ _ _).mpr
    ⟨⟨rfl, rfl⟩, fun refused => accepted ((on_request_recover_iff app sv req).mp refused)⟩)

theorem answer_step_instance (s : Sys) (sv : Server) (req : Request) (app : AppFn) (inv : InstanceInv s)
    (replayed : ReplayEffect s.requests s.server sv)
    (effect : RequestEffect s.requests sv req (sv.onRequest app req).1 (sv.onRequest app req).2) :
    InstanceInv (s.answer req (sv.onRequest app req)) := by
  refine ⟨?_, ?_, ?_, ?_, ?_⟩
  · intro g c logged
    cases List.mem_append.mp logged with
    | inl old => exact inv.calledBy g c old
    | inr new => exact Nat.le_of_eq ((invoked_mem_observed _ _ _ _ _).mp new).1
  · intro g r logged
    cases List.mem_append.mp logged with
    | inl old => exact inv.acceptedBy g r old
    | inr new => exact Nat.le_of_eq ((accepted_mem_observed _ _ _ _ _).mp new).1.1
  · intro c logged
    cases List.mem_append.mp logged with
    | inl old =>
        exact request_keeps_called _ _ _ req _ c.seq effect (replay_keeps_called _ _ _ c.seq replayed (inv.called c old))
    | inr new => exact effect.done c ((invoked_mem_observed _ _ _ _ _).mp new).2
  · intro r logged i acks
    refine Nat.le_trans ?_ effect.upto
    cases List.mem_append.mp logged with
    | inl old => exact Nat.le_trans (inv.acked r old i acks) replayed.upto
    | inr new =>
        obtain ⟨⟨_, same⟩, accepted⟩ := (accepted_mem_observed _ _ _ _ _).mp new
        rw [same] at acks
        exact accepted_acks sv req i (fun refused => accepted ((on_request_recover_iff app sv req).mpr refused)) acks
  · intro k r found
    rcases effect.parked k r found with old | ⟨accepted, same⟩
    · rw [replayed.parked] at old
      exact List.mem_append_left _ (inv.parked k r old)
    · rw [same]
      exact accepted_logged s sv req app accepted

theorem deliver_step_instance (s : Sys) (resp : Response) (inv : InstanceInv s) : InstanceInv (s.deliver resp) := by
  have invoked : ∀ g c, Obs.invoked g c ∈ (s.deliver resp).log → Obs.invoked g c ∈ s.log := by
    intro g c logged
    simpa using (deliver_log s resp _).mp logged
  have accepted : ∀ g r, Obs.accepted g r ∈ (s.deliver resp).log → Obs.accepted g r ∈ s.log := by
    intro g r logged
    simpa using (deliver_log s resp _).mp logged
  exact ⟨fun g c logged => inv.calledBy g c (invoked g c logged), fun g r logged => inv.acceptedBy g r (accepted g r logged),
    fun c logged => inv.called c (invoked _ c logged), fun r logged => inv.acked r (accepted _ r logged),
    fun k r found => (deliver_log s resp _).mpr (Or.inl (inv.parked k r found))⟩

theorem step_instance (s s' : Sys) (a : Action) (sys : SysInv s) (inv : InstanceInv s) (taken : s.step a = some s') :
    InstanceInv s' := by
  cases step_effect s s' a taken with
  | generated | built | saved => exact ⟨inv.calledBy, inv.acceptedBy, inv.called, inv.acked, inv.parked⟩
  | answered req app rounds member =>
      obtain ⟨replayed, effect⟩ := exchange_effects s req app rounds sys member
      exact answer_step_instance s _ req app inv replayed effect
  | delivered _ _ resp => exact deliver_step_instance s resp inv
  | ingested _ rp _ sent =>
      have effect := ingest_effect s rp sys sent
      exact ⟨inv.calledBy, inv.acceptedBy, fun c logged => replay_keeps_called _ _ _ c.seq effect (inv.called c logged),
        fun r logged i acks => Nat.le_trans (inv.acked r logged i acks) effect.upto,
        fun k r found => inv.parked k r (effect.parked ▸ found)⟩
  | restored index setHash cp kind found =>
      -- Nothing in the log is by the new instance yet.
      refine ⟨fun g c logged => Nat.le_succ_of_le (inv.calledBy g c logged),
        fun g r logged => Nat.le_succ_of_le (inv.acceptedBy g r logged), ?_, ?_, ?_⟩
      · intro c logged
        have bound := inv.calledBy _ c logged
        exact absurd bound (by simp only; omega)
      · intro r logged
        have bound := inv.acceptedBy _ r logged
        exact absurd bound (by simp only; omega)
      · intro k r stored
        simp [Server.ofCheckpoint] at stored

theorem reachable_instance (guard : Sys → Action → Prop) (clientHash serverHash : Bool) (s : Sys)
    (run : Reachable guard clientHash serverHash s) : InstanceInv s :=
  run.invariant_with SysInv InstanceInv (reachable_sys_inv guard clientHash serverHash)
    (by constructor <;> simp [Sys.init, Server.start])
    (fun s a s' sys inv _ taken => step_instance s s' a sys inv taken)

end Color
