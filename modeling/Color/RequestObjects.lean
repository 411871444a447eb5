import Color.HeldRequests

set_option autoImplicit false

namespace Color

-- ---- where one object is ----

-- pending_ keeps the object under exactly the given id, or not at all.
def Kept (pending : SeqMap Nat) (object : Nat) (place : Option Nat) : Prop :=
  ∀ s, pending[s]? = some object ↔ some s = place

def vacate (place : Option Nat) (s : Nat) : Option Nat := if some s = place then none else place

theorem erase_kept (pending : SeqMap Nat) (object s : Nat) (place : Option Nat) (kept : Kept pending object place) :
    Kept (pending.erase s) object (vacate place s) := by
  intro t
  rw [Tables.lookup_erase, vacate]
  by_cases here : t = s
  · rw [if_pos here, here]
    split
    · simp
    · rename_i other
      exact iff_of_false (Option.some_ne_none object).symm other
  · rw [if_neg here, kept t]
    split
    · rename_i own
      rw [← own]
      simp [here]
    · rfl

theorem insert_kept_other (pending : SeqMap Nat) (object other s : Nat) (place : Option Nat)
    (kept : Kept pending object place) (apart : other ≠ object) :
    Kept (pending.insert s other) object (vacate place s) := by
  intro t
  have erased := erase_kept pending object s place kept t
  rw [Tables.lookup_erase] at erased
  rw [Tables.lookup_insert, ← erased]
  split
  · simp [apart]
  · rfl

theorem insert_kept_own (pending : SeqMap Nat) (object s : Nat) (kept : Kept pending object none) :
    Kept (pending.insert s object) object (some s) := by
  intro t
  have absent := kept t
  rw [Tables.lookup_insert]
  by_cases here : t = s
  · simp [here]
  · simpa [here] using absent

-- ---- what is done to it ----

def Effect.finishes (object : Nat) : Effect → Bool
  | .reply o _ => o = object
  | .abort o => o = object
  | _ => false

def finished (object : Nat) (log : List Effect) : Nat := log.countP (Effect.finishes object)

@[simp] theorem finished_nil (object : Nat) : finished object [] = 0 := rfl

@[simp] theorem finished_append (object : Nat) (log more : List Effect) :
    finished object (log ++ more) = finished object log + finished object more := List.countP_append

theorem finished_cons (object : Nat) (e : Effect) (log : List Effect) :
    finished object (e :: log) = finished object [e] + finished object log := finished_append object [e] log

@[simp] theorem finished_reply (object o : Nat) (reply : ServerReply) :
    finished object [.reply o reply] = if o = object then 1 else 0 := by
  by_cases own : o = object <;> simp [finished, Effect.finishes, own]

@[simp] theorem finished_abort (object o : Nat) : finished object [.abort o] = if o = object then 1 else 0 := by
  by_cases own : o = object <;> simp [finished, Effect.finishes, own]

@[simp] theorem finished_committed (object seq : Nat) (payload : Payload) : finished object [.committed seq payload] = 0 :=
  rfl

-- An object stays where it is, or leaves for good with one reply or abort.
def Leaves (object : Nat) (place next : Option Nat) (effects : List Effect) : Prop :=
  (next = place ∧ finished object effects = 0) ∨ (place ≠ none ∧ next = none ∧ finished object effects = 1)

theorem leaves_trans (object : Nat) (a b c : Option Nat) (first second : List Effect) (one : Leaves object a b first)
    (two : Leaves object b c second) : Leaves object a c (first ++ second) := by
  rw [Leaves, finished_append]
  cases one with
  | inl stays =>
      rw [stays.2, Nat.zero_add, ← stays.1]
      exact two
  | inr gone =>
      cases two with
      | inl still => exact Or.inr ⟨gone.1, still.1.trans gone.2.1, by omega⟩
      | inr again => exact absurd gone.2.1 again.1

theorem leaves_nowhere (object : Nat) (next : Option Nat) (effects : List Effect) (leaves : Leaves object none next effects) :
    next = none ∧ finished object effects = 0 := by
  cases leaves with
  | inl stays => exact stays
  | inr gone => exact absurd rfl gone.1

-- Taking out what is kept under s, with an effect that finishes exactly that object.
theorem leaves_vacate (pending : SeqMap Nat) (object s : Nat) (place : Option Nat) (effects : List Effect)
    (kept : Kept pending object place)
    (once : finished object effects = if pending[s]? = some object then 1 else 0) :
    Leaves object place (vacate place s) effects := by
  rw [Leaves, vacate, once]
  by_cases own : some s = place
  · rw [if_pos own, if_pos ((kept s).mpr own)]
    exact Or.inr ⟨by simp [← own], rfl, rfl⟩
  · rw [if_neg own, if_neg (mt (kept s).mp own)]
    exact Or.inl ⟨rfl, rfl⟩

-- ---- one call ----

theorem complete_held_place (setHash : Bool) (responses : List Response) (pending : SeqMap Nat) (object : Nat)
    (place : Option Nat) (kept : Kept pending object place) :
    ∃ next, Kept (completeHeld setHash responses pending).1 object next ∧
      Leaves object place next (completeHeld setHash responses pending).2.2 := by
  induction responses generalizing pending place with
  | nil => exact ⟨place, kept, Or.inl ⟨rfl, rfl⟩⟩
  | cons resp rest ih =>
      rw [completeHeld]
      cases found : pending[resp.seq]? with
      | none => exact ih pending place kept
      | some o =>
          obtain ⟨next, after, leaves⟩ := ih (pending.erase resp.seq) _ (erase_kept pending object resp.seq place kept)
          have reply : finished object [.reply o (complete setHash resp)] = if pending[resp.seq]? = some object then 1 else 0 := by
            simp [found]
          refine ⟨next, ?_, ?_⟩
          · simp only
            split <;> exact after
          · simp only
            split
            · have out := leaves_vacate pending object resp.seq place [.reply o (complete setHash resp)] kept reply
              exact leaves_trans object _ _ _ _ _ out leaves
            · have out := leaves_vacate pending object resp.seq place
                [.reply o (complete setHash resp), .committed resp.seq resp.payload] kept (by
                  rw [finished_cons, reply, finished_committed, Nat.add_zero])
              exact leaves_trans object _ _ _ _ _ out leaves

theorem maybe_checkpoint_finished (ic : Interceptor) (committed object : Nat) :
    finished object (ic.maybeCheckpoint committed).2 = 0 := by
  rw [Interceptor.maybeCheckpoint]
  split
  · rfl
  · split <;> rfl

-- What OnRequest does once the object is in pending_, the stale one aborted.
theorem serve_place (app : AppFn) (ic : Interceptor) (own : Nat) (creq : Request) (object : Nat) (place : Option Nat)
    (kept : Kept (ic.pending.insert creq.seq own) object place) :
    ∃ next effects, (ic.serve app own creq).2 = (ic.pending[creq.seq]?.map Effect.abort).toList ++ effects ∧
      Kept (ic.serve app own creq).1.pending object next ∧ Leaves object place next effects := by
  have recovery := recovery_of_on_request app ic.core creq
  by_cases recover : ic.core.needsRecover creq
  · rw [if_pos recover] at recovery
    rw [Interceptor.serve]
    simp only [recovery]
    refine ⟨vacate place creq.seq, _, rfl, erase_kept _ object creq.seq place kept, ?_⟩
    apply leaves_vacate _ object creq.seq place _ kept
    simp
  · rw [if_neg recover] at recovery
    rw [Interceptor.serve]
    simp only [recovery]
    obtain ⟨next, after, leaves⟩ := complete_held_place ic.setHash (ic.core.onRequest app creq).2.responses _ object place kept
    refine ⟨next, _, List.append_assoc _ _ _, ?_, ?_⟩
    · rw [(maybe_checkpoint_core _ _).2]
      exact after
    · have written : ∀ later : Interceptor, ∀ committed, Leaves object next next (later.maybeCheckpoint committed).2 :=
        fun later committed => Or.inl ⟨rfl, maybe_checkpoint_finished later committed object⟩
      exact leaves_trans object _ _ _ _ _ leaves (written _ _)

theorem step_other (ic : Interceptor) (call : HttpCall) (object : Nat) (place : Option Nat) (apart : call.object ≠ object)
    (kept : Kept ic.pending object place) :
    ∃ next, Kept (ic.step call).pending object next ∧
      Leaves object place next (ic.onRequest call.app call.object call.req).2 := by
  rw [Interceptor.step, Interceptor.onRequest]
  split
  · exact ⟨place, kept, Or.inl ⟨rfl, by simp [Interceptor.onReplay, apart]⟩⟩
  · have held := insert_kept_other ic.pending object call.object call.req.parse.seq place kept apart
    obtain ⟨next, effects, all, after, leaves⟩ := serve_place call.app ic call.object call.req.parse object _ held
    refine ⟨next, after, ?_⟩
    rw [all]
    apply leaves_trans object _ _ _ _ _ _ leaves
    apply leaves_vacate ic.pending object call.req.parse.seq place _ kept
    cases ic.pending[call.req.parse.seq]? <;> simp

def HttpCall.plain (call : HttpCall) : Prop := call.req.header (text "Color-Replay") = []

-- An object that is new to the interceptor is kept under its own id or finished at once.
theorem step_own (ic : Interceptor) (call : HttpCall) (unknown : Kept ic.pending call.object none) :
    (call.plain ∧ Kept (ic.step call).pending call.object (some call.req.parse.seq) ∧
        finished call.object (ic.onRequest call.app call.object call.req).2 = 0) ∨
      (Kept (ic.step call).pending call.object none ∧
        finished call.object (ic.onRequest call.app call.object call.req).2 = 1) := by
  rw [Interceptor.step, Interceptor.onRequest]
  split
  · exact Or.inr ⟨unknown, by simp [Interceptor.onReplay]⟩
  · rename_i plain
    have held := insert_kept_own ic.pending call.object call.req.parse.seq unknown
    obtain ⟨next, effects, all, after, leaves⟩ := serve_place call.app ic call.object call.req.parse call.object _ held
    have aborted : finished call.object (ic.pending[call.req.parse.seq]?.map Effect.abort).toList = 0 := by
      have absent := unknown call.req.parse.seq
      cases found : ic.pending[call.req.parse.seq]? with
      | none => rfl
      | some o => simpa [found] using absent
    rw [all, finished_append, aborted, Nat.zero_add]
    cases leaves with
    | inl stays => exact Or.inl ⟨not_not.mp plain, stays.1 ▸ after, stays.2⟩
    | inr gone => exact Or.inr ⟨gone.2.1 ▸ after, gone.2.2⟩

-- ---- whole runs ----

def HttpCall.Held (call : HttpCall) (ic : Interceptor) (log : List Effect) : Prop :=
  call.plain ∧ Kept ic.pending call.object (some call.req.parse.seq) ∧ finished call.object log = 0

def HttpCall.Finished (call : HttpCall) (ic : Interceptor) (log : List Effect) : Prop :=
  Kept ic.pending call.object none ∧ finished call.object log = 1

structure Accounted (ic : Interceptor) (log : List Effect) (calls : List HttpCall) : Prop where
  passed : ∀ call ∈ calls, call.Held ic log ∨ call.Finished ic log
  others : ∀ object, object ∉ calls.map HttpCall.object → Kept ic.pending object none ∧ finished object log = 0

theorem step_accounted (ic : Interceptor) (log : List Effect) (calls : List HttpCall) (call : HttpCall)
    (fresh : call.object ∉ calls.map HttpCall.object) (before : Accounted ic log calls) :
    Accounted (ic.step call) (log ++ (ic.onRequest call.app call.object call.req).2) (calls ++ [call]) := by
  obtain ⟨unknown, untouched⟩ := before.others call.object fresh
  constructor
  · intro earlier listed
    cases List.mem_append.mp listed with
    | inr last =>
        rw [List.mem_singleton.mp last, HttpCall.Held, HttpCall.Finished, finished_append, untouched, Nat.zero_add]
        exact step_own ic call unknown
    | inl old =>
        have apart : call.object ≠ earlier.object := fun same => fresh (same ▸ List.mem_map_of_mem old)
        rw [HttpCall.Held, HttpCall.Finished, finished_append]
        cases before.passed earlier old with
        | inl waiting =>
            obtain ⟨next, after, leaves⟩ := step_other ic call earlier.object _ apart waiting.2.1
            cases leaves with
            | inl stays => exact Or.inl ⟨waiting.1, stays.1 ▸ after, by rw [waiting.2.2, stays.2]⟩
            | inr gone => exact Or.inr ⟨gone.2.1 ▸ after, by rw [waiting.2.2, gone.2.2]⟩
        | inr done =>
            obtain ⟨next, after, leaves⟩ := step_other ic call earlier.object _ apart done.1
            obtain ⟨nowhere, silent⟩ := leaves_nowhere _ _ _ leaves
            exact Or.inr ⟨nowhere ▸ after, by rw [done.2, silent]⟩
  · intro object outside
    rw [List.map_append, List.mem_append, not_or] at outside
    have apart : call.object ≠ object := fun same => outside.2 (by simp [same])
    obtain ⟨absent, silent⟩ := before.others object outside.1
    obtain ⟨next, after, leaves⟩ := step_other ic call object none apart absent
    obtain ⟨nowhere, still⟩ := leaves_nowhere _ _ _ leaves
    exact ⟨nowhere ▸ after, by rw [finished_append, silent, still]⟩

theorem run_accounted (start : Interceptor) (empty : start.pending = ∅) (calls : List HttpCall)
    (distinct : (calls.map HttpCall.object).Nodup) : Accounted (start.run calls) (start.log calls) calls := by
  induction calls using List.reverseRecOn with
  | nil =>
      refine ⟨fun call none => absurd none List.not_mem_nil, fun object _ => ⟨fun s => ?_, rfl⟩⟩
      change start.pending[s]? = some object ↔ _
      simp [empty]
  | append_singleton calls call ih =>
      rw [List.map_append, List.nodup_append] at distinct
      have fresh : call.object ∉ calls.map HttpCall.object :=
        fun old => distinct.2.2 call.object old call.object (by simp) rfl
      rw [interceptor_run_snoc, log_snoc]
      exact step_accounted _ _ calls call fresh (ih distinct.1)

-- The calls are the ones made so far, so this is about every moment of a run.
theorem objects_finished_once (files : Files) (setHash : Bool) (checkpointPath : Path) (checkpointEvery : Nat)
    (calls : List HttpCall) (distinct : (calls.map HttpCall.object).Nodup) :
    let start := Interceptor.create files setHash checkpointPath checkpointEvery
    ∀ call ∈ calls, Xor (call.Held (start.run calls) (start.log calls)) (call.Finished (start.run calls) (start.log calls)) := by
  intro start call listed
  have accounted := run_accounted start (create_pending files setHash checkpointPath checkpointEvery).2 calls distinct
  cases accounted.passed call listed with
  | inl waiting => exact Or.inl ⟨waiting, fun done => by have := waiting.2.2; have := done.2; omega⟩
  | inr done => exact Or.inr ⟨done, fun waiting => by have := waiting.2.2; have := done.2; omega⟩

-- The parked request waits; the refused one and the replay are finished.
theorem objects_finished_once_hanging :
    let start := Interceptor.create (fun _ => none) false [] 16
    ∀ call ∈ hangingCalls,
      Xor (call.Held (start.run hangingCalls) (start.log hangingCalls))
        (call.Finished (start.run hangingCalls) (start.log hangingCalls)) :=
  objects_finished_once (fun _ => none) false [] 16 hangingCalls (by decide +kernel)

end Color
