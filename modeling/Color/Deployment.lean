import Color.HeldRequests
import Color.SendLoop
import Color.StackSystem

set_option autoImplicit false

namespace Color

-- ---- one client process, one server process, HTTP between them ----

inductive Fate where
  | sent
  | handling
  | replied (reply : ServerReply)
  | aborted

-- One POST. Its number is the number of the request object the server gets for it;
-- server is the instance that took it.
structure Connection where
  call : Nat
  posting : Posting
  lines : List (List UInt8)
  body : List UInt8
  server : Nat := 0
  fate : Fate := .sent

-- One call of ColorHttpClient::send: what it posts next, or nothing once it has returned,
-- the POST it waits for, and what it handed to on_response.
structure SendCall where
  req : Request
  posting : Option Posting
  attempt : Option Nat := none
  answers : List Response := []

-- The loop of send or recover after a result.
def SendCall.turn (call : SendCall) (posting : Option Posting) (answer : Option Response) : SendCall :=
  { req := call.req
    posting := posting
    answers := call.answers ++ answer.toList }

-- delivered lists the deliver_ calls of the client, invoked the app_ calls of all servers,
-- and mismatched the calls of either side's hash mismatch callback.
structure Deployment where
  client : Client
  calls : List SendCall := []
  interceptor : Interceptor
  inst : Nat := 0
  connections : List Connection := []
  files : Files := fun _ => none
  delivered : List (Nat × Payload) := []
  invoked : List Call := []
  mismatched : List Mismatch := []

def Deployment.create (clientHash serverHash : Bool) (checkpointPath : Path) (checkpointEvery : Nat) : Deployment :=
  { client := .fresh clientHash
    interceptor := .create (fun _ => none) serverHash checkpointPath checkpointEvery }

inductive DeployAction where
  | start (payload : Payload)
  | post (i : Nat)
  | arrive (n : Nat) (got : ServerRequest) (app : AppFn) (walk : Walk)
  | receive (n : Nat) (res : HttpResult)
  | giveUp (i : Nat)
  | crash
  | fall (n : Nat) (got : ServerRequest) (app : AppFn) (calls reports : Nat)
  | die (n : Nat) (got : ServerRequest) (app : AppFn) (walk : Walk) (count bytes : Nat)

namespace Deployment

-- Any number of threads may be in send; the core is behind a mutex.
def start (d : Deployment) (payload : Payload) : Deployment :=
  let s := Sender.start d.client payload
  { d with client := s.client, calls := d.calls ++ [{ req := s.req, posting := s.posting }] }

def sender (d : Deployment) (call : SendCall) : Sender := ⟨d.client, call.req, call.posting⟩

def post (d : Deployment) (i : Nat) : Option Deployment :=
  d.calls[i]?.bind fun call =>
    match call.attempt, call.posting, (d.sender call).post with
    | none, some posting, some (lines, body) =>
        some { d with
          calls := d.calls.set i { call with attempt := some d.connections.length }
          connections := d.connections ++ [{ call := i, posting, lines, body }] }
    | _, _, _ => none

def settle (d : Deployment) (object : Nat) (fate : Fate) : Deployment :=
  { d with connections := d.connections.modify object fun conn => { conn with fate } }

-- WriteCheckpoint as it is meant to go: the temp file holds the whole text when it is renamed.
def perform (walk : Walk) (d : Deployment) : Effect → Deployment
  | .reply object reply => d.settle object (.replied reply)
  | .abort object => d.settle object .aborted
  | .committed _ _ => d
  | .writeCheckpoint core =>
      let path := d.interceptor.checkpointPath
      { d with files := (d.files.put (tempPath path) (some (core.checkpoint walk).toJson)).rename (tempPath path) path }

def reaction (ic : Interceptor) (app : AppFn) (req : ServerRequest) : Outcome :=
  if req.header (text "Color-Replay") ≠ [] then {} else (ic.core.onRequest app req.parse).2

-- The interceptor has taken a POST: what the calls out of it were told.
def handed (d : Deployment) (n : Nat) (conn : Connection) (ic : Interceptor) (out : Outcome) : Deployment :=
  { d with
    interceptor := ic
    connections := d.connections.set n { conn with server := d.inst, fate := .handling }
    invoked := d.invoked ++ out.calls
    mismatched := d.mismatched ++ out.mismatches }

-- The call, with its first count effects.
def handle (d : Deployment) (n : Nat) (conn : Connection) (got : ServerRequest) (app : AppFn) (walk : Walk) (count : Nat) :
    Deployment :=
  let (ic, effects) := d.interceptor.onRequest app n got
  (effects.take count).foldl (perform walk) (d.handed n conn ic (reaction d.interceptor app got))

-- A POST reaches the server, perhaps long after its sender gave up on it.
def arrive (d : Deployment) (n : Nat) (got : ServerRequest) (app : AppFn) (walk : Walk) : Option Deployment :=
  d.connections[n]?.bind fun conn =>
    match conn.fate with
    | .sent => some (d.handle n conn got app walk (d.interceptor.onRequest app n got).2.length)
    | _ => none

-- A transport result for the POST that call i waits for.
def see (d : Deployment) (i : Nat) (call : SendCall) (res : HttpResult) : Deployment :=
  let s := (d.sender call).see res
  let answer := (d.sender call).answer res
  { d with
    client := s.client
    calls := d.calls.set i (call.turn s.posting answer)
    delivered := d.delivered ++ (answer.bind fun resp => (d.client.onResponse resp).1.delivered).toList
    mismatched := d.mismatched ++ (answer.bind fun resp => (d.client.onResponse resp).1.mismatch).toList }

def receive (d : Deployment) (n : Nat) (res : HttpResult) : Option Deployment :=
  d.connections[n]?.bind fun conn =>
    d.calls[conn.call]?.bind fun call =>
      if call.attempt = some n then
        match conn.fate with
        | .replied _ | .aborted => some (d.see conn.call call res)
        | _ => none
      else none

-- An injected drop, a transport error or a timeout.
def giveUp (d : Deployment) (i : Nat) : Option Deployment :=
  d.calls[i]?.bind fun call => if call.attempt.isSome then some (d.see i call {}) else none

-- The server process is replaced; what it held is gone, the files stay.
def restart (d : Deployment) : Interceptor :=
  .create d.files d.interceptor.setHash d.interceptor.checkpointPath d.interceptor.checkpointEvery

def crash (d : Deployment) : Deployment := { d with interceptor := d.restart, inst := d.inst + 1 }

-- So many bytes of a checkpoint are in the temp file, which is not renamed any more.
def interrupt (d : Deployment) (walk : Walk) (bytes : Nat) : Option Effect → Deployment
  | some (.writeCheckpoint core) =>
      { d with files :=
          d.files.put (tempPath d.interceptor.checkpointPath) (some ((core.checkpoint walk).toJson.take bytes)) }
  | _ => d

-- What OnRequest does to other objects before it calls the core.
def superseded (ic : Interceptor) (req : ServerRequest) : List Effect :=
  if req.header (text "Color-Replay") ≠ [] then [] else (ic.pending[req.parse.seq]?.map Effect.abort).toList

-- The server process ends inside on_request, after some of its calls of app_ and of the mismatch callback.
def fall (d : Deployment) (n : Nat) (got : ServerRequest) (app : AppFn) (calls reports : Nat) : Option Deployment :=
  d.connections[n]?.bind fun conn =>
    match conn.fate with
    | .sent =>
        let out := (reaction d.interceptor app got).cut calls reports
        some ((superseded d.interceptor got).foldl (perform .ascending) (d.handed n conn d.interceptor out)).crash
    | _ => none

-- It ends after on_request has returned, and after count effects.
def die (d : Deployment) (n : Nat) (got : ServerRequest) (app : AppFn) (walk : Walk) (count bytes : Nat) :
    Option Deployment :=
  d.connections[n]?.bind fun conn =>
    match conn.fate with
    | .sent =>
        some ((d.handle n conn got app walk count).interrupt walk bytes
          (d.interceptor.onRequest app n got).2[count]?).crash
    | _ => none

def step (d : Deployment) : DeployAction → Option Deployment
  | .start payload => some (d.start payload)
  | .post i => d.post i
  | .arrive n got app walk => d.arrive n got app walk
  | .receive n res => d.receive n res
  | .giveUp i => d.giveUp i
  | .crash => some d.crash
  | .fall n got app calls reports => d.fall n got app calls reports
  | .die n got app walk count bytes => d.die n got app walk count bytes

-- When a POST comes in: an older copy of a request does not abort the POST its call
-- waits for, and a replay starts within the history of the server it reaches.
def Timely (d : Deployment) (i : Nat) : Posting → Prop
  | .request => ∀ call ∈ d.calls[i]?, ∀ object ∈ d.interceptor.pending[call.req.seq]?, call.attempt ≠ some object
  | .replay fromIndex _ => fromIndex ≤ d.interceptor.core.history.eventCount

instance (d : Deployment) (i : Nat) : (posting : Posting) → Decidable (d.Timely i posting)
  | .request => inferInstanceAs (Decidable (∀ call ∈ d.calls[i]?, ∀ object ∈ _, _))
  | .replay _ _ => inferInstanceAs (Decidable (_ ≤ _))

-- What HTTP is relied on for, seqs that fit their type, and POSTs that come in time.
def Orderly (d : Deployment) : DeployAction → Prop
  | .start _ => d.client.nextSeq < 2 ^ 63
  | .arrive n got _ _ | .fall n got _ _ _ | .die n got _ _ _ _ => ∀ conn, d.connections[n]? = some conn →
      DeliversRequest conn.lines conn.body got ∧ d.Timely conn.call conn.posting
  | .receive n res => ∀ conn reply, d.connections[n]? = some conn → conn.fate = .replied reply →
      ∃ lines, DeliversReply reply lines ∧ res = received reply lines
  | _ => True

end Deployment

abbrev DeployReach (clientHash serverHash : Bool) (checkpointPath : Path) (checkpointEvery : Nat) : Deployment → Prop :=
  Transition.Reach Deployment.step Deployment.Orderly
    (Deployment.create clientHash serverHash checkpointPath checkpointEvery)

-- ---- what one call of the interceptor does ----

theorem complete_held_effects (setHash : Bool) (responses : List Response) (pending : SeqMap Nat) (e : Effect)
    (member : e ∈ (completeHeld setHash responses pending).2.2) :
    (∃ resp ∈ responses, ∃ object, pending[resp.seq]? = some object ∧ e = .reply object (complete setHash resp)) ∨
      ∃ seq payload, e = .committed seq payload := by
  induction responses generalizing pending with
  | nil => exact absurd member List.not_mem_nil
  | cons resp rest ih =>
      have later (pending' : SeqMap Nat) (smaller : ∀ (s o : Nat), pending'[s]? = some o → pending[s]? = some o)
          (inside : e ∈ (completeHeld setHash rest pending').2.2) :
          (∃ other ∈ resp :: rest, ∃ object,
            pending[other.seq]? = some object ∧ e = .reply object (complete setHash other)) ∨
            ∃ seq payload, e = .committed seq payload := by
        rcases ih pending' inside with ⟨other, among, object, held, shape⟩ | committed
        · exact Or.inl ⟨other, List.mem_cons_of_mem resp among, object, smaller _ _ held, shape⟩
        · exact Or.inr committed
      rw [completeHeld] at member
      cases held : pending[resp.seq]? with
      | none =>
          simp only [held] at member
          exact later pending (fun _ _ => id) member
      | some object =>
          have smaller (s o : Nat) (found : (pending.erase resp.seq)[s]? = some o) : pending[s]? = some o := by
            rw [Std.ExtTreeMap.getElem?_erase] at found
            split at found
            · cases found
            · exact found
          simp only [held] at member
          split at member
          · rcases List.mem_cons.mp member with rfl | inside
            · exact Or.inl ⟨resp, List.mem_cons_self, object, held, rfl⟩
            · exact later _ smaller inside
          · rcases List.mem_cons.mp member with rfl | inside
            · exact Or.inl ⟨resp, List.mem_cons_self, object, held, rfl⟩
            · rcases List.mem_cons.mp inside with rfl | further
              · exact Or.inr ⟨_, _, rfl⟩
              · exact later _ smaller further

theorem maybe_checkpoint_effects (ic : Interceptor) (committed : Nat) :
    (ic.maybeCheckpoint committed).2 = [] ∨
      ic.checkpointPath ≠ [] ∧ (ic.maybeCheckpoint committed).2 = [.writeCheckpoint ic.core] := by
  rw [Interceptor.maybeCheckpoint]
  split
  · exact Or.inl rfl
  · rename_i enabled
    split
    · exact Or.inr ⟨fun empty => enabled (Or.inl empty), rfl⟩
    · exact Or.inl rfl

-- Before the checkpoint is written: the superseded object, the replies and the reports.
structure Front (ic : Interceptor) (object : Nat) (creq : Request) (responses : List Response) (e : Effect) : Prop where
  replies : ∀ o reply, e = .reply o reply → ∃ resp ∈ responses,
    (resp.recover = false ∧ (ic.pending.insert creq.seq object)[resp.seq]? = some o ∧ reply = complete ic.setHash resp) ∨
      resp.recover = true ∧ o = object ∧ reply = signalRecovery resp
  aborts : ∀ o, e = .abort o → ic.pending[creq.seq]? = some o
  writes : ∀ core, e ≠ .writeCheckpoint core

structure ServeEffects (app : AppFn) (ic : Interceptor) (object : Nat) (creq : Request)
    (effects front written : List Effect) : Prop where
  whole : effects = front ++ written
  front : ∀ e ∈ front, Front ic object creq (ic.core.onRequest app creq).2.responses e
  written : written = [] ∨
    ic.checkpointPath ≠ [] ∧ written = [.writeCheckpoint (ic.serve app object creq).1.core]
  core : (ic.serve app object creq).1.core = (ic.core.onRequest app creq).1
  pending : ∀ (seq o : Nat), (ic.serve app object creq).1.pending[seq]? = some o →
    (ic.pending.insert creq.seq object)[seq]? = some o

theorem superseded_front (ic : Interceptor) (object : Nat) (creq : Request) (responses : List Response) (e : Effect)
    (member : e ∈ (ic.pending[creq.seq]?.map Effect.abort).toList) : Front ic object creq responses e := by
  obtain ⟨o, held, rfl⟩ := Option.map_eq_some_iff.mp (Option.mem_toList.mp member)
  refine ⟨(fun _ _ other => by cases other), fun other same => ?_, (fun _ other => by cases other)⟩
  cases same
  exact held

theorem serve_refused_effects (app : AppFn) (ic : Interceptor) (object : Nat) (creq : Request)
    (recover : ic.core.needsRecover creq) :
    ∃ front, ServeEffects app ic object creq (ic.serve app object creq).2 front [] := by
  obtain ⟨core, pending⟩ := serve_refused app ic object creq recover
  have refused := on_request_refused app ic.core creq recover
  refine ⟨(ic.pending[creq.seq]?.map Effect.abort).toList ++ [.reply object (signalRecovery (ic.core.recoverySignal creq))],
    ?_, fun e member => ?_, Or.inl rfl, ?_, fun seq o found => ?_⟩
  · rw [Interceptor.serve, refused, List.append_nil]
    rfl
  · rcases List.mem_append.mp member with first | second
    · exact superseded_front ic object creq _ e first
    · rw [List.mem_singleton.mp second, refused]
      refine ⟨fun o reply same => ?_, (fun _ other => by cases other), (fun _ other => by cases other)⟩
      cases same
      exact ⟨ic.core.recoverySignal creq, List.mem_singleton.mpr rfl, Or.inr ⟨rfl, rfl, rfl⟩⟩
  · rw [core, refused]
  · rw [pending, Std.ExtTreeMap.getElem?_erase] at found
    split at found
    · cases found
    · exact found

theorem complete_held_kept (setHash : Bool) (responses : List Response) (pending : SeqMap Nat) (seq object : Nat)
    (found : (completeHeld setHash responses pending).1[seq]? = some object) : pending[seq]? = some object := by
  induction responses generalizing pending with
  | nil => exact found
  | cons resp rest ih =>
      rw [completeHeld] at found
      cases held : pending[resp.seq]? with
      | none =>
          simp only [held] at found
          exact ih pending found
      | some o =>
          simp only [held] at found
          have left : (completeHeld setHash rest (pending.erase resp.seq)).1[seq]? = some object := by
            split at found
            · exact found
            · exact found
          have kept := ih (pending.erase resp.seq) left
          rw [Std.ExtTreeMap.getElem?_erase] at kept
          split at kept
          · cases kept
          · exact kept

theorem serve_accepted_effects (app : AppFn) (ic : Interceptor) (object : Nat) (creq : Request)
    (accepted : ¬ ic.core.needsRecover creq) :
    ∃ front written, ServeEffects app ic object creq (ic.serve app object creq).2 front written := by
  have recovery := recovery_of_on_request app ic.core creq
  rw [if_neg accepted] at recovery
  obtain ⟨core, pending⟩ := serve_accepted app ic object creq accepted
  have normal (resp : Response) (among : resp ∈ (ic.core.onRequest app creq).2.responses) : resp.recover = false := by
    cases kind : resp.recover with
    | false => rfl
    | true => exact absurd ((on_request_recover_iff app ic.core creq).mp (List.any_eq_true.mpr ⟨resp, among, kind⟩)) accepted
  obtain ⟨next, committed, whole, path, after⟩ : ∃ (next : Interceptor) (committed : Nat),
      (ic.serve app object creq).2 = ((ic.pending[creq.seq]?.map Effect.abort).toList ++
        (completeHeld ic.setHash (ic.core.onRequest app creq).2.responses (ic.pending.insert creq.seq object)).2.2) ++
          (next.maybeCheckpoint committed).2 ∧
      next.checkpointPath = ic.checkpointPath ∧ next.core = (ic.core.onRequest app creq).1 := by
    rw [Interceptor.serve]
    simp only [recovery]
    exact ⟨_, _, rfl, rfl, rfl⟩
  refine ⟨_, _, whole, fun e member => ?_, ?_, core, fun seq o found => ?_⟩
  · rcases List.mem_append.mp member with first | second
    · exact superseded_front ic object creq _ e first
    · rcases complete_held_effects _ _ _ e second with ⟨resp, among, o, held, rfl⟩ | ⟨seq, payload, rfl⟩
      · refine ⟨fun o' reply same => ?_, (fun _ other => by cases other), (fun _ other => by cases other)⟩
        cases same
        exact ⟨resp, among, Or.inl ⟨normal resp among, held, rfl⟩⟩
      · exact ⟨(fun _ _ other => by cases other), (fun _ other => by cases other), (fun _ other => by cases other)⟩
  · rw [core, ← path, ← after]
    exact maybe_checkpoint_effects next committed
  · rw [pending] at found
    exact complete_held_kept _ _ _ seq o found

theorem serve_effects (app : AppFn) (ic : Interceptor) (object : Nat) (creq : Request) :
    ∃ front written, ServeEffects app ic object creq (ic.serve app object creq).2 front written := by
  by_cases recover : ic.core.needsRecover creq
  · obtain ⟨front, effects⟩ := serve_refused_effects app ic object creq recover
    exact ⟨front, [], effects⟩
  · exact serve_accepted_effects app ic object creq recover

-- The first effects of a call are of the same kind.
theorem serve_effects_take (app : AppFn) (ic : Interceptor) (object : Nat) (creq : Request) (count : Nat) :
    ∃ front written, ServeEffects app ic object creq ((ic.serve app object creq).2.take count) front written := by
  obtain ⟨front, written, effects⟩ := serve_effects app ic object creq
  refine ⟨front.take count, written.take (count - front.length), ?_, ?_, ?_, effects.core, effects.pending⟩
  · rw [effects.whole, List.take_append]
  · exact fun e member => effects.front e (List.mem_of_mem_take member)
  · rcases effects.written with rfl | ⟨named, rfl⟩
    · exact Or.inl List.take_nil
    · cases count - front.length with
      | zero => exact Or.inl rfl
      | succ more => exact Or.inr ⟨named, List.take_succ_cons.trans (congrArg _ List.take_nil)⟩

theorem on_request_config (app : AppFn) (ic : Interceptor) (object : Nat) (req : ServerRequest) :
    (ic.onRequest app object req).1.setHash = ic.setHash ∧
      (ic.onRequest app object req).1.checkpointPath = ic.checkpointPath ∧
      (ic.onRequest app object req).1.checkpointEvery = ic.checkpointEvery := by
  have cadence (next : Interceptor) (committed : Nat) : (next.maybeCheckpoint committed).1.setHash = next.setHash ∧
      (next.maybeCheckpoint committed).1.checkpointPath = next.checkpointPath ∧
      (next.maybeCheckpoint committed).1.checkpointEvery = next.checkpointEvery := by
    rw [Interceptor.maybeCheckpoint]
    split
    · exact ⟨rfl, rfl, rfl⟩
    · split <;> exact ⟨rfl, rfl, rfl⟩
  rw [Interceptor.onRequest]
  split
  · exact ⟨rfl, rfl, rfl⟩
  · rw [Interceptor.serve]
    simp only
    split
    · exact ⟨rfl, rfl, rfl⟩
    · exact cadence _ _

-- ---- what effects change ----

structure Performed (d d' : Deployment) (effects : List Effect) : Prop where
  rest : d' = { d with connections := d'.connections, files := d'.files }
  moved : ∀ (n : Nat) conn', d'.connections[n]? = some conn' → ∃ conn, d.connections[n]? = some conn ∧
    conn' = { conn with fate := conn'.fate } ∧ (conn'.fate = conn.fate ∨
      (∃ reply, .reply n reply ∈ effects ∧ conn'.fate = .replied reply) ∨ .abort n ∈ effects ∧ conn'.fate = .aborted)
  kept : ∀ (n : Nat) conn, d.connections[n]? = some conn → ∃ fate, d'.connections[n]? = some { conn with fate }
  files : (∀ core, .writeCheckpoint core ∉ effects) → d'.files = d.files

theorem performed_nil (d : Deployment) : Performed d d [] :=
  ⟨rfl, fun _ conn found => ⟨conn, found, rfl, Or.inl rfl⟩, fun _ conn found => ⟨conn.fate, found⟩, fun _ => rfl⟩

theorem performed_settle (d d' : Deployment) (effects : List Effect) (e : Effect) (object : Nat) (fate : Fate)
    (before : Performed d d' effects) (said : (∃ reply, e = .reply object reply ∧ fate = .replied reply) ∨
      e = .abort object ∧ fate = .aborted) : Performed d (d'.settle object fate) (effects ++ [e]) := by
  refine ⟨?_, fun n conn' found => ?_, fun n conn found => ?_, fun quiet => before.files fun core member =>
    quiet core (List.mem_append_left _ member)⟩
  · rw [Deployment.settle, before.rest]
  · have spot : (d'.settle object fate).connections[n]? = some conn' := found
    rw [Deployment.settle, List.getElem?_modify] at spot
    obtain ⟨middle, there, changed⟩ := Option.map_eq_some_iff.mp spot
    obtain ⟨conn, first, shape, cause⟩ := before.moved n middle there
    refine ⟨conn, first, ?_⟩
    by_cases own : object = n
    · rw [if_pos own] at changed
      rw [← changed, shape]
      refine ⟨rfl, Or.inr ?_⟩
      rcases said with ⟨reply, rfl, rfl⟩ | ⟨rfl, rfl⟩
      · exact Or.inl ⟨reply, List.mem_append_right _ (own ▸ List.mem_singleton.mpr rfl), rfl⟩
      · exact Or.inr ⟨List.mem_append_right _ (own ▸ List.mem_singleton.mpr rfl), rfl⟩
    · rw [if_neg own] at changed
      rw [← changed]
      refine ⟨shape, ?_⟩
      rcases cause with same | ⟨reply, member, replied⟩ | ⟨member, aborted⟩
      · exact Or.inl same
      · exact Or.inr (Or.inl ⟨reply, List.mem_append_left _ member, replied⟩)
      · exact Or.inr (Or.inr ⟨List.mem_append_left _ member, aborted⟩)
  · obtain ⟨middle, there⟩ := before.kept n conn found
    rw [Deployment.settle, List.getElem?_modify, there]
    by_cases own : object = n
    · exact ⟨fate, congrArg some (if_pos own)⟩
    · exact ⟨middle, congrArg some (if_neg own)⟩

theorem performed_snoc (walk : Walk) (d d' : Deployment) (effects : List Effect) (e : Effect)
    (before : Performed d d' effects) : Performed d (d'.perform walk e) (effects ++ [e]) := by
  have earlier (conn conn' : Connection) (n : Nat) (cause : conn'.fate = conn.fate ∨
      (∃ reply, .reply n reply ∈ effects ∧ conn'.fate = .replied reply) ∨ .abort n ∈ effects ∧ conn'.fate = .aborted) :
      conn'.fate = conn.fate ∨ (∃ reply, .reply n reply ∈ effects ++ [e] ∧ conn'.fate = .replied reply) ∨
        .abort n ∈ effects ++ [e] ∧ conn'.fate = .aborted := by
    rcases cause with same | ⟨reply, member, replied⟩ | ⟨member, aborted⟩
    · exact Or.inl same
    · exact Or.inr (Or.inl ⟨reply, List.mem_append_left _ member, replied⟩)
    · exact Or.inr (Or.inr ⟨List.mem_append_left _ member, aborted⟩)
  cases e with
  | reply object reply => exact performed_settle d d' effects _ object _ before (Or.inl ⟨reply, rfl, rfl⟩)
  | abort object => exact performed_settle d d' effects _ object _ before (Or.inr ⟨rfl, rfl⟩)
  | committed seq payload =>
      refine ⟨before.rest, fun n conn' found => ?_, before.kept, fun quiet => before.files fun core member =>
        quiet core (List.mem_append_left _ member)⟩
      obtain ⟨conn, first, shape, cause⟩ := before.moved n conn' found
      exact ⟨conn, first, shape, earlier conn conn' n cause⟩
  | writeCheckpoint core =>
      refine ⟨?_, fun n conn' found => ?_, before.kept, fun quiet => ?_⟩
      · rw [Deployment.perform, before.rest]
      · obtain ⟨conn, first, shape, cause⟩ := before.moved n conn' found
        exact ⟨conn, first, shape, earlier conn conn' n cause⟩
      · exact absurd rfl (fun same => quiet core (List.mem_append_right _ (List.mem_singleton.mpr same)))

theorem performed_all (walk : Walk) (d : Deployment) (effects : List Effect) :
    Performed d (effects.foldl (Deployment.perform walk) d) effects := by
  induction effects using List.reverseRecOn with
  | nil => exact performed_nil d
  | append_singleton effects e ih =>
      rw [List.foldl_append]
      exact performed_snoc walk d _ effects e ih

theorem performed_interceptor (d d' : Deployment) (effects : List Effect) (performed : Performed d d' effects) :
    d'.interceptor = d.interceptor :=
  (congrArg Deployment.interceptor performed.rest :)

-- The last effect may replace the checkpoint file; nothing else touches the files.
theorem write_checkpoint_file (walk : Walk) (d : Deployment) (core : Server) :
    (d.perform walk (.writeCheckpoint core)).files d.interceptor.checkpointPath = some (core.checkpoint walk).toJson :=
  rename_target _ _ _ _ (put_same _ _ _)

end Color
