import Color.DeploymentRun

set_option autoImplicit false

namespace Color

-- ---- runs over the plain carrier ----

def Deployment.plainGot (d : Deployment) (n : Nat) : ServerRequest :=
  match d.connections[n]? with
  | some conn => plainRequest conn.lines conn.body
  | none => ⟨fun _ => [], none⟩

def Deployment.plainResult (d : Deployment) (n : Nat) : HttpResult :=
  match d.connections[n]? with
  | some { fate := .replied reply, .. } => received reply (plainLines reply)
  | _ => {}

-- The POST comes in time.
def Deployment.inTime (d : Deployment) (n : Nat) : Bool :=
  match d.connections[n]? with
  | some conn => d.Timely conn.call conn.posting
  | none => false

theorem plain_arrival (clientHash serverHash : Bool) (d : Deployment) (n : Nat) (sim : d.Simulated clientHash serverHash)
    (inTime : d.inTime n = true) (conn : Connection) (known : d.connections[n]? = some conn) :
    DeliversRequest conn.lines conn.body (d.plainGot n) ∧ d.Timely conn.call conn.posting := by
  rw [Deployment.inTime, known] at inTime
  refine ⟨?_, of_decide_eq_true inTime⟩
  obtain ⟨s, _, mirrors, _⟩ := sim
  obtain ⟨req, _, wired, _⟩ := mirrors.connections n conn known
  obtain ⟨lines, body⟩ := Prod.mk.inj wired
  rw [Deployment.plainGot, known]
  change DeliversRequest conn.lines conn.body (plainRequest conn.lines conn.body)
  rw [lines, body]
  cases conn.posting with
  | request => exact plain_request_carried req
  | replay fromIndex rp => exact plain_replay_carried fromIndex _

theorem plain_receipt (clientHash serverHash : Bool) (d : Deployment) (n : Nat) (sim : d.Simulated clientHash serverHash) :
    d.Orderly (.receive n (d.plainResult n)) := by
  intro conn reply known replied
  obtain ⟨s, _, mirrors, _⟩ := sim
  rw [Deployment.plainResult, known]
  refine ⟨plainLines reply, plain_reply_carried reply (mirrors.named n conn reply known replied), ?_⟩
  cases conn
  cases replied
  rfl

-- Moves over the plain carrier, to an application that answers with its payload.
inductive PlainMove where
  | start (payload : Payload)
  | post (i : Nat)
  | arrive (n : Nat)
  | receive (n : Nat)
  | giveUp (i : Nat)
  | crash
  | fall (n calls reports : Nat)
  | die (n count bytes : Nat)

def echo : AppFn := fun _ payload _ => payload

def PlainMove.action (d : Deployment) : PlainMove → DeployAction
  | .start payload => .start payload
  | .post i => .post i
  | .arrive n => .arrive n (d.plainGot n) echo .ascending
  | .receive n => .receive n (d.plainResult n)
  | .giveUp i => .giveUp i
  | .crash => .crash
  | .fall n calls reports => .fall n (d.plainGot n) echo calls reports
  | .die n count bytes => .die n (d.plainGot n) echo .ascending count bytes

def PlainMove.allowed (d : Deployment) : PlainMove → Bool
  | .start _ => d.client.nextSeq < 2 ^ 63
  | .arrive n | .fall n _ _ | .die n _ _ => d.inTime n
  | .post _ | .receive _ | .giveUp _ | .crash => true

def Deployment.plain (d : Deployment) (move : PlainMove) : Deployment :=
  if move.allowed d then (d.step (move.action d)).getD d else d

theorem plain_orderly (clientHash serverHash : Bool) (d : Deployment) (move : PlainMove)
    (sim : d.Simulated clientHash serverHash) (allowed : move.allowed d = true) : d.Orderly (move.action d) := by
  cases move with
  | start payload =>
      have few : d.client.nextSeq < 2 ^ 63 := of_decide_eq_true allowed
      exact few
  | arrive n => exact plain_arrival clientHash serverHash d n sim allowed
  | fall n => exact plain_arrival clientHash serverHash d n sim allowed
  | die n => exact plain_arrival clientHash serverHash d n sim allowed
  | receive n => exact plain_receipt clientHash serverHash d n sim
  | post | giveUp | crash => trivial

theorem plain_reach (clientHash serverHash : Bool) (checkpointPath : Path) (checkpointEvery : Nat) (d : Deployment)
    (move : PlainMove) (reach : DeployReach clientHash serverHash checkpointPath checkpointEvery d) :
    DeployReach clientHash serverHash checkpointPath checkpointEvery (d.plain move) := by
  have sim := deployed_simulated clientHash serverHash checkpointPath checkpointEvery d reach
  rw [Deployment.plain]
  split
  · rename_i allowed
    have orderly := plain_orderly clientHash serverHash d move sim allowed
    cases taken : d.step (move.action d) with
    | none => exact reach
    | some next => exact reach.next orderly taken
  · exact reach

theorem plain_run_reach (clientHash serverHash : Bool) (checkpointPath : Path) (checkpointEvery : Nat)
    (moves : List PlainMove) : DeployReach clientHash serverHash checkpointPath checkpointEvery
      (moves.foldl Deployment.plain (.create clientHash serverHash checkpointPath checkpointEvery)) := by
  induction moves using List.reverseRecOn with
  | nil => exact .refl
  | append_singleton moves move ih =>
      rw [List.foldl_append]
      exact plain_reach clientHash serverHash checkpointPath checkpointEvery _ move ih

-- The first server answers and dies while it writes its checkpoint. The second request
-- acknowledges that answer, so the next server asks for a replay, which reaches yet
-- another one; that one falls right after it has called the application. The last crash
-- leaves a server that starts from a checkpoint.
def failoverMoves : List PlainMove :=
  [.start [97], .post 0, .die 0 2 5, .receive 0, .start [98], .post 1, .arrive 1, .receive 1, .post 1, .crash, .arrive 2,
    .receive 2, .post 1, .fall 3 1 0, .giveUp 1, .post 1, .arrive 4, .receive 4, .post 1, .arrive 5, .receive 5, .post 1,
    .arrive 6, .receive 6, .crash]

def failoverDeployment : Deployment := failoverMoves.foldl Deployment.plain (.create false true (text "cp") 1)

theorem failover_reach : DeployReach false true (text "cp") 1 failoverDeployment :=
  plain_run_reach false true (text "cp") 1 failoverMoves

-- ---- the deployed stack is the system ----

end Color
