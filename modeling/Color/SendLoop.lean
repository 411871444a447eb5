import Color.Headers
import Color.ReplayFit

set_option autoImplicit false

namespace Color

-- What send, or recover on its behalf, has on the wire.
inductive Posting where
  | request
  | replay (fromIndex : Nat) (rp : Replay)

-- One call of send: the core it shares with other threads, the frozen request,
-- and nothing on the wire once it has returned.
structure Sender where
  client : Client
  req : Request
  posting : Option Posting

def Sender.start (client : Client) (payload : Payload) : Sender :=
  let (req, client) := client.generateRequest payload
  { client := client, req := req, posting := some .request }

def Sender.post (s : Sender) : Option (List (List UInt8) × List UInt8) :=
  s.posting.map (fun posting =>
    match posting with
    | .request => (headerLines s.req, s.req.payload)
    | .replay fromIndex rp => (recoverLines fromIndex, rp.toJson))

-- The response handed to on_response for a transport result.
def Sender.answer (s : Sender) (res : HttpResult) : Option Response :=
  match s.posting with
  | some .request =>
      match sendReceive s.req res with
      | .received resp => some resp
      | _ => none
  | _ => none

def HttpResult.Ok (res : HttpResult) : Prop := res.delivered = true ∧ res.status = 200

instance (res : HttpResult) : Decidable res.Ok := inferInstanceAs (Decidable (_ ∧ _))

-- One turn of send's loop, or of recover's.
def Sender.see (s : Sender) (res : HttpResult) : Sender :=
  match s.posting with
  | none => s
  | some (.replay _ _) => if res.Ok then { s with posting := some .request } else s
  | some .request =>
      match sendReceive s.req res with
      | .recover fromIndex => { s with posting := some (.replay fromIndex (s.client.buildReplay fromIndex)) }
      | .received resp => { s with client := (s.client.onResponse resp).2, posting := none }
      | .retry => s

-- Between two results other threads use the core.
inductive SendEvent where
  | result (res : HttpResult)
  | other (action : ClientAction)

def Sender.step (s : Sender) : SendEvent → Sender
  | .result res => s.see res
  | .other action => { s with client := s.client.act action }

def Sender.run (s : Sender) (events : List SendEvent) : Sender := events.foldl Sender.step s

-- The request is on the wire again, at once or as soon as a replay is through.
def Sender.Again (s next : Sender) : Prop :=
  next.post = s.post ∨
    (∃ fromIndex rp, next.posting = some (.replay fromIndex rp)) ∧
      ∀ (waits : List SendEvent) (acked : HttpResult), (∀ res, .result res ∈ waits → ¬ res.Ok) → acked.Ok →
        (next.run (waits ++ [.result acked])).post = s.post

-- Only a 200 is an answer; anything else leaves the core alone and the request is sent again.
structure Sender.Genuine (s : Sender) (res : HttpResult) : Prop where
  answers : ∀ resp, s.answer res = some resp → res.Ok
  silent : ¬ res.Ok → (s.see res).client = s.client
  resends : s.posting = some .request → ¬ res.Ok → s.Again (s.see res)

-- What the request may meet: a lost exchange, an answer or a recovery signal.
def Sender.Expects (s : Sender) (res : HttpResult) : Prop :=
  s.posting = some .request → res.delivered = true →
    res.status = 200 ∨ res.status = 503 ∧ (res.headers (text "color-recover")).isSome

theorem replay_waits (s : Sender) (fromIndex : Nat) (rp : Replay) (posting : s.posting = some (.replay fromIndex rp))
    (waits : List SendEvent) (unacked : ∀ res, .result res ∈ waits → ¬ res.Ok) :
    (s.run waits).posting = some (.replay fromIndex rp) ∧ (s.run waits).req = s.req := by
  induction waits generalizing s with
  | nil => exact ⟨posting, rfl⟩
  | cons event rest ih =>
      have later : ∀ res, .result res ∈ rest → ¬ res.Ok := fun res inside => unacked res (List.mem_cons_of_mem event inside)
      cases event with
      | result res =>
          have stays : s.step (.result res) = s := by
            rw [Sender.step, Sender.see, posting]
            exact if_neg (unacked res List.mem_cons_self)
          have whole : s.run (.result res :: rest) = s.run rest := by
            rw [Sender.run, List.foldl_cons, stays]
            rfl
          rw [whole]
          exact ih s posting later
      | other action => exact ih (s.step (.other action)) posting later

theorem replay_resumes (s : Sender) (fromIndex : Nat) (rp : Replay) (posting : s.posting = some (.replay fromIndex rp))
    (waits : List SendEvent) (acked : HttpResult) (unacked : ∀ res, .result res ∈ waits → ¬ res.Ok) (ok : acked.Ok) :
    (s.run (waits ++ [.result acked])).post = some (headerLines s.req, s.req.payload) := by
  obtain ⟨waiting, same⟩ := replay_waits s fromIndex rp posting waits unacked
  have last : s.run (waits ++ [.result acked]) = (s.run waits).see acked := by
    rw [Sender.run, List.foldl_append]
    rfl
  rw [last, Sender.see, waiting]
  simp only [if_pos ok]
  rw [Sender.post, same]
  rfl

theorem send_receive_cases (req : Request) (res : HttpResult) :
    (res.delivered = false ∧ sendReceive req res = .retry) ∨
      (res.delivered = true ∧ (res.status = 503 ∧ (res.headers (text "color-recover")).isSome) ∧
        ∃ fromIndex, sendReceive req res = .recover fromIndex) ∨
      (res.delivered = true ∧ ¬ (res.status = 503 ∧ (res.headers (text "color-recover")).isSome) ∧
        ∃ resp, sendReceive req res = .received resp) := by
  rw [sendReceive]
  cases delivered : res.delivered with
  | false => exact Or.inl ⟨rfl, rfl⟩
  | true =>
      rw [if_pos rfl]
      apply Or.inr
      by_cases unavailable : res.status = 503
      · rw [if_pos unavailable]
        cases found : res.headers (text "color-recover") with
        | none =>
            have absent : ¬ (res.status = 503 ∧ (none : Option (List UInt8)).isSome) := fun signal => Bool.noConfusion signal.2
            exact Or.inr ⟨rfl, absent, _, rfl⟩
        | some value => exact Or.inl ⟨rfl, ⟨unavailable, rfl⟩, _, rfl⟩
      · rw [if_neg unavailable]
        exact Or.inr ⟨rfl, (fun signal => unavailable signal.1), _, rfl⟩

theorem replay_genuine (s : Sender) (res : HttpResult) (away : s.posting ≠ some .request) : s.Genuine res := by
  have unanswered : s.answer res = none := by
    rw [Sender.answer]
    split
    · rename_i posting
      exact absurd posting away
    · rfl
  refine ⟨fun resp given => ?_, fun _ => ?_, fun posting => absurd posting away⟩
  · rw [unanswered] at given
    cases given
  · rw [Sender.see]
    split
    · rfl
    · split <;> rfl
    · rename_i posting
      exact absurd posting away

theorem genuine_iff (s : Sender) (res : HttpResult) : s.Genuine res ↔ s.Expects res := by
  by_cases posting : s.posting = some .request
  · have own : s.post = some (headerLines s.req, s.req.payload) := by
      rw [Sender.post, posting]
      rfl
    rcases send_receive_cases s.req res with ⟨lost, shape⟩ | ⟨delivered, signal, fromIndex, shape⟩ |
      ⟨delivered, plain, resp, shape⟩
    · have unanswered : s.answer res = none := by
        rw [Sender.answer, posting]
        simp only [shape]
      have same : s.see res = s := by
        rw [Sender.see, posting]
        simp only [shape]
      apply iff_of_true
      · refine ⟨fun resp given => ?_, fun _ => by rw [same], fun _ _ => Or.inl (by rw [same])⟩
        rw [unanswered] at given
        cases given
      · intro _ delivered
        rw [lost] at delivered
        cases delivered
    · have unanswered : s.answer res = none := by
        rw [Sender.answer, posting]
        simp only [shape]
      have next : s.see res = { s with posting := some (.replay fromIndex (s.client.buildReplay fromIndex)) } := by
        rw [Sender.see, posting]
        simp only [shape]
      apply iff_of_true
      · refine ⟨fun resp given => ?_, fun _ => by rw [next], fun _ _ => Or.inr ⟨⟨fromIndex, _, by rw [next]⟩, ?_⟩⟩
        · rw [unanswered] at given
          cases given
        · intro waits acked unacked ok
          rw [next, own]
          exact replay_resumes _ fromIndex _ rfl waits acked unacked ok
      · exact fun _ _ => Or.inr signal
    · have answered : s.answer res = some resp := by
        rw [Sender.answer, posting]
        simp only [shape]
      constructor
      · exact fun genuine _ _ => Or.inl (genuine.answers resp answered).2
      · intro expects
        have ok : res.Ok := ⟨delivered, (expects posting delivered).resolve_right plain⟩
        exact ⟨fun _ _ => ok, fun other => absurd ok other, fun _ other => absurd ok other⟩
  · exact iff_of_true (replay_genuine s res posting) (fun here => absurd here posting)

-- Over whole calls of send, whatever the transport hands back and whatever
-- other threads do in between.
theorem only_genuine_answers_iff (client : Client) (payload : Payload) (events : List SendEvent) :
    (∀ before res after, events = before ++ .result res :: after →
        ((Sender.start client payload).run before).Genuine res) ↔
      ∀ before res after, events = before ++ .result res :: after →
        ((Sender.start client payload).run before).Expects res := by
  constructor
  · exact fun genuine before res after shape => (genuine_iff _ res).mp (genuine before res after shape)
  · exact fun expects before res after shape => (genuine_iff _ res).mpr (expects before res after shape)

-- The page a server or a proxy sends along with an internal error.
def errorPage : HttpResult := { delivered := true, status := 500, body := [69] }

-- It is taken for the answer, and the next request acknowledges it.
theorem error_page_answers :
    ¬ ∀ (client : Client) (payload : Payload) (events before : List SendEvent) (res : HttpResult) (after : List SendEvent),
      events = before ++ .result res :: after → ((Sender.start client payload).run before).Genuine res := by
  intro genuine
  have silent := (genuine (Client.fresh false) [97] [.result errorPage] [] errorPage [] rfl).silent (by decide)
  have acknowledged : (((Sender.start (Client.fresh false) [97]).see errorPage).client.generateRequest []).1.ackNew = [1] := by
    decide +kernel
  change ((Sender.start (Client.fresh false) [97]).see errorPage).client = _ at silent
  rw [silent] at acknowledged
  revert acknowledged
  decide +kernel

end Color
