import Color.DeploymentRefines

set_option autoImplicit false

namespace Color

-- ---- what the calls of send have got ----

-- A call has returned exactly if its response was heard, and was then given that one only;
-- deliver_ was called once for each of these, no-ops apart.
structure Answering (d : Deployment) : Prop where
  returned : ∀ (i : Nat) call, d.calls[i]? = some call → call.posting = none → ∃ resp, call.answers = [resp]
  waiting : ∀ (i : Nat) call, d.calls[i]? = some call → call.posting ≠ none → call.answers = []
  received : ∀ seq, seq ∈ d.client.received ↔ ∃ (i : Nat) (call : SendCall),
    d.calls[i]? = some call ∧ call.posting = none ∧ seq = i + 1
  delivered : ∀ seq p, (seq, p) ∈ d.delivered ↔ ∃ (i : Nat) (call : SendCall) (resp : Response),
    d.calls[i]? = some call ∧ resp ∈ call.answers ∧ resp.noOp = false ∧ seq = i + 1 ∧ p = resp.payload
  once : (d.delivered.map Prod.fst).Nodup

theorem answering_create (clientHash serverHash : Bool) (checkpointPath : Path) (checkpointEvery : Nat) :
    Answering (Deployment.create clientHash serverHash checkpointPath checkpointEvery) := by
  refine ⟨(fun _ _ none => by cases none), (fun _ _ none => by cases none), fun seq => ?_, fun seq p => ?_, List.nodup_nil⟩
  · exact iff_of_false (Finset.notMem_empty seq) (fun ⟨_, _, absent, _⟩ => by cases absent)
  · exact iff_of_false List.not_mem_nil (fun ⟨_, _, _, absent, _⟩ => by cases absent)

theorem answering_start (d : Deployment) (payload : Payload) (before : Answering d) : Answering (d.start payload) := by
  have pushed (j : Nat) (call : SendCall) (found : (d.start payload).calls[j]? = some call) :
      (call.posting = some .request ∧ call.answers = []) ∨ d.calls[j]? = some call := by
    rcases row_pushed d.calls _ call j found with ⟨_, rfl⟩ | old
    · exact Or.inl ⟨rfl, rfl⟩
    · exact Or.inr old
  refine ⟨fun i call found closed => ?_, fun i call found waiting => ?_, fun seq => ?_, fun seq p => ?_, before.once⟩
  · rcases pushed i call found with ⟨posted, _⟩ | old
    · rw [closed] at posted
      cases posted
    · exact before.returned i call old closed
  · rcases pushed i call found with ⟨_, fresh⟩ | old
    · exact fresh
    · exact before.waiting i call old waiting
  · refine (before.received seq).trans ⟨fun ⟨i, call, old, rest⟩ => ⟨i, call, row_kept d.calls _ i call old, rest⟩, ?_⟩
    rintro ⟨i, call, found, closed, rfl⟩
    rcases pushed i call found with ⟨posted, _⟩ | old
    · rw [closed] at posted
      cases posted
    · exact ⟨i, call, old, closed, rfl⟩
  · refine (before.delivered seq p).trans
      ⟨fun ⟨i, call, resp, old, rest⟩ => ⟨i, call, resp, row_kept d.calls _ i call old, rest⟩, ?_⟩
    rintro ⟨i, call, resp, found, heard, rest⟩
    rcases pushed i call found with ⟨_, fresh⟩ | old
    · rw [fresh] at heard
      cases heard
    · exact ⟨i, call, resp, old, heard, rest⟩

-- A call that goes on waiting, or one that has returned and stays so.
theorem answering_same (d d' : Deployment) (i : Nat) (call next : SendCall) (before : Answering d)
    (there : d.calls[i]? = some call) (calls : d'.calls = d.calls.set i next)
    (same : next.answers = call.answers ∧ (next.posting = none ↔ call.posting = none))
    (quiet : d'.client.received = d.client.received ∧ d'.delivered = d.delivered) : Answering d' := by
  obtain ⟨answers, posting⟩ := same
  have inside := (List.getElem?_eq_some_iff.mp there).1
  have seen (j : Nat) (other : SendCall) (found : d'.calls[j]? = some other) : ∃ old, d.calls[j]? = some old ∧
      other.answers = old.answers ∧ (other.posting = none ↔ old.posting = none) := by
    rw [calls] at found
    rcases row_set d.calls i j next other found with ⟨rfl, rfl⟩ | ⟨_, old⟩
    · exact ⟨call, there, answers, posting⟩
    · exact ⟨other, old, rfl, Iff.rfl⟩
  have kept (j : Nat) (old : SendCall) (found : d.calls[j]? = some old) : ∃ other, d'.calls[j]? = some other ∧
      other.answers = old.answers ∧ (other.posting = none ↔ old.posting = none) := by
    rw [calls]
    by_cases own : i = j
    · subst own
      rw [there] at found
      cases found
      exact ⟨next, List.getElem?_set_self inside, answers, posting⟩
    · exact ⟨old, (List.getElem?_set_ne own).trans found, rfl, Iff.rfl⟩
  refine ⟨fun j other found closed => ?_, fun j other found waiting => ?_, fun seq => ?_, fun seq p => ?_, ?_⟩
  · obtain ⟨old, was, same, kind⟩ := seen j other found
    rw [same]
    exact before.returned j old was (kind.mp closed)
  · obtain ⟨old, was, same, kind⟩ := seen j other found
    rw [same]
    exact before.waiting j old was fun closed => waiting (kind.mpr closed)
  · rw [quiet.1, before.received seq]
    constructor
    · rintro ⟨j, old, was, closed, rfl⟩
      obtain ⟨other, found, _, kind⟩ := kept j old was
      exact ⟨j, other, found, kind.mpr closed, rfl⟩
    · rintro ⟨j, other, found, closed, rfl⟩
      obtain ⟨old, was, _, kind⟩ := seen j other found
      exact ⟨j, old, was, kind.mp closed, rfl⟩
  · rw [quiet.2, before.delivered seq p]
    constructor
    · rintro ⟨j, old, resp, was, heard, rest⟩
      obtain ⟨other, found, same, _⟩ := kept j old was
      exact ⟨j, other, resp, found, same ▸ heard, rest⟩
    · rintro ⟨j, other, resp, found, heard, rest⟩
      obtain ⟨old, was, same, _⟩ := seen j other found
      exact ⟨j, old, resp, was, same ▸ heard, rest⟩
  · rw [quiet.2]
    exact before.once

theorem on_response_first_heard (c : Client) (resp : Response) (unknown : resp.seq ∉ c.received) :
    (c.onResponse resp).1.delivered = if resp.noOp then none else some (resp.seq, resp.payload) := by
  rw [Client.onResponse, if_neg unknown]

theorem answering_answered (d d' : Deployment) (i : Nat) (call next : SendCall) (resp : Response) (before : Answering d)
    (there : d.calls[i]? = some call) (calls : d'.calls = d.calls.set i next) (unanswered : call.posting ≠ none)
    (closed : next.posting = none ∧ next.answers = call.answers ++ [resp]) (own : resp.seq = i + 1)
    (client : d'.client.received = insert resp.seq d.client.received)
    (delivered : d'.delivered = d.delivered ++ ((d.client.onResponse resp).1.delivered).toList) : Answering d' := by
  have inside := (List.getElem?_eq_some_iff.mp there).1
  have fresh : call.answers = [] := before.waiting i call there unanswered
  have only : next.answers = [resp] := by
    rw [closed.2, fresh]
    rfl
  have unknown : resp.seq ∉ d.client.received := by
    intro member
    obtain ⟨j, other, found, done, same⟩ := (before.received resp.seq).mp member
    have here : j = i := by omega
    rw [here, there] at found
    cases found
    exact unanswered done
  have first := on_response_first_heard d.client resp unknown
  have earlier (p : Payload) (old : (resp.seq, p) ∈ d.delivered) : False := by
    obtain ⟨j, other, heard, found, among, _, same, _⟩ := (before.delivered resp.seq p).mp old
    have here : j = i := by omega
    rw [here, there] at found
    cases found
    rw [fresh] at among
    cases among
  have mine : d'.calls[i]? = some next := calls ▸ List.getElem?_set_self inside
  have others (j : Nat) (other : j ≠ i) : d'.calls[j]? = d.calls[j]? := by
    rw [calls, List.getElem?_set_ne (fun same => other same.symm)]
  refine ⟨fun j other found done => ?_, fun j other found waiting => ?_, fun seq => ?_, fun seq p => ?_, ?_⟩
  · by_cases here : j = i
    · subst here
      rw [mine] at found
      cases found
      exact ⟨resp, only⟩
    · exact before.returned j other (others j here ▸ found) done
  · by_cases here : j = i
    · subst here
      rw [mine] at found
      cases found
      exact absurd closed.1 waiting
    · exact before.waiting j other (others j here ▸ found) waiting
  · rw [client, Finset.mem_insert, before.received seq]
    constructor
    · rintro (rfl | ⟨j, other, found, done, same⟩)
      · exact ⟨i, next, mine, closed.1, own⟩
      · by_cases here : j = i
        · exact ⟨i, next, mine, closed.1, here ▸ same⟩
        · exact ⟨j, other, (others j here).trans found, done, same⟩
    · rintro ⟨j, other, found, done, same⟩
      by_cases here : j = i
      · exact Or.inl (same.trans (here ▸ own.symm))
      · exact Or.inr ⟨j, other, others j here ▸ found, done, same⟩
  · rw [delivered, first, List.mem_append, before.delivered seq p]
    constructor
    · rintro (⟨j, other, heard, found, among, rest⟩ | new)
      · have elsewhere : j ≠ i := by
          intro here
          rw [here, there] at found
          cases found
          rw [fresh] at among
          cases among
        exact ⟨j, other, heard, (others j elsewhere).trans found, among, rest⟩
      · cases kind : resp.noOp with
        | true =>
            rw [kind] at new
            cases new
        | false =>
            rw [kind] at new
            cases List.mem_singleton.mp new
            exact ⟨i, next, resp, mine, only ▸ List.mem_singleton.mpr rfl, kind, own, rfl⟩
    · rintro ⟨j, other, heard, found, among, plain, same, payload⟩
      by_cases here : j = i
      · rw [here, mine] at found
        cases found
        rw [only] at among
        cases List.mem_singleton.mp among
        apply Or.inr
        rw [plain, same, payload, here, ← own]
        exact List.mem_singleton.mpr rfl
      · exact Or.inl ⟨j, other, heard, others j here ▸ found, among, plain, same, payload⟩
  · rw [delivered, first, List.map_append]
    cases resp.noOp with
    | true => exact (List.append_nil _).symm ▸ before.once
    | false =>
        apply before.once.append (List.nodup_singleton _)
        intro seq old new
        have same : seq = resp.seq := List.mem_singleton.mp new
        obtain ⟨⟨_, p⟩, member, rfl⟩ := List.mem_map.mp old
        exact earlier p (same ▸ member)

theorem answering_frame (d d' : Deployment) (before : Answering d) (calls : d'.calls = d.calls)
    (client : d'.client = d.client) (delivered : d'.delivered = d.delivered) : Answering d' := by
  refine ⟨?_, ?_, ?_, ?_, ?_⟩
  · exact calls ▸ before.returned
  · exact calls ▸ before.waiting
  · exact calls ▸ client ▸ before.received
  · exact calls ▸ delivered ▸ before.delivered
  · exact delivered ▸ before.once

theorem turn_unheard (call : SendCall) (posting : Option Posting) :
    (call.turn posting none).answers = call.answers := List.append_nil _

theorem answering_unheard (d : Deployment) (i : Nat) (call : SendCall) (res : HttpResult)
    (posting : Option Posting) (before : Answering d) (there : d.calls[i]? = some call)
    (seen : (d.sender call).see res = ⟨d.client, call.req, posting⟩) (silent : (d.sender call).answer res = none)
    (kind : posting = none ↔ call.posting = none) : Answering (d.see i call res) := by
  apply answering_same d _ i call (call.turn posting none) before there
  · rw [Deployment.see, seen, silent]
  · exact ⟨turn_unheard call posting, kind⟩
  · rw [Deployment.see, seen, silent]
    exact ⟨rfl, List.append_nil _⟩

theorem answering_undelivered (d : Deployment) (i : Nat) (call : SendCall) (res : HttpResult)
    (before : Answering d) (there : d.calls[i]? = some call) (lost : res.delivered = false) :
    Answering (d.see i call res) := by
  obtain ⟨same, silent⟩ := see_undelivered (d.sender call) res lost
  exact answering_unheard d i call res call.posting before there same silent Iff.rfl

theorem answering_replied (d : Deployment) (s : Sys) (n : Nat) (conn : Connection) (call : SendCall) (reply : ServerReply)
    (lines : List (List UInt8)) (sys : SysInv s) (mirrors : Mirrors d s) (before : Answering d)
    (known : d.connections[n]? = some conn) (there : d.calls[conn.call]? = some call) (waiting : call.attempt = some n)
    (replied : conn.fate = .replied reply) (delivered : DeliversReply reply lines) :
    Answering (d.see conn.call call (received reply lines)) := by
  cases reply_turn d s n conn call reply lines mirrors known there waiting replied delivered with
  | answered resp sent plain own posted seen answer =>
      have seq : call.req.seq = conn.call + 1 := by
        apply sys.client.numbered conn.call call.req
        rw [mirrors.requests, List.getElem?_map, there]
        rfl
      have still : call.posting ≠ none := by
        rw [posted]
        exact Option.some_ne_none _
      rw [Deployment.see, seen, answer]
      exact answering_answered d _ conn.call call (call.turn none (some resp)) resp before there rfl still
        ⟨rfl, rfl⟩ (own.trans seq) (on_response_received d.client resp) rfl
  | refused resp sent signal posted seen answer =>
      apply answering_unheard d conn.call call _ _ before there seen answer
      rw [posted]
      exact iff_of_false (Option.some_ne_none _) (Option.some_ne_none _)
  | replayed fromIndex rp posting posted next seen answer =>
      apply answering_unheard d conn.call call _ _ before there seen answer
      rw [posted]
      exact iff_of_false (Option.some_ne_none _) (Option.some_ne_none _)

theorem answering_handle (d : Deployment) (n : Nat) (conn : Connection) (got : ServerRequest) (app : AppFn)
    (walk : Walk) (count : Nat) (before : Answering d) : Answering (d.handle n conn got app walk count) := by
  have performed := performed_all walk (d.handed n conn (d.interceptor.onRequest app n got).1
    (Deployment.reaction d.interceptor app got)) ((d.interceptor.onRequest app n got).2.take count)
  rw [handle_effects]
  exact answering_frame d _ before (congrArg Deployment.calls performed.rest :)
    (congrArg Deployment.client performed.rest :) (congrArg Deployment.delivered performed.rest :)

theorem answering_interrupt (d : Deployment) (walk : Walk) (bytes : Nat) (e : Option Effect) (before : Answering d) :
    Answering (d.interrupt walk bytes e) := by
  unfold Deployment.interrupt
  split
  · exact answering_frame d _ before rfl rfl rfl
  · exact before

theorem answering_step (clientHash serverHash : Bool) (d d' : Deployment) (a : DeployAction)
    (sim : d.Simulated clientHash serverHash) (before : Answering d) (orderly : d.Orderly a) (taken : d.step a = some d') :
    Answering d' := by
  cases a with
  | start payload =>
      cases taken
      exact answering_start d payload before
  | post i =>
      obtain ⟨call, posting, there, _, rfl⟩ := post_cases d d' i taken
      exact answering_same d _ i call { call with attempt := some d.connections.length } before there rfl ⟨rfl, Iff.rfl⟩
        ⟨rfl, rfl⟩
  | arrive n got app walk =>
      obtain ⟨conn, _, _, rfl⟩ := arrive_cases d d' n got app walk taken
      exact answering_handle d n conn got app walk _ before
  | receive n res =>
      obtain ⟨conn, call, known, there, waiting, fate, rfl⟩ := receive_cases d d' n res taken
      obtain ⟨s, reach, mirrors, _⟩ := sim
      have sys := stack_sys_inv _ _ s reach
      rcases fate with ⟨reply, replied⟩ | aborted
      · obtain ⟨lines, delivered, rfl⟩ := orderly conn reply known replied
        exact answering_replied d s n conn call reply lines sys mirrors before known there waiting replied delivered
      · exact absurd aborted (mirrors.waited conn.call call n conn there waiting known)
  | giveUp i =>
      obtain ⟨call, there, rfl⟩ := give_up_cases d d' i taken
      exact answering_undelivered d i call {} before there rfl
  | crash =>
      cases taken
      exact answering_frame d _ before rfl rfl rfl
  | fall n got app calls reports =>
      obtain ⟨conn, _, rfl⟩ := fall_cases d d' n got app calls reports taken
      have performed := performed_all .ascending (d.handed n conn d.interceptor
        ((Deployment.reaction d.interceptor app got).cut calls reports)) (Deployment.superseded d.interceptor got)
      exact answering_frame d _ before (congrArg Deployment.calls performed.rest :)
        (congrArg Deployment.client performed.rest :) (congrArg Deployment.delivered performed.rest :)
  | die n got app walk count bytes =>
      obtain ⟨conn, _, rfl⟩ := die_cases d d' n got app walk count bytes taken
      have handled := answering_handle d n conn got app walk count before
      exact answering_frame _ _ (answering_interrupt _ walk bytes _ handled) rfl rfl rfl

theorem deployed_answering (clientHash serverHash : Bool) (checkpointPath : Path) (checkpointEvery : Nat) (d : Deployment)
    (reach : DeployReach clientHash serverHash checkpointPath checkpointEvery d) : Answering d :=
  reach.invariant_with (Deployment.Simulated clientHash serverHash) Answering
    (deployed_simulated clientHash serverHash checkpointPath checkpointEvery)
    (answering_create clientHash serverHash checkpointPath checkpointEvery)
    (fun d a d' sim before orderly taken => answering_step clientHash serverHash d d' a sim before orderly taken)

-- A result that came back was made by an application call for the payload that was sent.
theorem answer_produced (d : Deployment) (s : Sys) (i : Nat) (call : SendCall) (resp : Response) (sys : SysInv s)
    (mirrors : Mirrors d s) (sourced : Sourced s) (there : d.calls[i]? = some call) (heard : resp ∈ call.answers)
    (plain : resp.noOp = false) :
    ∃ c ∈ d.invoked, c.seq = i + 1 ∧ c.payload = call.req.payload ∧ c.result = resp.payload := by
  obtain ⟨⟨normal, own⟩, inst, sent⟩ := mirrors.answers i call there resp heard
  obtain ⟨g, c, logged, seq, result⟩ := sourced.plain inst resp sent normal plain
  obtain ⟨r, issued, same, payload⟩ := sourced.calls g c logged
  have spot : s.requests[i]? = some call.req := by
    rw [mirrors.requests, List.getElem?_map, there]
    rfl
  have number : call.req.seq = i + 1 := sys.client.numbered i call.req spot
  have first : r = call.req := by
    apply numbered_seq_unique s.requests r call.req sys.client.numbered issued (List.mem_of_getElem? spot)
    omega
  refine ⟨c, ?_, by omega, ?_, result⟩
  · rw [← mirrors.invoked]
    exact List.mem_filterMap.mpr ⟨_, logged, rfl⟩
  · rw [← payload, first]

theorem send_gets_its_answer (clientHash serverHash : Bool) (checkpointPath : Path) (checkpointEvery : Nat) (d : Deployment)
    (reach : DeployReach clientHash serverHash checkpointPath checkpointEvery d) :
    (d.delivered.map Prod.fst).Nodup ∧
    (∀ seq p, (seq, p) ∈ d.delivered → ∃ (i : Nat) (call : SendCall), d.calls[i]? = some call ∧ seq = i + 1) ∧
    ∀ (i : Nat) call, d.calls[i]? = some call → (call.posting = none ↔ i + 1 ∈ d.client.received) ∧
      (call.posting ≠ none → call.answers = [] ∧ ∀ p, (i + 1, p) ∉ d.delivered) ∧
      (call.posting = none → ∃ resp, call.answers = [resp] ∧ resp.seq = i + 1 ∧ resp.recover = false ∧
        (∀ p, (i + 1, p) ∈ d.delivered ↔ resp.noOp = false ∧ p = resp.payload) ∧
        (resp.noOp = false →
          ∃ c ∈ d.invoked, c.seq = i + 1 ∧ c.payload = call.req.payload ∧ c.result = resp.payload)) := by
  have answering := deployed_answering clientHash serverHash checkpointPath checkpointEvery d reach
  obtain ⟨s, run, mirrors, _⟩ := deployed_simulated clientHash serverHash checkpointPath checkpointEvery d reach
  have sys := stack_sys_inv _ _ s run
  have sourced := stack_sourced _ _ s run
  -- A row of delivered belongs to the call with its number.
  have mine (i : Nat) (call : SendCall) (there : d.calls[i]? = some call) (p : Payload) :
      (i + 1, p) ∈ d.delivered ↔ ∃ resp ∈ call.answers, resp.noOp = false ∧ p = resp.payload := by
    rw [answering.delivered]
    constructor
    · rintro ⟨j, other, resp, found, heard, plain, same, payload⟩
      obtain rfl : i = j := by omega
      rw [there] at found
      cases found
      exact ⟨resp, heard, plain, payload⟩
    · rintro ⟨resp, heard, plain, payload⟩
      exact ⟨i, call, resp, there, heard, plain, rfl, payload⟩
  refine ⟨answering.once, fun seq p handed => ?_, fun i call there => ⟨?_, fun waiting => ?_, fun closed => ?_⟩⟩
  · obtain ⟨i, call, _, there, _, _, same, _⟩ := (answering.delivered seq p).mp handed
    exact ⟨i, call, there, same⟩
  · rw [answering.received]
    refine ⟨fun closed => ⟨i, call, there, closed, rfl⟩, ?_⟩
    rintro ⟨j, other, found, closed, same⟩
    obtain rfl : i = j := by omega
    rw [there] at found
    cases found
    exact closed
  · have fresh := answering.waiting i call there waiting
    refine ⟨fresh, fun p handed => ?_⟩
    obtain ⟨resp, heard, _⟩ := (mine i call there p).mp handed
    rw [fresh] at heard
    cases heard
  · obtain ⟨resp, only⟩ := answering.returned i call there closed
    have heard : resp ∈ call.answers := only ▸ List.mem_singleton.mpr rfl
    obtain ⟨⟨normal, own⟩, _⟩ := mirrors.answers i call there resp heard
    have number : call.req.seq = i + 1 := by
      apply sys.client.numbered i call.req
      rw [mirrors.requests, List.getElem?_map, there]
      rfl
    refine ⟨resp, only, own.trans number, normal, fun p => ?_,
      answer_produced d s i call resp sys mirrors sourced there heard⟩
    rw [mine i call there p, only]
    constructor
    · rintro ⟨other, member, facts⟩
      rw [List.mem_singleton.mp member] at facts
      exact facts
    · exact fun facts => ⟨resp, List.mem_singleton.mpr rfl, facts⟩

theorem send_gets_its_answer_failover :
    (failoverDeployment.invoked.map Call.seq = [1, 2, 2] ∧ failoverDeployment.calls.all fun call => call.posting.isNone) ∧
    (failoverDeployment.delivered.map Prod.fst).Nodup ∧
    (∀ seq p, (seq, p) ∈ failoverDeployment.delivered →
      ∃ (i : Nat) (call : SendCall), failoverDeployment.calls[i]? = some call ∧ seq = i + 1) ∧
    ∀ (i : Nat) call, failoverDeployment.calls[i]? = some call →
      (call.posting = none ↔ i + 1 ∈ failoverDeployment.client.received) ∧
      (call.posting ≠ none → call.answers = [] ∧ ∀ p, (i + 1, p) ∉ failoverDeployment.delivered) ∧
      (call.posting = none → ∃ resp, call.answers = [resp] ∧ resp.seq = i + 1 ∧ resp.recover = false ∧
        (∀ p, (i + 1, p) ∈ failoverDeployment.delivered ↔ resp.noOp = false ∧ p = resp.payload) ∧
        (resp.noOp = false → ∃ c ∈ failoverDeployment.invoked,
          c.seq = i + 1 ∧ c.payload = call.req.payload ∧ c.result = resp.payload)) :=
  ⟨by decide +kernel, send_gets_its_answer false true (text "cp") 1 failoverDeployment failover_reach⟩

end Color
