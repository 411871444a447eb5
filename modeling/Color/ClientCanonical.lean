import Color.ReplayFit

set_option autoImplicit false

namespace Color

-- ---- what a schedule of client calls shows, apart from the client ----

def responsesOf (actions : List ClientAction) : List Response :=
  actions.filterMap (fun action => match action with
    | .generate _ => none
    | .respond resp => some resp)

-- The first response for each id; later ones are duplicates.
def keepFirst (firsts : List Response) (resp : Response) : List Response :=
  if resp.seq ∈ firsts.map Response.seq then firsts else firsts ++ [resp]

def firstResponses (actions : List ClientAction) : List Response := (responsesOf actions).foldl keepFirst []

def firstReceipts (actions : List ClientAction) : List Nat :=
  ((firstResponses actions).filter (fun resp => !resp.noOp)).map Response.seq

-- Responses name already issued ids, given how many were issued before.
def NamesIssued : Nat → List ClientAction → Prop
  | _, [] => True
  | issued, .generate _ :: rest => NamesIssued (issued + 1) rest
  | issued, .respond resp :: rest => (1 ≤ resp.seq ∧ resp.seq ≤ issued) ∧ NamesIssued issued rest

def Client.requests : List ClientAction → Client → List Request
  | [], _ => []
  | .generate p :: rest, c => (c.generateRequest p).1 :: Client.requests rest (c.generateRequest p).2
  | .respond resp :: rest, c => Client.requests rest (c.onResponse resp).2

theorem run_concat (c : Client) (actions : List ClientAction) (action : ClientAction) :
    c.run (actions ++ [action]) = (c.run actions).act action := by
  rw [Client.run, List.foldl_append]
  rfl

theorem requests_concat (c : Client) (actions : List ClientAction) (action : ClientAction) :
    c.requests (actions ++ [action]) = c.requests actions ++ (c.run actions).requests [action] := by
  induction actions generalizing c with
  | nil => rfl
  | cons first rest ih =>
      cases first with
      | generate p => exact congrArg _ (ih (c.generateRequest p).2)
      | respond resp => exact ih (c.onResponse resp).2

theorem first_responses_generate (actions : List ClientAction) (p : Payload) :
    firstResponses (actions ++ [.generate p]) = firstResponses actions := by
  simp [firstResponses, responsesOf, List.filterMap_append]

theorem first_responses_respond (actions : List ClientAction) (resp : Response) :
    firstResponses (actions ++ [.respond resp]) = keepFirst (firstResponses actions) resp := by
  simp [firstResponses, responsesOf, List.filterMap_append, List.foldl_append]

theorem responses_generate (actions : List ClientAction) (p : Payload) :
    responsesOf (actions ++ [.generate p]) = responsesOf actions := by
  simp [responsesOf, List.filterMap_append]

theorem responses_respond (actions : List ClientAction) (resp : Response) :
    responsesOf (actions ++ [.respond resp]) = responsesOf actions ++ [resp] := by
  simp [responsesOf, List.filterMap_append]

theorem names_issued_concat (issued : Nat) (actions : List ClientAction) (action : ClientAction) (c : Client)
    (names : NamesIssued issued (actions ++ [action])) :
    NamesIssued issued actions ∧ NamesIssued (issued + (c.requests actions).length) [action] := by
  induction actions generalizing issued c with
  | nil => exact ⟨trivial, names⟩
  | cons first rest ih =>
      cases first with
      | generate p =>
          obtain ⟨before, last⟩ := ih (issued + 1) (c.generateRequest p).2 names
          have shift : issued + 1 + (Client.requests rest (c.generateRequest p).2).length =
              issued + (c.requests (.generate p :: rest)).length := by
            simp only [Client.requests, List.length_cons]
            omega
          exact ⟨before, shift ▸ last⟩
      | respond resp =>
          obtain ⟨before, last⟩ := ih issued (c.onResponse resp).2 names.2
          exact ⟨⟨names.1, before⟩, last⟩

-- ---- the client's state after a schedule ----

structure ClientRan (start : Client) (actions : List ClientAction) : Prop where
  inv : ClientInv (start.requests actions) (start.run actions)
  issued : ClientIssued (start.requests actions) (start.run actions)
  firsts : ∀ i, i ∈ (start.run actions).received ↔ i ∈ (firstResponses actions).map Response.seq
  heard : ∀ i, i ∈ (start.run actions).received ↔ ∃ resp ∈ responsesOf actions, resp.seq = i
  receipts : (start.requests actions).flatMap Request.ackNew ++ (start.run actions).pendingNew = firstReceipts actions
  bases : ((start.requests actions).map Request.ackBase ++ [(start.run actions).base]).Pairwise (· ≤ ·)
  frozen : ∀ r ∈ start.requests actions, ∃ before p after, actions = before ++ .generate p :: after ∧
    r = ((start.run before).generateRequest p).1 ∧
    ∀ i, 1 ≤ i → i < r.ackBase → ∃ resp ∈ responsesOf before, resp.seq = i

theorem client_ran_generate (start : Client) (actions : List ClientAction) (p : Payload)
    (ran : ClientRan start actions) : ClientRan start (actions ++ [.generate p]) := by
  have state : start.run (actions ++ [.generate p]) = ((start.run actions).generateRequest p).2 := run_concat _ _ _
  have reqs : start.requests (actions ++ [.generate p]) =
      start.requests actions ++ [((start.run actions).generateRequest p).1] := requests_concat _ _ _
  constructor
  case inv =>
    rw [state, reqs]
    exact generate_request_inv _ _ p ran.inv
  case issued =>
    rw [state, reqs]
    exact generate_request_issued _ _ p ran.inv ran.issued
  case firsts =>
    rw [state, first_responses_generate]
    exact ran.firsts
  case heard =>
    rw [state, responses_generate]
    exact ran.heard
  case receipts =>
    rw [state, reqs, generate_request_listed, firstReceipts, first_responses_generate]
    exact ran.receipts
  case bases =>
    rw [state, reqs, List.map_append, List.pairwise_append]
    refine ⟨ran.bases, List.pairwise_singleton _ _, ?_⟩
    intro a earlier b last
    have here : b = (start.run actions).base := List.mem_singleton.mp last
    cases List.mem_append.mp earlier with
    | inl old => exact here ▸ (List.pairwise_append.mp ran.bases).2.2 a old _ (List.mem_singleton_self _)
    | inr new => exact Nat.le_of_eq ((List.mem_singleton.mp new).trans here.symm)
  case frozen =>
    intro r member
    rw [reqs] at member
    cases List.mem_append.mp member with
    | inl old =>
        obtain ⟨before, q, after, split, made, known⟩ := ran.frozen r old
        exact ⟨before, q, after ++ [.generate p], by rw [split]; simp, made, known⟩
    | inr new =>
        have made : r = ((start.run actions).generateRequest p).1 := List.mem_singleton.mp new
        refine ⟨actions, p, [], rfl, made, fun i low high => (ran.heard i).mp ?_⟩
        rw [made] at high
        exact ran.inv.baseKnown i low high

theorem client_ran_respond (start : Client) (actions : List ClientAction) (resp : Response)
    (ran : ClientRan start actions) (names : 1 ≤ resp.seq ∧ resp.seq ≤ (start.requests actions).length) :
    ClientRan start (actions ++ [.respond resp]) := by
  have state : start.run (actions ++ [.respond resp]) = ((start.run actions).onResponse resp).2 := run_concat _ _ _
  have reqs : start.requests (actions ++ [.respond resp]) = start.requests actions := by
    rw [requests_concat]
    exact List.append_nil _
  constructor
  case inv =>
    rw [state, reqs]
    exact on_response_inv _ _ resp ran.inv
  case issued =>
    rw [state, reqs]
    exact on_response_issued _ _ resp ran.issued names
  case firsts =>
    intro i
    rw [state, on_response_received, first_responses_respond, Finset.mem_insert, ran.firsts, keepFirst]
    split
    · rename_i seen
      constructor
      · intro either
        cases either with
        | inl here => exact here ▸ seen
        | inr old => exact old
      · exact Or.inr
    · rw [List.map_append, List.mem_append, or_comm]
      simp
  case heard =>
    intro i
    rw [state, on_response_received, responses_respond, Finset.mem_insert, ran.heard, or_comm]
    simp [List.mem_append, or_and_right, exists_or, eq_comm]
  case receipts =>
    rw [state, reqs, firstReceipts, first_responses_respond, keepFirst]
    by_cases duplicate : resp.seq ∈ (start.run actions).received
    · rw [on_response_duplicate _ _ duplicate, if_pos ((ran.firsts _).mp duplicate)]
      exact ran.receipts
    · have pending : ((start.run actions).onResponse resp).2.pendingNew =
          if resp.noOp then (start.run actions).pendingNew else (start.run actions).pendingNew ++ [resp.seq] := by
        rw [Client.onResponse, if_neg duplicate]
      have receipts := ran.receipts
      rw [firstReceipts] at receipts
      rw [pending, if_neg (fun seen => duplicate ((ran.firsts _).mpr seen)), List.filter_append, List.map_append, ← receipts]
      cases acknowledged : resp.noOp with
      | true => simp [acknowledged]
      | false => simp [acknowledged]
  case bases =>
    rw [state, reqs, List.pairwise_append]
    obtain ⟨earlier, _, below⟩ := List.pairwise_append.mp ran.bases
    refine ⟨earlier, List.pairwise_singleton _ _, ?_⟩
    intro a member b last
    have grows : (start.run actions).base ≤ ((start.run actions).onResponse resp).2.base := by
      rw [Client.onResponse]
      split
      · exact Nat.le_refl _
      · exact (advance_base_passed _ _).1
    rw [List.mem_singleton.mp last]
    exact Nat.le_trans (below a member _ (List.mem_singleton_self _)) grows
  case frozen =>
    intro r member
    rw [reqs] at member
    obtain ⟨before, q, after, split, made, known⟩ := ran.frozen r member
    exact ⟨before, q, after ++ [.respond resp], by rw [split]; simp, made, known⟩

theorem client_ran (setHash : Bool) (actions : List ClientAction) (names : NamesIssued 0 actions) :
    ClientRan (Client.fresh setHash) actions := by
  induction actions using List.reverseRecOn with
  | nil =>
      refine ⟨client_fresh setHash, client_fresh_issued setHash, ?_, ?_, rfl, List.pairwise_singleton _ _, ?_⟩ <;>
        simp [Client.run, Client.fresh, firstResponses, responsesOf, Client.requests]
  | append_singleton actions action ih =>
      obtain ⟨before, last⟩ := names_issued_concat 0 actions action (Client.fresh setHash) names
      cases action with
      | generate p => exact client_ran_generate _ actions p (ih before)
      | respond resp => exact client_ran_respond _ actions resp (ih before) (by simpa [NamesIssued] using last)

-- ---- where the events stand ----

theorem canonical_response_after (reqs : List Request) (numbered : Numbered reqs)
    (below : ∀ r ∈ reqs, ∀ i ∈ r.ackNew, 1 ≤ i ∧ i < r.seq) (i : Nat) (before after : List Event)
    (split : canonical reqs = before ++ .response i :: after) : .request i ∈ before := by
  induction reqs using List.reverseRecOn generalizing before after with
  | nil => simp [canonical] at split
  | append_singleton earlier r ih =>
      have numberedEarlier : Numbered earlier := by
        have taken := numbered_take (earlier ++ [r]) earlier.length numbered
        simpa using taken
      -- The last request lists only ids below its own, all of them requested earlier.
      have requested : i ∈ r.ackNew → .request i ∈ canonical earlier := by
        intro listed
        have bounds := below r (by simp) i listed
        have last : r.seq = earlier.length + 1 := numbered earlier.length r (by simp)
        exact (request_mem_canonical _ _).mpr (numbered_exists earlier i numberedEarlier bounds.1 (by omega))
      have own : Event.response i ∈ commitEvents r.ackNew r.seq → i ∈ r.ackNew := by
        intro member
        simpa [commitEvents] using member
      rw [canonical_concat, List.append_eq_append_iff] at split
      cases split with
      | inl inside =>
          obtain ⟨prior, whole, rest⟩ := inside
          rw [whole]
          exact List.mem_append_left _ (requested (own (rest ▸ by simp)))
      | inr outside =>
          obtain ⟨later, whole, rest⟩ := outside
          cases later with
          | nil =>
              rw [List.append_nil] at whole
              rw [← whole]
              exact requested (own (by rw [← List.nil_append (commitEvents _ _), ← rest]; simp))
          | cons e later =>
              injection rest with head tail
              subst head
              exact ih numberedEarlier (fun q member => below q (List.mem_append_left _ member)) before later whole

theorem run_seqs (reqs : List Request) (numbered : Numbered reqs) : reqs.map Request.seq = List.range' 1 reqs.length := by
  apply List.ext_getElem
  · simp
  · intro i inside bound
    rw [List.length_map] at inside
    simp [numbered i _ (List.getElem?_eq_getElem inside), Nat.add_comm]

-- Any calls in any order, with duplicates and no-op replies, as long as
-- responses name issued ids.
theorem client_history_canonical (setHash : Bool) (actions : List ClientAction) (names : NamesIssued 0 actions) :
    let c := (Client.fresh setHash).run actions
    let reqs := (Client.fresh setHash).requests actions
    (reqs.flatMap Request.ackNew ++ c.pendingNew = firstReceipts actions ∧ (firstReceipts actions).Nodup) ∧
    (reqs.map Request.seq = List.range' 1 (c.nextSeq - 1) ∧ c.history.events = canonical reqs ∧ c.history.baseCount = 0) ∧
    (∀ i, c.history.events.count (.response i) ≤ 1 ∧
      ∀ before after, c.history.events = before ++ .response i :: after → .request i ∈ before) ∧
    ((1 ≤ c.base ∧ ∀ resp ∈ responsesOf actions, resp.seq ≠ c.base) ∧
      ∀ i, 1 ≤ i → i < c.base → ∃ resp ∈ responsesOf actions, resp.seq = i) ∧
    ((reqs.map Request.ackBase).Pairwise (· ≤ ·) ∧
      ∀ r ∈ reqs, ∃ before p after, actions = before ++ .generate p :: after ∧
        r = (((Client.fresh setHash).run before).generateRequest p).1 ∧
        ∀ i, 1 ≤ i → i < r.ackBase → ∃ resp ∈ responsesOf before, resp.seq = i) ∧
    (c.outstanding.Nodup ∧ ∀ i, i ∈ c.outstanding ↔
      (1 ≤ i ∧ i < c.nextSeq) ∧ ∀ resp ∈ responsesOf actions, resp.seq ≠ i) := by
  intro c reqs
  have ran : ClientRan (Client.fresh setHash) actions := client_ran setHash actions names
  have next : c.nextSeq = reqs.length + 1 := ran.inv.next
  have unheard : ∀ i, i ∉ c.received ↔ ∀ resp ∈ responsesOf actions, resp.seq ≠ i := by
    intro i
    rw [ran.heard]
    simp only [not_exists, not_and, ne_eq]
  have nodup : (firstReceipts actions).Nodup := by
    rw [← ran.receipts]
    exact ran.inv.acked
  have below : ∀ r ∈ reqs, ∀ i ∈ r.ackNew, 1 ≤ i ∧ i < r.seq := by
    intro r member i listed
    exact ⟨ran.issued.positive r member i listed, ran.issued.below r member i (Or.inr listed)⟩
  have events : c.history.events = canonical reqs := ran.inv.events
  refine ⟨⟨ran.receipts, nodup⟩, ⟨?seqs, events, ran.inv.whole⟩, ?order, ⟨⟨ran.inv.basePositive, ?least⟩, ?known⟩,
    ⟨(List.pairwise_append.mp ran.bases).1, ran.frozen⟩, ?keys, ?outstanding⟩
  case seqs =>
    rw [next, Nat.add_sub_cancel]
    exact run_seqs reqs ran.inv.numbered
  case order =>
    intro i
    rw [events]
    have once := canonical_nodup reqs ran.inv.numbered (List.nodup_append.mp ran.inv.acked).1
    exact ⟨List.nodup_iff_count_le_one.mp once _, canonical_response_after reqs ran.inv.numbered below i⟩
  case least => exact (unheard _).mp ran.inv.baseUnknown
  case known =>
    intro i low high
    exact (ran.heard i).mp (ran.inv.baseKnown i low high)
  case keys => exact Std.ExtTreeMap.nodup_keys
  case outstanding =>
    intro i
    rw [outstanding_iff reqs c i ran.issued, unheard]
    constructor
    · intro waiting
      obtain ⟨⟨r, member, seq⟩, missing⟩ := waiting
      have bounds := numbered_seq_index reqs r ran.inv.numbered member
      exact ⟨by omega, missing⟩
    · intro waiting
      exact ⟨numbered_exists reqs i ran.inv.numbered waiting.1.1 (by omega), waiting.2⟩

-- Two requests, the second answered twice, the first by a no-op, then two more.
def duplicateActions : List ClientAction :=
  [.generate [], .generate [], .respond { seq := 2 }, .respond { seq := 2 }, .generate [],
    .respond { seq := 1, noOp := true }, .generate []]

theorem client_history_canonical_duplicates :
    firstReceipts duplicateActions = [2] ∧
    let c := (Client.fresh false).run duplicateActions
    let reqs := (Client.fresh false).requests duplicateActions
    (reqs.flatMap Request.ackNew ++ c.pendingNew = firstReceipts duplicateActions ∧ (firstReceipts duplicateActions).Nodup) ∧
    (reqs.map Request.seq = List.range' 1 (c.nextSeq - 1) ∧ c.history.events = canonical reqs ∧ c.history.baseCount = 0) ∧
    (∀ i : Nat, c.history.events.count (.response i) ≤ 1 ∧
      ∀ before after, c.history.events = before ++ .response i :: after → .request i ∈ before) ∧
    ((1 ≤ c.base ∧ ∀ resp ∈ responsesOf duplicateActions, resp.seq ≠ c.base) ∧
      ∀ i, 1 ≤ i → i < c.base → ∃ resp ∈ responsesOf duplicateActions, resp.seq = i) ∧
    ((reqs.map Request.ackBase).Pairwise (· ≤ ·) ∧
      ∀ r ∈ reqs, ∃ before p after, duplicateActions = before ++ .generate p :: after ∧
        r = (((Client.fresh false).run before).generateRequest p).1 ∧
        ∀ i, 1 ≤ i → i < r.ackBase → ∃ resp ∈ responsesOf before, resp.seq = i) ∧
    (c.outstanding.Nodup ∧ ∀ i : Nat, i ∈ c.outstanding ↔
      (1 ≤ i ∧ i < c.nextSeq) ∧ ∀ resp ∈ responsesOf duplicateActions, resp.seq ≠ i) :=
  ⟨by decide +kernel, client_history_canonical false duplicateActions (by simp [NamesIssued, duplicateActions])⟩

end Color
