import Color.Headers

set_option autoImplicit false

namespace Color

-- ---- a carrier that keeps every promise ----

-- One header line for each field, nothing folded and nothing added: what is relied on
-- between the client and the server can be had for everything they send.
def requestFields (r : Request) : List (List UInt8 × List UInt8) :=
  [(text "Color-Seq", decimal r.seq), (text "Color-Ack-Base", decimal r.ackBase),
    (text "Color-Ack-New", joined (r.ackNew.map decimal))] ++
  (match r.hash with
    | some h => [(text "Color-Hash", decimal h.toNat)]
    | none => []) ++
  [(text "Content-Type", text "application/json")]

theorem request_fields_lines (r : Request) :
    headerLines r = (requestFields r).map (fun field => headerLine field.1 field.2) := by
  cases hash : r.hash <;> simp [headerLines, requestFields, headerLine, text, hash]

theorem plain_request_carried (r : Request) :
    DeliversRequest (headerLines r) r.payload (plainRequest (headerLines r) r.payload) := by
  have names : (requestFields r).map Prod.fst = if r.hash.isSome then
      [text "Color-Seq", text "Color-Ack-Base", text "Color-Ack-New", text "Color-Hash", text "Content-Type"]
      else [text "Color-Seq", text "Color-Ack-Base", text "Color-Ack-New", text "Content-Type"] := by
    cases hash : r.hash <;> simp [requestFields, hash]
  have colonless : ∀ name ∈ [text "Color-Seq", text "Color-Ack-Base", text "Color-Ack-New", text "Color-Hash",
      text "Content-Type"], ch ':' ∉ name := by decide +kernel
  rw [request_fields_lines]
  apply plain_request_delivers
  · intro field member
    have named := List.mem_map_of_mem (f := Prod.fst) member
    apply colonless
    rw [names] at named
    split at named
    · exact named
    · simp only [List.mem_cons, List.not_mem_nil, or_false] at named ⊢
      rcases named with one | two | three | four <;> simp [*]
  · rw [names]
    split <;> decide +kernel

theorem plain_replay_carried (fromIndex : Nat) (body : List UInt8) :
    DeliversRequest (recoverLines fromIndex) body (plainRequest (recoverLines fromIndex) body) := by
  have lines : recoverLines fromIndex =
      [(text "Color-Replay", decimal fromIndex), (text "Content-Type", text "application/json")].map
        (fun field => headerLine field.1 field.2) := by
    simp [recoverLines, headerLine, text]
  have colonless : ch ':' ∉ text "Color-Replay" ∧ ch ':' ∉ text "Content-Type" := by decide +kernel
  rw [lines]
  apply plain_request_delivers
  · intro field member
    rcases List.mem_cons.mp member with rfl | last
    · exact colonless.1
    · rw [List.mem_singleton.mp last]
      exact colonless.2
  · change [text "Color-Replay", text "Content-Type"].Nodup
    decide +kernel

def replyNames : List (List UInt8) :=
  [text "Content-Type", text "Color-No-Op", text "Color-Hash", text "Color-Seq", text "Color-Recover"]

def plainFields (reply : ServerReply) : List (List UInt8 × List UInt8) :=
  replyNames.filterMap fun name => (reply.headers name).map fun value => (name, value)

def plainLines (reply : ServerReply) : List (List UInt8) :=
  (plainFields reply).map fun field => headerLine field.1 field.2 ++ [13, 10]

theorem mem_plain_fields (reply : ServerReply) (name value : List UInt8) :
    (name, value) ∈ plainFields reply ↔ name ∈ replyNames ∧ reply.headers name = some value := by
  rw [plainFields, List.mem_filterMap]
  constructor
  · rintro ⟨other, listed, same⟩
    obtain ⟨given, found, pair⟩ := Option.map_eq_some_iff.mp same
    cases pair
    exact ⟨listed, found⟩
  · rintro ⟨listed, found⟩
    exact ⟨name, listed, by rw [found]; rfl⟩

def ServerReply.Named (reply : ServerReply) : Prop := ∀ name value, reply.headers name = some value → name ∈ replyNames

theorem plain_reply_carried (reply : ServerReply) (named : reply.Named) : DeliversReply reply (plainLines reply) := by
  have colonless : ∀ name ∈ replyNames, ch ':' ∉ name := by decide +kernel
  have apart : ∀ given ∈ replyNames, ∀ name ∈ colorNames, trim (given.map toLower) = name.map toLower → given = name := by
    decide +kernel
  apply plain_reply_delivers
  · intro name value
    rw [mem_plain_fields]
    exact ⟨fun given => ⟨named name value given, given⟩, fun both => both.2⟩
  · exact fun field member => colonless field.1 ((mem_plain_fields reply field.1 field.2).mp member).1
  · exact fun field member => apart field.1 ((mem_plain_fields reply field.1 field.2).mp member).1

theorem set_named (headers : HeaderMap) (name value : List UInt8) (listed : name ∈ replyNames)
    (before : ∀ other given, headers other = some given → other ∈ replyNames) (other given : List UInt8)
    (found : headers.set name value other = some given) : other ∈ replyNames := by
  rcases (set_some_iff headers name value other given).mp found with same | ⟨_, old⟩
  · cases same
    exact listed
  · exact before other given old

theorem complete_named (setHash : Bool) (resp : Response) : (complete setHash resp).Named := by
  have listed : text "Color-Seq" ∈ replyNames ∧ text "Color-Hash" ∈ replyNames ∧ text "Color-No-Op" ∈ replyNames ∧
      text "Content-Type" ∈ replyNames := by simp [replyNames]
  have seq := set_named (fun _ => none) _ (decimal resp.seq) listed.1 (fun _ _ absent => by cases absent)
  rw [ServerReply.Named, complete]
  apply set_named _ _ _ listed.2.2.2
  cases (if setHash then resp.hash else none) with
  | none =>
      cases resp.noOp with
      | false => exact seq
      | true => exact set_named _ _ _ listed.2.2.1 seq
  | some h =>
      have hash := set_named _ _ (decimal h.toNat) listed.2.1 seq
      cases resp.noOp with
      | false => exact hash
      | true => exact set_named _ _ _ listed.2.2.1 hash

theorem signal_named (resp : Response) : (signalRecovery resp).Named :=
  set_named _ _ _ (by simp [replyNames]) (fun _ _ absent => by cases absent)

end Color
