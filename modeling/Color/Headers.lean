import Mathlib.Data.List.TakeWhile
import Color.FailoverJson

set_option autoImplicit false

namespace Color

-- ---- the client side of the HTTP binding ----

abbrev HeaderMap := List UInt8 → Option (List UInt8)

def HeaderMap.set (headers : HeaderMap) (name value : List UInt8) : HeaderMap :=
  fun other => if other = name then some value else headers other

def headerLines (r : Request) : List (List UInt8) :=
  [text "Color-Seq: " ++ decimal r.seq,
    text "Color-Ack-Base: " ++ decimal r.ackBase,
    text "Color-Ack-New: " ++ joined (r.ackNew.map decimal)] ++
  (match r.hash with
    | some h => [text "Color-Hash: " ++ decimal h.toNat]
    | none => []) ++
  [text "Content-Type: application/json"]

-- The lines that recover sends with the JSON text of a replay.
def recoverLines (fromIndex : Nat) : List (List UInt8) :=
  [text "Color-Replay: " ++ decimal fromIndex, text "Content-Type: application/json"]

structure HttpResult where
  delivered : Bool := false
  status : Nat := 0
  headers : HeaderMap := fun _ => none
  body : List UInt8 := []

def toLower (c : UInt8) : UInt8 := if ch 'A' ≤ c && c ≤ ch 'Z' then c + 32 else c

def isLineEnd (c : UInt8) : Bool := c = 13 || c = 10 || c = 32

def trim (s : List UInt8) : List UInt8 := (s.reverse.dropWhile isLineEnd).reverse.dropWhile (· = 32)

-- The callback of the transport for one response header line.
def writeHeader (headers : HeaderMap) (line : List UInt8) : HeaderMap :=
  match line.dropWhile (· ≠ ch ':') with
  | [] => headers
  | _ :: value => headers.set (trim ((line.takeWhile (· ≠ ch ':')).map toLower)) (trim value)

-- What one turn of send's loop makes of a transport result.
inductive SendResult where
  | recover (fromIndex : Nat)
  | received (resp : Response)
  | retry
deriving DecidableEq, Repr

def recoverPosition (value : List UInt8) : Nat :=
  let v := value.takeWhile (· ≠ 0)
  match v.dropWhile (· ≠ ch '=') with
  | [] => Numerals.strtoull v
  | _ :: tail => Numerals.strtoull tail

def sendReceive (req : Request) (res : HttpResult) : SendResult :=
  if res.delivered then
    match (if res.status = 503 then res.headers (text "color-recover") else none) with
    | some value => .recover (recoverPosition value)
    | none => .received {
        seq := ((res.headers (text "color-seq")).map Numerals.strtoull).getD req.seq
        hash := (res.headers (text "color-hash")).map (fun value => (Numerals.strtoull value).toUInt64)
        noOp := (res.headers (text "color-no-op")).isSome
        payload := res.body }
  else .retry

-- ---- the server side ----

-- GetRequestHeader gives an empty value where there is none; only the first
-- block of ReadRequestBytes is read.
structure ServerRequest where
  header : List UInt8 → List UInt8
  block : Option (List UInt8)

structure ServerReply where
  status : Nat
  headers : HeaderMap := fun _ => none
  body : List UInt8 := []

def parseU64 (s : List UInt8) (dflt : Nat) : Nat := if s = [] then dflt else Numerals.strtoull s

-- The pieces between commas, empty ones left out.
def csvLoop (piece : List UInt8) : List UInt8 → List Nat
  | [] => if piece = [] then [] else [Numerals.strtoull piece]
  | c :: rest =>
      if c = ch ',' then (if piece = [] then [] else [Numerals.strtoull piece]) ++ csvLoop [] rest
      else csvLoop (piece ++ [c]) rest

def parseCsv (s : List UInt8) : List Nat := csvLoop [] s

def ServerRequest.readBody (req : ServerRequest) : List UInt8 := req.block.getD []

def ServerRequest.parse (req : ServerRequest) : Request :=
  let h := req.header (text "Color-Hash")
  { seq := parseU64 (req.header (text "Color-Seq")) 0
    ackBase := parseU64 (req.header (text "Color-Ack-Base")) 1
    ackNew := parseCsv (req.header (text "Color-Ack-New"))
    hash := if h = [] then none else some (parseU64 h 0).toUInt64
    payload := req.readBody }

def complete (setHash : Bool) (resp : Response) : ServerReply :=
  let headers : HeaderMap := HeaderMap.set (fun _ => none) (text "Color-Seq") (decimal resp.seq)
  let headers := match (if setHash then resp.hash else none) with
    | some h => headers.set (text "Color-Hash") (decimal h.toNat)
    | none => headers
  let headers := if resp.noOp then headers.set (text "Color-No-Op") (text "1") else headers
  { status := 200
    headers := headers.set (text "Content-Type") (text "application/json")
    body := resp.payload }

def signalRecovery (resp : Response) : ServerReply :=
  { status := 503
    headers := HeaderMap.set (fun _ => none) (text "Color-Recover") (text "from=" ++ decimal resp.recoverFrom) }

-- ---- what HTTP does between them ----

def Spaces (s : List UInt8) : Prop := ∀ b ∈ s, b = 32

def colorNames : List (List UInt8) :=
  [text "Color-Seq", text "Color-Ack-Base", text "Color-Ack-New", text "Color-Hash", text "Color-No-Op",
    text "Color-Recover", text "Color-Replay"]

-- A header line reaches the server with its value verbatim up to surrounding
-- spaces, an empty one not at all; the body comes in one block.
structure DeliversRequest (lines : List (List UInt8)) (body : List UInt8) (got : ServerRequest) : Prop where
  carried : ∀ name value, name ++ text ": " ++ value ∈ lines → ch ':' ∉ name → value ≠ [] →
    ∃ before after, (Spaces before ∧ Spaces after) ∧ got.header name = before ++ value ++ after
  absent : ∀ name, name ∈ colorNames → (∀ value, name ++ text ": " ++ value ∈ lines → value = []) → got.header name = []
  whole : got.block.getD [] = body

def lineName (line : List UInt8) : List UInt8 := trim ((line.takeWhile (· ≠ ch ':')).map toLower)

structure Carries (name value line : List UInt8) : Prop where
  shape : ∃ key before after, (Spaces before ∧ Spaces after) ∧ (ch ':' ∉ key ∧ key.map toLower = name.map toLower) ∧
    line = key ++ ch ':' :: (before ++ value ++ after ++ [13, 10])

-- The response lines hold the headers that were set, names in any case, and no
-- other Color header.
structure DeliversReply (reply : ServerReply) (lines : List (List UInt8)) : Prop where
  carried : ∀ name value, reply.headers name = some value → ∃ line ∈ lines, Carries name value line
  once : ∀ name value, name ∈ colorNames → reply.headers name = some value →
    ∀ line ∈ lines, lineName line = name.map toLower → Carries name value line
  absent : ∀ name, name ∈ colorNames → reply.headers name = none → ∀ line ∈ lines, lineName line ≠ name.map toLower

def received (reply : ServerReply) (lines : List (List UInt8)) : HttpResult :=
  { delivered := true, status := reply.status, headers := lines.foldl writeHeader (fun _ => none), body := reply.body }

-- ---- requests ----

structure Request.Fits (r : Request) : Prop where
  seq : r.seq < 2 ^ 64
  base : r.ackBase < 2 ^ 64
  acks : ∀ i ∈ r.ackNew, i < 2 ^ 64

theorem spaces_blank (s : List UInt8) (spaces : Spaces s) : ∀ b ∈ s, Numerals.isspace b = true := by
  intro b member
  rw [spaces b member]
  decide

theorem spaces_stop (s : List UInt8) (spaces : Spaces s) : ∀ b tail, s = b :: tail → Numerals.isdigit b = false := by
  intro b tail shape
  rw [spaces b (shape ▸ List.mem_cons_self)]
  decide

theorem all_differ (s : List UInt8) (c : UInt8) (absent : c ∉ s) : ∀ b ∈ s, decide (b ≠ c) = true := by
  intro b member
  simp only [ne_eq, decide_not, Bool.not_eq_true', decide_eq_false_iff_not]
  exact fun same => absent (same ▸ member)

theorem read_spaced (n : Nat) (before after : List UInt8) (fits : n < 2 ^ 64) (spaces : Spaces before ∧ Spaces after) :
    Numerals.strtoull (before ++ (decimal n ++ after)) = n := by
  rw [Numerals.strtoull_blank _ _ (spaces_blank before spaces.1)]
  exact Numerals.strtoull_written n after fits (spaces_stop after spaces.2)

theorem decimal_ne_nil (n : Nat) : decimal n ≠ [] := Numerals.written_ne_nil n

theorem decimal_without (n : Nat) (c : UInt8) (other : Numerals.isdigit c = false) : c ∉ decimal n := by
  intro member
  have digit : Numerals.isdigit c = true := Numerals.written_digits n c member
  rw [other] at digit
  cases digit

theorem parse_u64_spaced (n dflt : Nat) (before after : List UInt8) (fits : n < 2 ^ 64)
    (spaces : Spaces before ∧ Spaces after) : parseU64 (before ++ decimal n ++ after) dflt = n := by
  have nonempty : before ++ decimal n ++ after ≠ [] := by simp [decimal_ne_nil]
  rw [parseU64, if_neg nonempty, List.append_assoc]
  exact read_spaced n before after fits spaces

theorem csv_loop_piece (piece plain rest : List UInt8) (noComma : ch ',' ∉ plain) :
    csvLoop piece (plain ++ rest) = csvLoop (piece ++ plain) rest := by
  induction plain generalizing piece with
  | nil => simp
  | cons c plain ih =>
      have other : c ≠ ch ',' := fun same => noComma (same ▸ List.mem_cons_self)
      rw [List.cons_append, csvLoop, if_neg other, ih _ (fun member => noComma (List.mem_cons_of_mem c member))]
      simp

theorem csv_joined (ids : List Nat) (nonempty : ids ≠ []) (fits : ∀ i ∈ ids, i < 2 ^ 64) (before after : List UInt8)
    (spaces : Spaces before ∧ Spaces after) : csvLoop before (joined (ids.map decimal) ++ after) = ids := by
  have noSpaces : Spaces [] := fun b none => absurd none List.not_mem_nil
  induction ids generalizing before with
  | nil => exact absurd rfl nonempty
  | cons n rest ih =>
      have own := fits n List.mem_cons_self
      have comma : ch ',' ∉ decimal n := decimal_without n (ch ',') (by decide)
      cases rest with
      | nil =>
          have blank : ch ',' ∉ after := fun member => absurd (spaces.2 _ member) (by decide)
          have whole : csvLoop before (decimal n ++ after) = csvLoop (before ++ (decimal n ++ after)) [] := by
            have moved := csv_loop_piece before (decimal n ++ after) [] (by simp [comma, blank])
            rwa [List.append_nil] at moved
          have piece : before ++ (decimal n ++ after) ≠ [] := by simp [decimal_ne_nil]
          simp only [List.map_cons, List.map_nil, joined]
          rw [whole, csvLoop, if_neg piece, read_spaced n before after own spaces]
      | cons m rest =>
          have piece : before ++ decimal n ≠ [] := by simp [decimal_ne_nil]
          have number : Numerals.strtoull (before ++ decimal n) = n := by
            have read := read_spaced n before [] own ⟨spaces.1, noSpaces⟩
            rwa [List.append_nil] at read
          have later := ih (by simp) (fun i member => fits i (List.mem_cons_of_mem n member)) [] ⟨noSpaces, spaces.2⟩
          have shape : joined ((n :: m :: rest).map decimal) ++ after =
              decimal n ++ (ch ',' :: (joined ((m :: rest).map decimal) ++ after)) := by simp [joined]
          rw [shape, csv_loop_piece before (decimal n) _ comma, csvLoop, if_pos rfl, if_neg piece, number, later]
          rfl

theorem number_header (lines : List (List UInt8)) (body name : List UInt8) (got : ServerRequest) (n dflt : Nat)
    (fits : n < 2 ^ 64) (delivered : DeliversRequest lines body got) (line : name ++ text ": " ++ decimal n ∈ lines)
    (noColon : ch ':' ∉ name) : got.header name ≠ [] ∧ parseU64 (got.header name) dflt = n := by
  obtain ⟨before, after, spaces, header⟩ := delivered.carried name _ line noColon (decimal_ne_nil n)
  rw [header]
  exact ⟨by simp [decimal_ne_nil], parse_u64_spaced n dflt before after fits spaces⟩

theorem ack_header (r : Request) (got : ServerRequest) (fits : r.Fits)
    (delivered : DeliversRequest (headerLines r) r.payload got) : parseCsv (got.header (text "Color-Ack-New")) = r.ackNew := by
  have line : text "Color-Ack-New" ++ text ": " ++ joined (r.ackNew.map decimal) ∈ headerLines r := by
    simp [headerLines, text]
  cases shape : r.ackNew with
  | nil =>
      have absent := delivered.absent (text "Color-Ack-New") (by simp [colorNames]) (by
        intro value line
        cases hash : r.hash <;> simp [headerLines, text, ch, hash, shape, joined] at line
        · exact line
        · exact line)
      rw [absent]
      rfl
  | cons n rest =>
      have nonempty : joined (r.ackNew.map decimal) ≠ [] := by
        cases rest <;> simp [shape, joined, decimal_ne_nil]
      obtain ⟨before, after, spaces, header⟩ := delivered.carried _ _ line (by decide) nonempty
      have blank : ch ',' ∉ before := fun member => absurd (spaces.1 _ member) (by decide)
      rw [header, parseCsv, List.append_assoc, csv_loop_piece [] before _ blank, ← shape]
      exact csv_joined r.ackNew (by simp [shape]) fits.acks before after spaces

theorem hash_header (r : Request) (got : ServerRequest) (delivered : DeliversRequest (headerLines r) r.payload got) :
    (if got.header (text "Color-Hash") = [] then none
      else some (parseU64 (got.header (text "Color-Hash")) 0).toUInt64) = r.hash := by
  cases shape : r.hash with
  | none =>
      have absent := delivered.absent (text "Color-Hash") (by simp [colorNames]) (by
        intro value line
        simp [headerLines, text, ch, shape] at line)
      rw [absent, if_pos rfl]
  | some h =>
      have line : text "Color-Hash" ++ text ": " ++ decimal h.toNat ∈ headerLines r := by
        simp [headerLines, text, shape]
      have read := number_header _ _ _ got h.toNat 0 h.toNat_lt delivered line (by decide)
      rw [if_neg read.1, read.2]
      simp

theorem parse_header_lines (r : Request) (got : ServerRequest) (fits : r.Fits)
    (delivered : DeliversRequest (headerLines r) r.payload got) : got.parse = r := by
  have seqLine : text "Color-Seq" ++ text ": " ++ decimal r.seq ∈ headerLines r := by simp [headerLines, text]
  have baseLine : text "Color-Ack-Base" ++ text ": " ++ decimal r.ackBase ∈ headerLines r := by simp [headerLines, text]
  have seq := (number_header _ _ _ got r.seq 0 fits.seq delivered seqLine (by decide)).2
  have base := (number_header _ _ _ got r.ackBase 1 fits.base delivered baseLine (by decide)).2
  simp only [ServerRequest.parse, seq, base, ack_header r got fits delivered, hash_header r got delivered,
    ServerRequest.readBody, delivered.whole]

-- ---- responses ----

theorem drop_none (stop : UInt8 → Bool) (s rest : List UInt8) (nonempty : s ≠ []) (none : ∀ b ∈ s, stop b = false) :
    (s ++ rest).dropWhile stop = s ++ rest := by
  cases s with
  | nil => exact absurd rfl nonempty
  | cons b tail => simp [none b List.mem_cons_self]

-- A value without spaces or line ends comes out of its line as it went in.
def Tight (value : List UInt8) : Prop := value ≠ [] ∧ ∀ b ∈ value, isLineEnd b = false

theorem trim_carried (value before after : List UInt8) (tight : Tight value) (spaces : Spaces before ∧ Spaces after) :
    trim (before ++ value ++ after ++ [13, 10]) = value := by
  have ends : ∀ s, Spaces s → ∀ b ∈ s, isLineEnd b = true := by
    intro s blank b member
    rw [blank b member]
    decide
  have reversed : (before ++ value ++ after ++ [13, 10]).reverse =
      ([10, 13] ++ after.reverse) ++ (value.reverse ++ before.reverse) := by simp
  have back : ((before ++ value ++ after ++ [13, 10]).reverse.dropWhile isLineEnd).reverse = before ++ value := by
    rw [reversed, List.dropWhile_append_of_pos (by
        intro b member
        cases List.mem_append.mp member with
        | inl crlf =>
            have every : ∀ b ∈ ([10, 13] : List UInt8), isLineEnd b = true := by decide +kernel
            exact every b crlf
        | inr blank => exact ends after spaces.2 b (List.mem_reverse.mp blank)),
      drop_none isLineEnd _ _ (by simp [tight.1]) (fun b member => tight.2 b (List.mem_reverse.mp member))]
    simp
  rw [trim, back, List.dropWhile_append_of_pos (by
    intro b member
    rw [spaces.1 b member]
    decide)]
  have kept := drop_none (fun b => b = 32) value [] tight.1 (by
    intro b member
    have other := tight.2 b member
    simp only [isLineEnd, Bool.or_eq_false_iff, decide_eq_false_iff_not] at other
    simp [other.2])
  rwa [List.append_nil] at kept

theorem write_header_carried (headers : HeaderMap) (name value line : List UInt8) (tight : Tight value)
    (carries : Carries name value line) : writeHeader headers line = headers.set (lineName line) value := by
  obtain ⟨key, before, after, spaces, ⟨noColon, _⟩, shape⟩ := carries.shape
  have inside := all_differ key (ch ':') noColon
  have left : line.dropWhile (fun b => b ≠ ch ':') = ch ':' :: (before ++ value ++ after ++ [13, 10]) := by
    rw [shape, List.dropWhile_append_of_pos inside]
    simp
  rw [writeHeader, left]
  simp only
  rw [trim_carried value before after tight spaces, lineName]

theorem line_name_carried (name value line : List UInt8) (carries : Carries name value line) :
    lineName line = trim (name.map toLower) := by
  obtain ⟨key, before, after, _, ⟨noColon, same⟩, shape⟩ := carries.shape
  have inside := all_differ key (ch ':') noColon
  have taken : line.takeWhile (fun b => b ≠ ch ':') = key := by
    rw [shape, List.takeWhile_append_of_pos inside]
    simp
  rw [lineName, taken, same]

theorem write_header_other (headers : HeaderMap) (line key : List UInt8) (other : lineName line ≠ key) :
    writeHeader headers line key = headers key := by
  rw [writeHeader]
  cases line.dropWhile (fun b => decide (b ≠ ch ':')) with
  | nil => rfl
  | cons colon value => exact if_neg (fun same => other same.symm)

theorem headers_absent (lines : List (List UInt8)) (headers : HeaderMap) (key : List UInt8)
    (none : ∀ line ∈ lines, lineName line ≠ key) : lines.foldl writeHeader headers key = headers key := by
  induction lines generalizing headers with
  | nil => rfl
  | cons line lines ih =>
      rw [List.foldl_cons, ih _ (fun other member => none other (List.mem_cons_of_mem line member)),
        write_header_other headers line key (none line List.mem_cons_self)]

theorem headers_found (lines : List (List UInt8)) (headers : HeaderMap) (key value : List UInt8)
    (all : ∀ line ∈ lines, lineName line = key → ∀ headers, writeHeader headers line key = some value)
    (found : headers key = some value ∨ ∃ line ∈ lines, lineName line = key) :
    lines.foldl writeHeader headers key = some value := by
  induction lines generalizing headers with
  | nil =>
      cases found with
      | inl set => exact set
      | inr none => simp at none
  | cons line lines ih =>
      have later := fun other member => all other (List.mem_cons_of_mem line member)
      rw [List.foldl_cons]
      by_cases own : lineName line = key
      · exact ih _ later (Or.inl (all line List.mem_cons_self own headers))
      · apply ih _ later
        cases found with
        | inl set => exact Or.inl ((write_header_other headers line key own).trans set)
        | inr some =>
            obtain ⟨other, member, named⟩ := some
            cases List.mem_cons.mp member with
            | inl same => exact absurd (same ▸ named) own
            | inr rest => exact Or.inr ⟨other, rest, named⟩

-- A Color header arrives under its lower-case name exactly when it was set.
theorem reply_header (reply : ServerReply) (lines : List (List UInt8)) (name : List UInt8) (color : name ∈ colorNames)
    (tight : ∀ value, reply.headers name = some value → Tight value)
    (stable : trim (name.map toLower) = name.map toLower) (delivered : DeliversReply reply lines) :
    (received reply lines).headers (name.map toLower) = reply.headers name := by
  cases set : reply.headers name with
  | none => exact headers_absent lines _ _ (delivered.absent name color set)
  | some value =>
      apply headers_found lines _ _ value
      · intro line member named headers
        rw [write_header_carried headers name value line (tight value set) (delivered.once name value color set line member named),
          HeaderMap.set, if_pos named.symm]
      · obtain ⟨line, member, carries⟩ := delivered.carried name value set
        exact Or.inr ⟨line, member, (line_name_carried name value line carries).trans stable⟩

theorem decimal_tight (n : Nat) : Tight (decimal n) := by
  refine ⟨decimal_ne_nil n, ?_⟩
  intro b member
  have bounds := (Numerals.isdigit_iff b).mp (Numerals.written_digits n b member)
  simp [isLineEnd, ← UInt8.toNat_inj]
  omega

structure Response.Fits (resp : Response) : Prop where
  seq : resp.seq < 2 ^ 64
  position : resp.recoverFrom < 2 ^ 64

theorem read_decimal (n : Nat) (fits : n < 2 ^ 64) : Numerals.strtoull (decimal n) = n := by
  have read := Numerals.strtoull_written n [] fits (by simp)
  rwa [List.append_nil] at read

theorem complete_headers (setHash : Bool) (resp : Response) :
    (complete setHash resp).headers (text "Color-Seq") = some (decimal resp.seq) ∧
    (complete setHash resp).headers (text "Color-Hash") =
      (if setHash then resp.hash else none).map (fun h => decimal h.toNat) ∧
    (complete setHash resp).headers (text "Color-No-Op") = if resp.noOp then some (text "1") else none := by
  have distinct : text "Color-Seq" ≠ text "Color-Hash" ∧ text "Color-Seq" ≠ text "Color-No-Op" ∧
      text "Color-Seq" ≠ text "Content-Type" ∧ text "Color-Hash" ≠ text "Color-No-Op" ∧
      text "Color-Hash" ≠ text "Content-Type" ∧ text "Color-No-Op" ≠ text "Content-Type" := by decide +kernel
  obtain ⟨one, two, three, four, five, six⟩ := distinct
  cases noOp : resp.noOp <;> cases hash : (if setHash then resp.hash else none) <;>
    simp [complete, noOp, hash, HeaderMap.set, one, two, three, four, five, six, Ne.symm one, Ne.symm two, Ne.symm four]

theorem complete_read (req : Request) (setHash : Bool) (resp : Response) (lines : List (List UInt8)) (fits : resp.Fits)
    (delivered : DeliversReply (complete setHash resp) lines) :
    sendReceive req (received (complete setHash resp) lines) =
      .received { seq := resp.seq, hash := if setHash then resp.hash else none, noOp := resp.noOp, payload := resp.payload } := by
  obtain ⟨seqSet, hashSet, noOpSet⟩ := complete_headers setHash resp
  have seq : (received (complete setHash resp) lines).headers (text "color-seq") = some (decimal resp.seq) := by
    rw [← seqSet]
    exact reply_header _ lines (text "Color-Seq") (by simp [colorNames])
      (fun value set => by
        rw [seqSet, Option.some.injEq] at set
        exact set ▸ decimal_tight resp.seq) (by decide +kernel) delivered
  have hash : (received (complete setHash resp) lines).headers (text "color-hash") =
      (if setHash then resp.hash else none).map (fun h => decimal h.toNat) := by
    rw [← hashSet]
    exact reply_header _ lines (text "Color-Hash") (by simp [colorNames])
      (fun value set => by
        rw [hashSet] at set
        obtain ⟨h, _, same⟩ := Option.map_eq_some_iff.mp set
        exact same ▸ decimal_tight h.toNat) (by decide +kernel) delivered
  have noOp : (received (complete setHash resp) lines).headers (text "color-no-op") =
      if resp.noOp then some (text "1") else none := by
    rw [← noOpSet]
    exact reply_header _ lines (text "Color-No-Op") (by simp [colorNames])
      (fun value set => by
        have one : Tight (text "1") := ⟨by decide, by decide +kernel⟩
        rw [noOpSet] at set
        split at set
        · exact Option.some.inj set ▸ one
        · cases set) (by decide +kernel) delivered
  have status : (received (complete setHash resp) lines).status = 200 := rfl
  have body : (received (complete setHash resp) lines).body = resp.payload := rfl
  have arrived : (received (complete setHash resp) lines).delivered = true := rfl
  have number : ∀ h : Hash, (Numerals.strtoull (decimal h.toNat)).toUInt64 = h := by
    intro h
    rw [read_decimal h.toNat h.toNat_lt]
    simp
  rw [sendReceive, if_pos arrived]
  simp only [status, seq, hash, noOp, body, Option.map_some, Option.getD_some, read_decimal resp.seq fits.seq,
    Option.map_map, Function.comp_def, number]
  cases resp.noOp <;> simp

theorem recover_position (n : Nat) (fits : n < 2 ^ 64) : recoverPosition (text "from=" ++ decimal n) = n := by
  have nonzero : ∀ b ∈ text "from=" ++ decimal n, decide (b ≠ 0) = true := by
    intro b member
    have label : ∀ b ∈ text "from=", decide (b ≠ 0) = true := by decide +kernel
    cases List.mem_append.mp member with
    | inl name => exact label b name
    | inr digit => exact all_differ (decimal n) 0 (decimal_without n 0 (by decide)) b digit
  have whole : (text "from=" ++ decimal n).takeWhile (fun b => b ≠ 0) = text "from=" ++ decimal n :=
    List.takeWhile_eq_self_iff.mpr nonzero
  have found : (text "from=" ++ decimal n).dropWhile (fun b => b ≠ ch '=') = ch '=' :: decimal n := by
    simp [text, ch]
  rw [recoverPosition]
  simp only [whole, found]
  exact read_decimal n fits

theorem signal_read (req : Request) (resp : Response) (lines : List (List UInt8)) (fits : resp.Fits)
    (delivered : DeliversReply (signalRecovery resp) lines) :
    sendReceive req (received (signalRecovery resp) lines) = .recover resp.recoverFrom := by
  have set : (signalRecovery resp).headers (text "Color-Recover") = some (text "from=" ++ decimal resp.recoverFrom) := by
    simp [signalRecovery, HeaderMap.set]
  have tight : Tight (text "from=" ++ decimal resp.recoverFrom) := by
    refine ⟨by simp [decimal_ne_nil], ?_⟩
    intro b member
    have label : ∀ b ∈ text "from=", isLineEnd b = false := by decide +kernel
    cases List.mem_append.mp member with
    | inl name => exact label b name
    | inr digit => exact (decimal_tight resp.recoverFrom).2 b digit
  have recover : (received (signalRecovery resp) lines).headers (text "color-recover") =
      some (text "from=" ++ decimal resp.recoverFrom) := by
    rw [← set]
    exact reply_header _ lines (text "Color-Recover") (by simp [colorNames])
      (fun value given => by
        rw [set, Option.some.injEq] at given
        exact given ▸ tight) (by decide +kernel) delivered
  have status : (received (signalRecovery resp) lines).status = 503 := rfl
  have arrived : (received (signalRecovery resp) lines).delivered = true := rfl
  rw [sendReceive, if_pos arrived]
  simp only [status, if_true, recover, recover_position resp.recoverFrom fits.position]

theorem header_encoding_lossless :
    (∀ (r : Request) (got : ServerRequest), r.Fits → DeliversRequest (headerLines r) r.payload got → got.parse = r) ∧
    ∀ (req : Request) (setHash : Bool) (resp : Response) (lines : List (List UInt8)), resp.Fits →
      (DeliversReply (complete setHash resp) lines → sendReceive req (received (complete setHash resp) lines) =
        .received { seq := resp.seq, hash := if setHash then resp.hash else none, noOp := resp.noOp, payload := resp.payload }) ∧
      (DeliversReply (signalRecovery resp) lines →
        sendReceive req (received (signalRecovery resp) lines) = .recover resp.recoverFrom) :=
  ⟨fun r got => parse_header_lines r got,
    fun req setHash resp lines fits => ⟨complete_read req setHash resp lines fits, signal_read req resp lines fits⟩⟩

-- ---- a transport that keeps every line as it is ----

def lineValue (line : List UInt8) : List UInt8 := (line.dropWhile (· ≠ ch ':')).drop 2

def plainRequest (lines : List (List UInt8)) (body : List UInt8) : ServerRequest :=
  { header := fun name => ((lines.find? (fun line => line.takeWhile (· ≠ ch ':') = name)).map lineValue).getD []
    block := some body }

def headerLine (name value : List UInt8) : List UInt8 := name ++ text ": " ++ value

theorem header_line_split (name value : List UInt8) (noColon : ch ':' ∉ name) :
    (headerLine name value).takeWhile (· ≠ ch ':') = name ∧ lineValue (headerLine name value) = value := by
  have inside := all_differ name (ch ':') noColon
  have shape : headerLine name value = name ++ ch ':' :: ch ' ' :: value := by simp [headerLine, text]
  rw [shape, lineValue, List.takeWhile_append_of_pos inside, List.dropWhile_append_of_pos inside]
  simp

theorem plain_request_delivers (fields : List (List UInt8 × List UInt8)) (body : List UInt8)
    (noColon : ∀ field ∈ fields, ch ':' ∉ field.1) (distinct : (fields.map Prod.fst).Nodup) :
    DeliversRequest (fields.map (fun field => headerLine field.1 field.2)) body
      (plainRequest (fields.map (fun field => headerLine field.1 field.2)) body) := by
  have lookup : ∀ name, (plainRequest (fields.map (fun field => headerLine field.1 field.2)) body).header name =
      ((fields.find? (fun field => field.1 = name)).map Prod.snd).getD [] := by
    intro name
    induction fields with
    | nil => rfl
    | cons field rest ih =>
        have own := header_line_split field.1 field.2 (noColon field List.mem_cons_self)
        have later := ih (fun other member => noColon other (List.mem_cons_of_mem field member)) (List.nodup_cons.mp distinct).2
        simp only [plainRequest, List.map_cons, List.find?_cons, own.1] at later ⊢
        cases decide (field.1 = name) with
        | true => simp only [Option.map_some, Option.getD_some, own.2]
        | false => exact later
  constructor
  case carried =>
    intro name value line plain _
    obtain ⟨field, member, same⟩ := List.mem_map.mp line
    have split := header_line_split field.1 field.2 (noColon field member)
    have given := header_line_split name value plain
    have eq : headerLine field.1 field.2 = headerLine name value := same
    rw [eq] at split
    have nameEq : field.1 = name := split.1.symm.trans given.1
    have valueEq : field.2 = value := split.2.symm.trans given.2
    refine ⟨[], [], ⟨by simp [Spaces], by simp [Spaces]⟩, ?_⟩
    rw [lookup]
    cases found : fields.find? (fun field => field.1 = name) with
    | none =>
        have missing := List.find?_eq_none.mp found field member
        simp [nameEq] at missing
    | some other =>
        have otherName : other.1 = name := by simpa using List.find?_some found
        have both := List.inj_on_of_nodup_map distinct (List.mem_of_find?_eq_some found) member (otherName.trans nameEq.symm)
        simp [both, valueEq]
  case absent =>
    intro name _ empty
    rw [lookup]
    cases found : fields.find? (fun field => field.1 = name) with
    | none => rfl
    | some field =>
        have same : field.1 = name := by simpa using List.find?_some found
        have value := empty field.2 (List.mem_map.mpr ⟨field, List.mem_of_find?_eq_some found, by rw [← same]; rfl⟩)
        simp [value]
  case whole => rfl

theorem plain_reply_delivers (reply : ServerReply) (fields : List (List UInt8 × List UInt8))
    (set : ∀ name value, reply.headers name = some value ↔ (name, value) ∈ fields)
    (noColon : ∀ field ∈ fields, ch ':' ∉ field.1)
    (apart : ∀ field ∈ fields, ∀ name ∈ colorNames, trim (field.1.map toLower) = name.map toLower → field.1 = name) :
    DeliversReply reply (fields.map (fun field => headerLine field.1 field.2 ++ [13, 10])) := by
  have carries : ∀ field ∈ fields, Carries field.1 field.2 (headerLine field.1 field.2 ++ [13, 10]) := by
    intro field member
    exact ⟨field.1, [32], [], ⟨by simp [Spaces], by simp [Spaces]⟩, ⟨noColon field member, rfl⟩,
      by simp [headerLine, text, ch]⟩
  have named : ∀ field ∈ fields, ∀ name ∈ colorNames,
      lineName (headerLine field.1 field.2 ++ [13, 10]) = name.map toLower → field.1 = name := by
    intro field member name color same
    rw [line_name_carried field.1 field.2 _ (carries field member)] at same
    exact apart field member name color same
  constructor
  case carried =>
    intro name value given
    have member := (set name value).mp given
    exact ⟨_, List.mem_map.mpr ⟨(name, value), member, rfl⟩, carries (name, value) member⟩
  case once =>
    intro name value color given line lineMember same
    obtain ⟨field, member, shape⟩ := List.mem_map.mp lineMember
    rw [← shape] at same ⊢
    have own := named field member name color same
    have fieldSet := (set field.1 field.2).mpr member
    rw [own, given, Option.some.injEq] at fieldSet
    rw [← own, fieldSet]
    exact carries field member
  case absent =>
    intro name color missing line lineMember same
    obtain ⟨field, member, shape⟩ := List.mem_map.mp lineMember
    rw [← shape] at same
    have fieldSet := (set field.1 field.2).mpr member
    rw [named field member name color same, missing] at fieldSet
    cases fieldSet

theorem set_some_iff (headers : HeaderMap) (name value other given : List UInt8) :
    headers.set name value other = some given ↔
      (other, given) = (name, value) ∨ other ≠ name ∧ headers other = some given := by
  by_cases same : other = name
  · simp [HeaderMap.set, same, eq_comm]
  · simp [HeaderMap.set, same]

def sampleRequest : Request := { seq := 4, ackBase := 2, ackNew := [3, 2], hash := some 7, payload := text "hi" }

def sampleFields : List (List UInt8 × List UInt8) :=
  [(text "Color-Seq", text "4"), (text "Color-Ack-Base", text "2"), (text "Color-Ack-New", text "3,2"),
    (text "Color-Hash", text "7"), (text "Content-Type", text "application/json")]

def sampleResponse : Response := { seq := 4, hash := some 5, payload := text "ok" }

def sampleReplyFields : List (List UInt8 × List UInt8) :=
  [(text "Content-Type", text "application/json"), (text "Color-Hash", text "5"), (text "Color-Seq", text "4")]

def sampleRecovery : Response := { recover := true, recoverFrom := 3 }

theorem header_encoding_lossless_sample :
    (plainRequest (headerLines sampleRequest) sampleRequest.payload).parse = sampleRequest ∧
    (∃ lines, sendReceive sampleRequest (received (complete true sampleResponse) lines) =
      .received { seq := 4, hash := some 5, noOp := false, payload := text "ok" }) ∧
    ∃ lines, sendReceive sampleRequest (received (signalRecovery sampleRecovery) lines) = .recover 3 := by
  have requestLines : headerLines sampleRequest = sampleFields.map (fun field => headerLine field.1 field.2) := by
    decide +kernel
  have requestDelivered : DeliversRequest (headerLines sampleRequest) sampleRequest.payload
      (plainRequest (headerLines sampleRequest) sampleRequest.payload) := by
    rw [requestLines]
    exact plain_request_delivers sampleFields sampleRequest.payload (by decide +kernel) (by decide +kernel)
  have replyDelivered : DeliversReply (complete true sampleResponse)
      (sampleReplyFields.map (fun field => headerLine field.1 field.2 ++ [13, 10])) := by
    apply plain_reply_delivers (complete true sampleResponse) sampleReplyFields _ (by decide +kernel) (by decide +kernel)
    intro name value
    have digits : decimal 4 = text "4" ∧ decimal 5 = text "5" := by decide +kernel
    have apart : text "Color-Seq" ≠ text "Color-Hash" ∧ text "Color-Seq" ≠ text "Content-Type" ∧
        text "Color-Hash" ≠ text "Content-Type" := by decide +kernel
    have headers : (complete true sampleResponse).headers =
        ((HeaderMap.set (fun _ => none) (text "Color-Seq") (text "4")).set (text "Color-Hash") (text "5")).set
          (text "Content-Type") (text "application/json") := by
      rw [← digits.1, ← digits.2]
      rfl
    simp only [headers, set_some_iff, sampleReplyFields, List.mem_cons, Prod.mk.injEq, List.not_mem_nil]
    grind
  have recoverDelivered : DeliversReply (signalRecovery sampleRecovery)
      ([(text "Color-Recover", text "from=3")].map (fun field => headerLine field.1 field.2 ++ [13, 10])) := by
    apply plain_reply_delivers (signalRecovery sampleRecovery) _ _ (by decide +kernel) (by decide +kernel)
    intro name value
    have digits : text "from=" ++ decimal 3 = text "from=3" := by decide +kernel
    have headers : (signalRecovery sampleRecovery).headers =
        HeaderMap.set (fun _ => none) (text "Color-Recover") (text "from=3") := by
      rw [← digits]
      rfl
    simp only [headers, set_some_iff, List.mem_cons, Prod.mk.injEq, List.not_mem_nil]
    grind
  have requestFits : sampleRequest.Fits := ⟨by decide, by decide, by decide⟩
  have replies := header_encoding_lossless.2 sampleRequest
  exact ⟨header_encoding_lossless.1 sampleRequest _ requestFits requestDelivered,
    ⟨_, (replies true sampleResponse _ ⟨by decide, by decide⟩).1 replyDelivered⟩,
    ⟨_, (replies true sampleRecovery _ ⟨by decide, by decide⟩).2 recoverDelivered⟩⟩

end Color
