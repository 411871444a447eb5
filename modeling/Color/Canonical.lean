import Color.History

set_option autoImplicit false

namespace Color

-- The agreed total order: each request after the responses it first acknowledges.
def canonical (reqs : List Request) : List Event := reqs.flatMap (fun r => commitEvents r.ackNew r.seq)

-- The k-th request carries id k, from 1.
def Numbered (reqs : List Request) : Prop := ∀ i r, reqs[i]? = some r → r.seq = i + 1

theorem canonical_append (a b : List Request) : canonical (a ++ b) = canonical a ++ canonical b := by
  simp [canonical]

theorem canonical_concat (reqs : List Request) (r : Request) :
    canonical (reqs ++ [r]) = canonical reqs ++ commitEvents r.ackNew r.seq := by
  simp [canonical]

theorem canonical_take_succ (reqs : List Request) (i : Nat) (r : Request) (found : reqs[i]? = some r) :
    canonical (reqs.take (i + 1)) = canonical (reqs.take i) ++ commitEvents r.ackNew r.seq := by
  rw [List.take_add_one, found]
  exact canonical_concat _ r

theorem canonical_take_mono (reqs : List Request) (m n : Nat) (le : m ≤ n) :
    canonical (reqs.take m) <+: canonical (reqs.take n) := by
  obtain ⟨rest, eq⟩ := List.take_prefix_take_left le (l := reqs)
  exact ⟨canonical rest, by rw [← canonical_append, eq]⟩

theorem canonical_take_initial (reqs : List Request) (m : Nat) : canonical (reqs.take m) <+: canonical reqs := by
  obtain ⟨rest, eq⟩ := List.take_prefix m reqs
  exact ⟨canonical rest, by rw [← canonical_append, eq]⟩

theorem canonical_take_length (reqs : List Request) (m : Nat) :
    (canonical reqs).take (canonical (reqs.take m)).length = canonical (reqs.take m) :=
  (List.prefix_iff_eq_take.mp (canonical_take_initial reqs m)).symm

theorem request_mem_canonical (reqs : List Request) (s : Nat) :
    Event.request s ∈ canonical reqs ↔ ∃ r ∈ reqs, r.seq = s := by
  simp [canonical, commitEvents, eq_comm]

theorem response_mem_canonical (reqs : List Request) (i : Nat) :
    Event.response i ∈ canonical reqs ↔ ∃ r ∈ reqs, i ∈ r.ackNew := by
  simp [canonical, commitEvents]

theorem commit_events_requests (ackNew : List Nat) (seq : Nat) :
    (commitEvents ackNew seq).filter (fun e => !e.isResponse) = [Event.request seq] := by
  simp [commitEvents, List.filter_append, List.filter_map, Function.comp_def]

theorem canonical_requests (reqs : List Request) :
    (canonical reqs).filter (fun e => !e.isResponse) = reqs.map (fun r => Event.request r.seq) := by
  induction reqs with
  | nil => rfl
  | cons r rest ih =>
      have split : canonical (r :: rest) = commitEvents r.ackNew r.seq ++ canonical rest := rfl
      rw [split, List.filter_append, ih, commit_events_requests]
      rfl

theorem numbered_take (reqs : List Request) (m : Nat) (numbered : Numbered reqs) : Numbered (reqs.take m) := by
  intro i r found
  rw [List.getElem?_take] at found
  split at found
  · exact numbered i r found
  · cases found

theorem numbered_concat (reqs : List Request) (r : Request) (numbered : Numbered reqs)
    (next : r.seq = reqs.length + 1) : Numbered (reqs ++ [r]) := by
  intro i s found
  rw [List.getElem?_append] at found
  split at found
  · exact numbered i s found
  · have last : i - reqs.length = 0 ∧ r = s := by simpa [List.getElem?_singleton] using found
    rw [← last.2, next]
    omega

theorem numbered_seq_index (reqs : List Request) (r : Request) (numbered : Numbered reqs) (member : r ∈ reqs) :
    reqs[r.seq - 1]? = some r ∧ 1 ≤ r.seq ∧ r.seq ≤ reqs.length := by
  obtain ⟨i, found⟩ := List.mem_iff_getElem?.mp member
  have seq := numbered i r found
  have bound := (List.getElem?_eq_some_iff.mp found).1
  exact ⟨by rw [seq]; exact found, by omega, by omega⟩

theorem numbered_exists (reqs : List Request) (i : Nat) (numbered : Numbered reqs) (low : 1 ≤ i) (high : i ≤ reqs.length) :
    ∃ r ∈ reqs, r.seq = i := by
  have found := List.getElem?_eq_getElem (l := reqs) (i := i - 1) (by omega)
  exact ⟨_, List.mem_of_getElem? found, by rw [numbered _ _ found, Nat.sub_add_cancel low]⟩

theorem numbered_seq_unique (reqs : List Request) (a b : Request) (numbered : Numbered reqs)
    (left : a ∈ reqs) (right : b ∈ reqs) (same : a.seq = b.seq) : a = b := by
  have leftIndex := (numbered_seq_index reqs a numbered left).1
  have rightIndex := (numbered_seq_index reqs b numbered right).1
  rw [same, rightIndex] at leftIndex
  exact (Option.some.inj leftIndex).symm

theorem numbered_mem_take (reqs : List Request) (r : Request) (m : Nat) (numbered : Numbered reqs) (member : r ∈ reqs) :
    r ∈ reqs.take m ↔ r.seq ≤ m := by
  obtain ⟨index, low, _⟩ := numbered_seq_index reqs r numbered member
  constructor
  · intro early
    have bound := (numbered_seq_index (reqs.take m) r (numbered_take reqs m numbered) early).2.2
    have length := List.length_take_le m reqs
    omega
  · intro below
    apply List.mem_iff_getElem?.mpr
    exact ⟨r.seq - 1, by rw [List.getElem?_take, if_pos (by omega), index]⟩

theorem canonical_take_last (reqs : List Request) (m : Nat) (r : Request) (found : reqs[m]? = some r) :
    (canonical (reqs.take (m + 1))).getLast? = some (.request r.seq) := by
  rw [canonical_take_succ reqs m r found]
  simp [commitEvents]

end Color
