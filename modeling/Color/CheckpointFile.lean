import Color.JsonRoundTrip
import Color.Server

set_option autoImplicit false

namespace Color

abbrev Path := List UInt8
abbrev Files := Path → Option (List UInt8)

def Files.put (files : Files) (path : Path) (content : Option (List UInt8)) : Files :=
  fun other => if other = path then content else files other

-- std::rename replaces the target at once, and fails without a source.
def Files.rename (files : Files) (source target : Path) : Files :=
  match files source with
  | none => files
  | some content => (files.put source none).put target (some content)

def loadCheckpoint (files : Files) (path : Path) : Bool × Checkpoint :=
  if path = [] then (false, {})
  else
    match files path with
    | none => (false, {})
    | some content => fromJsonCheckpoint content

-- The temp file cannot be opened, or it is emptied and so many bytes of the text arrive.
inductive TempWrite where
  | unopened
  | stored (bytes : Nat)
deriving DecidableEq, Repr

-- One call of WriteCheckpoint; the process may stop before the rename.
structure WriteCall where
  core : Server
  walk : Walk
  write : TempWrite
  crashed : Bool

def WriteCall.checkpoint (call : WriteCall) : Checkpoint := call.core.checkpoint call.walk

def WriteCall.json (call : WriteCall) : List UInt8 := call.checkpoint.toJson

def tempPath (path : Path) : Path := path ++ text ".tmp"

def Files.writeCheckpoint (path : Path) (files : Files) (call : WriteCall) : Files :=
  let written :=
    match call.write with
    | .unopened => files
    | .stored bytes => files.put (tempPath path) (some (call.json.take bytes))
  if call.crashed then written else written.rename (tempPath path) path

def Files.run (path : Path) (calls : List WriteCall) (files : Files) : Files := calls.foldl (Files.writeCheckpoint path) files

theorem run_snoc (path : Path) (calls : List WriteCall) (call : WriteCall) (files : Files) :
    files.run path (calls ++ [call]) = (files.run path calls).writeCheckpoint path call := by
  simp [Files.run]

theorem temp_path_ne (path : Path) : tempPath path ≠ path := by
  intro same
  have lengths := congrArg List.length same
  simp [tempPath, text] at lengths

theorem rename_missing (files : Files) (source target : Path) (missing : files source = none) :
    files.rename source target = files := by
  rw [Files.rename, missing]

theorem rename_target (files : Files) (source target : Path) (content : List UInt8) (there : files source = some content) :
    files.rename source target target = some content := by
  rw [Files.rename, there]
  exact if_pos rfl

theorem rename_source (files : Files) (source target : Path) (apart : source ≠ target) :
    files.rename source target source = none := by
  cases there : files source with
  | none => rw [rename_missing files source target there, there]
  | some content =>
      rw [Files.rename, there]
      simp [Files.put, apart]

theorem put_same (files : Files) (path : Path) (content : Option (List UInt8)) : files.put path content path = content :=
  if_pos rfl

theorem put_other (files : Files) (path other : Path) (content : Option (List UInt8)) (apart : other ≠ path) :
    files.put path content other = files other := if_neg apart

def WriteCall.Full (call : WriteCall) : Prop := ∃ bytes, call.write = .stored bytes ∧ call.json.length ≤ bytes

def WriteCall.Succeeds (call : WriteCall) : Prop := call.Full ∧ call.crashed = false

theorem unopened_not_full (call : WriteCall) (unopened : call.write = .unopened) : ¬ call.Full := by
  intro full
  obtain ⟨bytes, stored, _⟩ := full
  rw [unopened] at stored
  cases stored

-- Once a call has succeeded, what a rename moves is whole: the call stored its
-- text in full, or found the temp file closed and no partial text in it.
def WriteCall.MovesWhole (path : Path) (before : List WriteCall) (files : Files) (call : WriteCall) : Prop :=
  (∃ earlier ∈ before, earlier.Succeeds) → call.crashed = true ∨ call.Full ∨
    call.write = .unopened ∧ (files (tempPath path) = none ∨
      ∃ earlier ∈ before, earlier.Full ∧ files (tempPath path) = some earlier.json)

-- A call of the run that no successful one came after.
def Unreplaced (calls : List WriteCall) (call : WriteCall) : Prop :=
  ∃ before after, calls = before ++ call :: after ∧ ∀ later ∈ after, ¬ later.Succeeds

theorem unreplaced_last (calls : List WriteCall) (call : WriteCall) : Unreplaced (calls ++ [call]) call :=
  ⟨calls, [], rfl, fun _ none => absurd none List.not_mem_nil⟩

theorem unreplaced_mem (calls : List WriteCall) (call : WriteCall) (unreplaced : Unreplaced calls call) : call ∈ calls := by
  obtain ⟨before, after, shape, _⟩ := unreplaced
  simp [shape]

theorem unreplaced_snoc (calls : List WriteCall) (call next : WriteCall) (unreplaced : Unreplaced calls call)
    (failed : ¬ next.Succeeds) : Unreplaced (calls ++ [next]) call := by
  obtain ⟨before, after, shape, none⟩ := unreplaced
  refine ⟨before, after ++ [next], by simp [shape], ?_⟩
  intro later member
  cases List.mem_append.mp member with
  | inl old => exact none later old
  | inr new =>
      rw [List.mem_singleton.mp new]
      exact failed

structure Tracked (path : Path) (calls : List WriteCall) (files : Files) : Prop where
  live : (∃ call ∈ calls, call.Succeeds) → ∃ call, Unreplaced calls call ∧ call.Full ∧ files path = some call.json
  temp : ∀ content, files (tempPath path) = some content → (∀ call ∈ calls, call.write = .unopened) ∨
    ∃ call bytes, Unreplaced calls call ∧ call.write = .stored bytes ∧ content = call.json.take bytes

theorem succeeded_before (calls : List WriteCall) (call : WriteCall) (failed : ¬ call.Succeeds)
    (once : ∃ other ∈ calls ++ [call], other.Succeeds) : ∃ other ∈ calls, other.Succeeds := by
  obtain ⟨other, member, succeeds⟩ := once
  cases List.mem_append.mp member with
  | inl old => exact ⟨other, old, succeeds⟩
  | inr new => exact absurd (List.mem_singleton.mp new ▸ succeeds) failed

theorem live_kept (path : Path) (calls : List WriteCall) (files : Files) (call : WriteCall) (tracked : Tracked path calls files)
    (failed : ¬ call.Succeeds) (once : ∃ other ∈ calls ++ [call], other.Succeeds) :
    ∃ other, Unreplaced (calls ++ [call]) other ∧ other.Full ∧ files path = some other.json := by
  obtain ⟨other, unreplaced, full, holds⟩ := tracked.live (succeeded_before calls call failed once)
  exact ⟨other, unreplaced_snoc calls other call unreplaced failed, full, holds⟩

-- The leftover temp file of a crashed call: if it is whole, it is that call's own text.
theorem leftover_whole (path : Path) (calls : List WriteCall) (files : Files) (tracked : Tracked path calls files)
    (fits : ∀ call ∈ calls, call.checkpoint.Fits) (earlier : WriteCall) (member : earlier ∈ calls) (full : earlier.Full)
    (holds : files (tempPath path) = some earlier.json) :
    ∃ call, Unreplaced calls call ∧ call.Full ∧ files (tempPath path) = some call.json := by
  cases tracked.temp _ holds with
  | inl unopened => exact absurd full (unopened_not_full earlier (unopened earlier member))
  | inr written =>
      obtain ⟨call, bytes, unreplaced, stored, same⟩ := written
      have inside := unreplaced_mem calls call unreplaced
      have split : call.json = earlier.json ++ call.json.drop bytes := by
        rw [same, List.take_append_drop]
      have free := to_json_prefix_free _ _ (fits earlier member) (fits call inside) _ split
      refine ⟨call, unreplaced, ⟨bytes, stored, List.drop_eq_nil_iff.mp free.2⟩, ?_⟩
      rw [holds, split, free.2, List.append_nil]

theorem tracked_crashed (path : Path) (calls : List WriteCall) (files : Files) (call : WriteCall)
    (tracked : Tracked path calls files) (crashed : call.crashed = true) :
    Tracked path (calls ++ [call]) (files.writeCheckpoint path call) := by
  have failed : ¬ call.Succeeds := fun succeeds => by simp [succeeds.2] at crashed
  cases write : call.write with
  | unopened =>
      have same : files.writeCheckpoint path call = files := by simp [Files.writeCheckpoint, write, crashed]
      rw [same]
      refine ⟨live_kept path calls files call tracked failed, ?_⟩
      intro content holds
      cases tracked.temp content holds with
      | inl unopened =>
          apply Or.inl
          intro other member
          cases List.mem_append.mp member with
          | inl old => exact unopened other old
          | inr new => rw [List.mem_singleton.mp new, write]
      | inr written =>
          obtain ⟨other, bytes, unreplaced, stored⟩ := written
          exact Or.inr ⟨other, bytes, unreplaced_snoc calls other call unreplaced failed, stored⟩
  | stored bytes =>
      have written : files.writeCheckpoint path call = files.put (tempPath path) (some (call.json.take bytes)) := by
        simp [Files.writeCheckpoint, write, crashed]
      rw [written]
      constructor
      · intro once
        rw [put_other files _ path _ (Ne.symm (temp_path_ne path))]
        exact live_kept path calls files call tracked failed once
      · intro content holds
        rw [put_same, Option.some.injEq] at holds
        exact Or.inr ⟨call, bytes, unreplaced_last calls call, write, holds.symm⟩

-- A rename leaves no temp file behind, so only the live file is in question.
theorem tracked_renamed (path : Path) (calls : List WriteCall) (files : Files)
    (live : (∃ call ∈ calls, call.Succeeds) →
      ∃ call, Unreplaced calls call ∧ call.Full ∧ files.rename (tempPath path) path path = some call.json) :
    Tracked path calls (files.rename (tempPath path) path) := by
  refine ⟨live, ?_⟩
  intro content holds
  rw [rename_source files _ path (temp_path_ne path)] at holds
  cases holds

theorem tracked_full (path : Path) (calls : List WriteCall) (files : Files) (call : WriteCall) (full : call.Full)
    (reached : call.crashed = false) : Tracked path (calls ++ [call]) (files.writeCheckpoint path call) := by
  obtain ⟨bytes, stored, long⟩ := full
  have moved : files.writeCheckpoint path call =
      (files.put (tempPath path) (some call.json)).rename (tempPath path) path := by
    simp [Files.writeCheckpoint, stored, reached, List.take_of_length_le long]
  rw [moved]
  apply tracked_renamed
  intro _
  exact ⟨call, unreplaced_last calls call, ⟨bytes, stored, long⟩, rename_target _ _ path _ (put_same files _ _)⟩

theorem tracked_unopened (path : Path) (calls : List WriteCall) (files : Files) (call : WriteCall)
    (tracked : Tracked path calls files) (fits : ∀ call ∈ calls, call.checkpoint.Fits)
    (unopened : call.write = .unopened) (reached : call.crashed = false)
    (whole : files (tempPath path) = none ∨ ∃ earlier ∈ calls, earlier.Full ∧ files (tempPath path) = some earlier.json) :
    Tracked path (calls ++ [call]) (files.writeCheckpoint path call) := by
  have failed : ¬ call.Succeeds := fun succeeds => unopened_not_full call unopened succeeds.1
  have renamed : files.writeCheckpoint path call = files.rename (tempPath path) path := by
    simp [Files.writeCheckpoint, unopened, reached]
  rw [renamed]
  apply tracked_renamed
  intro once
  cases whole with
  | inl missing =>
      rw [rename_missing files _ path missing]
      exact live_kept path calls files call tracked failed once
  | inr leftover =>
      obtain ⟨earlier, member, full, holds⟩ := leftover
      obtain ⟨other, unreplaced, otherFull, there⟩ := leftover_whole path calls files tracked fits earlier member full holds
      exact ⟨other, unreplaced_snoc calls other call unreplaced failed, otherFull, rename_target files _ path _ there⟩

-- Before the first success the live file may hold anything.
theorem tracked_early (path : Path) (calls : List WriteCall) (files : Files) (call : WriteCall)
    (none : ¬ ∃ earlier ∈ calls, earlier.Succeeds) (partly : ¬ call.Full) (reached : call.crashed = false) :
    Tracked path (calls ++ [call]) (files.writeCheckpoint path call) := by
  have failed : ¬ call.Succeeds := fun succeeds => partly succeeds.1
  simp only [Files.writeCheckpoint, reached, Bool.false_eq_true, if_false]
  apply tracked_renamed
  exact fun once => absurd (succeeded_before calls call failed once) none

theorem tracked_snoc (path : Path) (calls : List WriteCall) (files : Files) (call : WriteCall)
    (tracked : Tracked path calls files) (fits : ∀ call ∈ calls, call.checkpoint.Fits)
    (whole : call.MovesWhole path calls files) : Tracked path (calls ++ [call]) (files.writeCheckpoint path call) := by
  cases crashed : call.crashed with
  | true => exact tracked_crashed path calls files call tracked crashed
  | false =>
      by_cases full : call.Full
      · exact tracked_full path calls files call full crashed
      · by_cases earlier : ∃ earlier ∈ calls, earlier.Succeeds
        · have closed := ((whole earlier).resolve_left (by simp [crashed])).resolve_left full
          exact tracked_unopened path calls files call tracked fits closed.1 crashed closed.2
        · exact tracked_early path calls files call earlier full crashed

theorem run_tracked (path : Path) (files : Files) (calls : List WriteCall) (fits : ∀ call ∈ calls, call.checkpoint.Fits)
    (whole : ∀ before call after, calls = before ++ call :: after → call.MovesWhole path before (files.run path before)) :
    Tracked path calls (files.run path calls) := by
  induction calls using List.reverseRecOn with
  | nil => exact ⟨fun none => by simp at none, fun _ _ => Or.inl (fun _ none => absurd none List.not_mem_nil)⟩
  | append_singleton calls call ih =>
      have fitsBefore : ∀ other ∈ calls, other.checkpoint.Fits :=
        fun other member => fits other (List.mem_append_left _ member)
      have before := ih fitsBefore (fun before other after shape => whole before other (after ++ [call]) (by simp [shape]))
      rw [run_snoc]
      exact tracked_snoc path calls _ call before fitsBefore (whole calls call [] rfl)

-- Once a write has succeeded, the live file is the whole text of a checkpoint of
-- the run that no later successful write replaced.
theorem live_checkpoint_whole (path : Path) (files : Files) (calls : List WriteCall) (named : path ≠ [])
    (fits : ∀ call ∈ calls, call.checkpoint.Fits)
    (whole : ∀ before call after, calls = before ++ call :: after → call.MovesWhole path before (files.run path before))
    (once : ∃ call ∈ calls, call.Succeeds) :
    ∃ call, Unreplaced calls call ∧ call.Full ∧ loadCheckpoint (files.run path calls) path = (true, call.checkpoint) := by
  obtain ⟨call, unreplaced, full, holds⟩ := (run_tracked path files calls fits whole).live once
  refine ⟨call, unreplaced, full, ?_⟩
  rw [loadCheckpoint, if_neg named]
  simp only [holds]
  exact read_checkpoint _ (fits call (unreplaced_mem calls call unreplaced))

def sampleServer : Server := { setHash := false, committedUpto := 2 }

theorem sample_fits : (sampleServer.checkpoint .ascending).Fits := by
  have numbers : (sampleServer.checkpoint .ascending).committedUpto = 2 ∧ (sampleServer.checkpoint .ascending).eventCount = 0 := by decide +kernel
  have empty : (sampleServer.checkpoint .ascending).buffer = [] := by decide +kernel
  exact ⟨by rw [numbers.1]; decide, by rw [numbers.2]; decide, by simp [empty]⟩

-- A full write, then one that stores 20 bytes and may crash before its rename.
def sampleCalls (crashed : Bool) : List WriteCall :=
  [⟨sampleServer, .ascending, .stored 200, false⟩, ⟨sampleServer, .ascending, .stored 20, crashed⟩]

theorem live_checkpoint_whole_crash :
    ∃ call, Unreplaced (sampleCalls true) call ∧ call.Full ∧
      loadCheckpoint (Files.run (text "cp") (sampleCalls true) (fun _ => none)) (text "cp") =
        (true, call.checkpoint) := by
  have full : WriteCall.Full ⟨sampleServer, .ascending, .stored 200, false⟩ := ⟨200, rfl, by decide +kernel⟩
  apply live_checkpoint_whole
  case named => decide
  case fits =>
    intro call member
    simp only [sampleCalls, List.mem_cons, List.not_mem_nil, or_false] at member
    cases member with
    | inl first => exact first ▸ sample_fits
    | inr second => exact second ▸ sample_fits
  case whole =>
    intro before call after shape
    have member : call ∈ before ++ call :: after := by simp
    rw [← shape] at member
    simp only [sampleCalls, List.mem_cons, List.not_mem_nil, or_false] at member
    cases member with
    | inl first => exact fun _ => first ▸ Or.inr (Or.inl full)
    | inr second => exact fun _ => second ▸ Or.inl rfl
  case once => exact ⟨_, List.mem_cons_self, full, rfl⟩

-- Without the crash the 20 bytes go live.
theorem short_write_goes_live :
    (∃ call ∈ sampleCalls false, call.Succeeds) ∧
      (loadCheckpoint (Files.run (text "cp") (sampleCalls false) (fun _ => none)) (text "cp")).1 = false := by
  have full : WriteCall.Full ⟨sampleServer, .ascending, .stored 200, false⟩ := ⟨200, rfl, by decide +kernel⟩
  exact ⟨⟨_, List.mem_cons_self, full, rfl⟩, by decide +kernel⟩

end Color
