import Color.Library.Processes
import Color.Library.Transition

set_option autoImplicit false

namespace Color

variable {T : Type}

open Processes

-- Where a thread of run() is: about to take mu_ (or being woken, which comes to the
-- same), inside wait, inside fn(), or returned.
inductive Worker (T : Type) where
  | polling
  | waiting
  | executing (fn : T)
  | exited
deriving DecidableEq, Repr

namespace Worker

def waits : Worker T → Bool
  | .waiting => true
  | _ => false

def gone : Worker T → Bool
  | .exited => true
  | _ => false

def held : Worker T → List T
  | .executing fn => [fn]
  | _ => []

def polls : Worker T → Nat
  | .polling => 1
  | _ => 0

-- How many moves of its own a worker still has before it waits or returns.
def weight : Worker T → Nat
  | .polling => 1
  | .executing _ => 2
  | _ => 0

-- notify_all, seen by one thread.
def roused : Worker T → Worker T
  | .waiting => .polling
  | w => w

end Worker

-- workers, queue and stop are the members of ThreadPoolExecutor. owed counts the calls
-- of Schedule between their push and their notify_one; announced and joined say how far
-- the destructor got after stop_. The last three are the pool's history.
structure ThreadPool (T : Type) where
  workers : List (Worker T)
  queue : List T
  stop : Bool
  owed : Nat
  announced : Bool
  joined : Bool
  scheduled : List T
  started : List T
  finished : List T
deriving DecidableEq, Repr

inductive PoolAction (T : Type) where
  | schedule (fn : T)
  | notifyOne (woken : Option Nat)
  | poll (i : Nat)
  | wake (i : Nat)
  | finish (i : Nat)
  | setStop
  | notifyAll
  | join
deriving DecidableEq, Repr

namespace ThreadPool

def create (numThreads : Int) : ThreadPool T :=
  ⟨List.replicate numThreads.toNat .polling, [], false, 0, false, false, [], [], []⟩

def moved (p : ThreadPool T) (i : Nat) (w : Worker T) : ThreadPool T := { p with workers := p.workers.set i w }

-- Only a task may schedule once the destructor has begun.
def schedule (p : ThreadPool T) (fn : T) : Option (ThreadPool T) :=
  if p.stop && p.workers.all (fun w => w.held.isEmpty) then none
  else some { p with queue := p.queue ++ [fn], owed := p.owed + 1, scheduled := p.scheduled ++ [fn] }

-- Any one of the threads in wait; nothing happens when there is none.
def notifyOne (p : ThreadPool T) (woken : Option Nat) : Option (ThreadPool T) :=
  match p.owed with
  | 0 => none
  | owed + 1 =>
      match woken with
      | none => if p.workers.any Worker.waits then none else some { p with owed }
      | some i =>
          match p.workers[i]? with
          | some .waiting => some { p.moved i .polling with owed }
          | _ => none

-- One critical section of run(): the predicate of wait, then the return or the pop.
def poll (p : ThreadPool T) (i : Nat) : Option (ThreadPool T) :=
  match p.workers[i]? with
  | some .polling =>
      if p.stop || !p.queue.isEmpty then
        match p.queue with
        | [] => some (p.moved i .exited)
        | fn :: rest => some { p.moved i (.executing fn) with queue := rest, started := p.started ++ [fn] }
      else some (p.moved i .waiting)
  | _ => none

-- A wait may end without a notification.
def wake (p : ThreadPool T) (i : Nat) : Option (ThreadPool T) :=
  match p.workers[i]? with
  | some .waiting => some (p.moved i .polling)
  | _ => none

def finish (p : ThreadPool T) (i : Nat) : Option (ThreadPool T) :=
  match p.workers[i]? with
  | some (.executing fn) => some { p.moved i .polling with finished := p.finished ++ [fn] }
  | _ => none

-- ~ThreadPoolExecutor in three parts.
def setStop (p : ThreadPool T) : Option (ThreadPool T) :=
  if p.stop then none else some { p with stop := true }

def notifyAll (p : ThreadPool T) : Option (ThreadPool T) :=
  if p.stop && !p.announced then some { p with workers := p.workers.map Worker.roused, announced := true } else none

def join (p : ThreadPool T) : Option (ThreadPool T) :=
  if p.announced && !p.joined && p.workers.all Worker.gone then some { p with joined := true } else none

def step (p : ThreadPool T) : PoolAction T → Option (ThreadPool T)
  | .schedule fn => p.schedule fn
  | .notifyOne woken => p.notifyOne woken
  | .poll i => p.poll i
  | .wake i => p.wake i
  | .finish i => p.finish i
  | .setStop => p.setStop
  | .notifyAll => p.notifyAll
  | .join => p.join

end ThreadPool

def PoolAction.task : PoolAction T → Option T
  | .schedule fn => some fn
  | _ => none

-- ---- what each action does ----

theorem schedule_cases (p p' : ThreadPool T) (fn : T) (taken : p.schedule fn = some p') :
    (p.stop = true → ∃ w ∈ p.workers, w.gone = false) ∧
      p' = { p with queue := p.queue ++ [fn], owed := p.owed + 1, scheduled := p.scheduled ++ [fn] } := by
  unfold ThreadPool.schedule at taken
  split at taken
  · cases taken
  · rename_i busy
    refine ⟨fun stopped => ?_, (Option.some.inj taken).symm⟩
    rw [stopped, Bool.true_and, List.all_eq_true] at busy
    simp only [not_forall] at busy
    obtain ⟨w, member, held⟩ := busy
    refine ⟨w, member, ?_⟩
    cases w with
    | executing _ => rfl
    | polling => exact absurd rfl held
    | waiting => exact absurd rfl held
    | exited => exact absurd rfl held

theorem notify_one_cases (p p' : ThreadPool T) (woken : Option Nat) (taken : p.notifyOne woken = some p') :
    ∃ owed, p.owed = owed + 1 ∧ ((.waiting ∉ p.workers ∧ p' = { p with owed }) ∨
      ∃ i, p.workers[i]? = some .waiting ∧ p' = { p.moved i .polling with owed }) := by
  unfold ThreadPool.notifyOne at taken
  split at taken
  · cases taken
  · rename_i owed count
    refine ⟨owed, count, ?_⟩
    split at taken
    · split at taken
      · cases taken
      · rename_i nobody
        refine Or.inl ⟨fun member => nobody (List.any_eq_true.mpr ⟨.waiting, member, rfl⟩), ?_⟩
        exact (Option.some.inj taken).symm
    · split at taken
      · rename_i i _ here
        exact Or.inr ⟨i, here, (Option.some.inj taken).symm⟩
      · cases taken

theorem poll_cases (p p' : ThreadPool T) (i : Nat) (taken : p.poll i = some p') :
    p.workers[i]? = some .polling ∧
      ((p.queue = [] ∧ p.stop = true ∧ p' = p.moved i .exited) ∨
        (p.queue = [] ∧ p.stop = false ∧ p' = p.moved i .waiting) ∨
        ∃ fn rest, p.queue = fn :: rest ∧
          p' = { p.moved i (.executing fn) with queue := rest, started := p.started ++ [fn] }) := by
  unfold ThreadPool.poll at taken
  split at taken
  · rename_i here
    refine ⟨here, ?_⟩
    split at taken
    · rename_i ready
      split at taken
      · rename_i empty
        rw [empty, List.isEmpty_nil, Bool.not_true, Bool.or_false] at ready
        exact Or.inl ⟨empty, ready, (Option.some.inj taken).symm⟩
      · rename_i fn rest nonempty
        exact Or.inr (Or.inr ⟨fn, rest, nonempty, (Option.some.inj taken).symm⟩)
    · rename_i idle
      rw [Bool.not_eq_true, Bool.or_eq_false_iff, Bool.not_eq_false', List.isEmpty_iff] at idle
      exact Or.inr (Or.inl ⟨idle.2, idle.1, (Option.some.inj taken).symm⟩)
  · cases taken

theorem wake_cases (p p' : ThreadPool T) (i : Nat) (taken : p.wake i = some p') :
    p.workers[i]? = some .waiting ∧ p' = p.moved i .polling := by
  unfold ThreadPool.wake at taken
  split at taken
  · rename_i here
    exact ⟨here, (Option.some.inj taken).symm⟩
  · cases taken

theorem finish_cases (p p' : ThreadPool T) (i : Nat) (taken : p.finish i = some p') :
    ∃ fn, p.workers[i]? = some (.executing fn) ∧ p' = { p.moved i .polling with finished := p.finished ++ [fn] } := by
  unfold ThreadPool.finish at taken
  split at taken
  · rename_i fn here
    exact ⟨fn, here, (Option.some.inj taken).symm⟩
  · cases taken

theorem set_stop_cases (p p' : ThreadPool T) (taken : p.setStop = some p') :
    p.stop = false ∧ p' = { p with stop := true } := by
  unfold ThreadPool.setStop at taken
  split at taken
  · cases taken
  · rename_i running
    exact ⟨Bool.not_eq_true _ ▸ running, (Option.some.inj taken).symm⟩

theorem notify_all_cases (p p' : ThreadPool T) (taken : p.notifyAll = some p') :
    p.stop = true ∧ p.announced = false ∧ p' = { p with workers := p.workers.map Worker.roused, announced := true } := by
  unfold ThreadPool.notifyAll at taken
  split at taken
  · rename_i both
    rw [Bool.and_eq_true, Bool.not_eq_true'] at both
    exact ⟨both.1, both.2, (Option.some.inj taken).symm⟩
  · cases taken

theorem join_cases (p p' : ThreadPool T) (taken : p.join = some p') :
    p.announced = true ∧ p.joined = false ∧ (∀ w ∈ p.workers, w.gone = true) ∧ p' = { p with joined := true } := by
  unfold ThreadPool.join at taken
  split at taken
  · rename_i ready
    rw [Bool.and_eq_true, Bool.and_eq_true, Bool.not_eq_true', List.all_eq_true] at ready
    exact ⟨ready.1.1, ready.1.2, ready.2, (Option.some.inj taken).symm⟩
  · cases taken

-- ---- what holds after every action ----

-- wakeups is the one that notify_one keeps: whoever waits does so with a worker or a
-- notification on its way for every queued task.
structure ThreadPool.Sound (n : Nat) (p : ThreadPool T) : Prop where
  size : p.workers.length = n
  order : p.scheduled = p.started ++ p.queue
  ran : (p.finished ++ p.workers.flatMap Worker.held).Perm p.started
  wakeups : .waiting ∈ p.workers → p.queue.length ≤ total Worker.polls p.workers + p.owed
  told : p.announced = true → p.stop = true ∧ .waiting ∉ p.workers
  leaving : .exited ∈ p.workers → p.stop = true
  served : p.queue ≠ [] → n = 0 ∨ ∃ w ∈ p.workers, w.gone = false
  closed : p.joined = true → p.announced = true ∧ ∀ w ∈ p.workers, w.gone = true

theorem gone_iff (w : Worker T) : w.gone = true ↔ w = .exited := by
  cases w <;> simp [Worker.gone]

-- A worker that stays on board.
theorem present_after (procs : List (Worker T)) (i : Nat) (old new : Worker T) (here : procs[i]? = some old)
    (stays : new.gone = false) : ∃ w ∈ procs.set i new, w.gone = false :=
  ⟨new, new_mem_set procs i old new here, stays⟩

-- ---- the invariant ----

theorem create_sound (numThreads : Int) :
    ThreadPool.Sound numThreads.toNat (ThreadPool.create numThreads : ThreadPool T) := by
  have fresh (w : Worker T) (member : w ∈ List.replicate numThreads.toNat Worker.polling) : w = .polling :=
    List.eq_of_mem_replicate member
  have idle : (List.replicate numThreads.toNat (Worker.polling : Worker T)).flatMap Worker.held = [] :=
    List.flatMap_eq_nil_iff.mpr fun w member => by rw [fresh w member]; rfl
  refine ⟨List.length_replicate, rfl, ?_, fun member => ?_, fun told => ?_, fun member => ?_, fun queued => ?_,
    fun joined => ?_⟩
  · rw [ThreadPool.create, idle]
    exact .refl _
  · cases fresh _ member
  · cases told
  · cases fresh _ member
  · exact absurd rfl queued
  · cases joined

-- A worker that has not returned moves, and takes along what it likes of the queue.
theorem sound_moved (n : Nat) (p q : ThreadPool T) (i : Nat) (old new : Worker T) (sound : p.Sound n)
    (here : p.workers[i]? = some old) (aboard : old.gone = false) (workers : q.workers = p.workers.set i new)
    (flags : q.stop = p.stop ∧ q.announced = p.announced ∧ q.joined = p.joined)
    (order : q.scheduled = q.started ++ q.queue) (ran : (q.finished ++ q.workers.flatMap Worker.held).Perm q.started)
    (wakeups : .waiting ∈ q.workers → q.queue.length ≤ total Worker.polls q.workers + q.owed)
    (waits : new = .waiting → p.stop = false) (leaves : new = .exited → p.stop = true ∧ q.queue = []) : q.Sound n := by
  obtain ⟨stop, announced, joined⟩ := flags
  refine ⟨?_, order, ran, wakeups, fun told => ?_, fun member => ?_, fun queued => Or.inr ?_, fun closed => ?_⟩
  · rw [workers, List.length_set]
    exact sound.size
  · rw [announced] at told
    obtain ⟨stopped, nobody⟩ := sound.told told
    rw [stop, workers]
    refine ⟨stopped, fun member => ?_⟩
    rcases List.mem_or_eq_of_mem_set member with before | fresh
    · exact nobody before
    · have running := waits fresh.symm
      rw [stopped] at running
      cases running
  · rw [workers] at member
    rw [stop]
    rcases List.mem_or_eq_of_mem_set member with before | fresh
    · exact sound.leaving before
    · exact (leaves fresh.symm).1
  · rw [workers]
    apply present_after p.workers i old new here
    cases gone : new.gone with
    | false => rfl
    | true => exact absurd (leaves ((gone_iff new).mp gone)).2 queued
  · rw [joined] at closed
    have all := (sound.closed closed).2 old (List.mem_of_getElem? here)
    rw [aboard] at all
    cases all

theorem held_moved (procs : List (Worker T)) (i : Nat) (old new : Worker T) (here : procs[i]? = some old)
    (empty : old.held = []) : ((procs.set i new).flatMap Worker.held).Perm (procs.flatMap Worker.held ++ new.held) := by
  have change := held_set Worker.held procs i old new here
  rwa [empty, List.append_nil] at change

-- Neither waiting, returning nor being woken touches a task.
theorem ran_moved (p : ThreadPool T) (i : Nat) (old new : Worker T) (here : p.workers[i]? = some old)
    (empty : old.held = [] ∧ new.held = []) (ran : (p.finished ++ p.workers.flatMap Worker.held).Perm p.started) :
    (p.finished ++ (p.workers.set i new).flatMap Worker.held).Perm p.started := by
  have change := held_moved p.workers i old new here empty.1
  rw [empty.2, List.append_nil] at change
  exact (change.append_left _).trans ran

theorem schedule_sound (n : Nat) (p p' : ThreadPool T) (fn : T) (sound : p.Sound n)
    (taken : p.schedule fn = some p') : p'.Sound n := by
  obtain ⟨aboard, rfl⟩ := schedule_cases p p' fn taken
  refine ⟨sound.size, ?_, sound.ran, fun waits => ?_, sound.told, sound.leaving, fun _ => ?_, sound.closed⟩
  · rw [sound.order, List.append_assoc]
  · have before := sound.wakeups waits
    rw [List.length_append, List.length_singleton, ← Nat.add_assoc]
    exact Nat.succ_le_succ before
  · cases stopped : p.stop with
    | true => exact Or.inr (aboard stopped)
    | false =>
        -- nobody has returned yet, so anybody will do
        cases n with
        | zero => exact Or.inl rfl
        | succ n =>
            have somebody : 0 < p.workers.length := by
              rw [sound.size]
              exact Nat.succ_pos n
            obtain ⟨w, member⟩ := List.exists_mem_of_length_pos somebody
            refine Or.inr ⟨w, member, ?_⟩
            cases gone : w.gone with
            | false => rfl
            | true =>
                have left := sound.leaving ((gone_iff w).mp gone ▸ member)
                rw [stopped] at left
                cases left

theorem notify_one_sound (n : Nat) (p p' : ThreadPool T) (woken : Option Nat) (sound : p.Sound n)
    (taken : p.notifyOne woken = some p') : p'.Sound n := by
  obtain ⟨owed, count, ⟨nobody, rfl⟩ | ⟨i, here, rfl⟩⟩ := notify_one_cases p p' woken taken
  · exact ⟨sound.size, sound.order, sound.ran, fun waits => absurd waits nobody, sound.told, sound.leaving,
      sound.served, sound.closed⟩
  · refine sound_moved n p _ i .waiting .polling sound here rfl rfl ⟨rfl, rfl, rfl⟩ sound.order
      (ran_moved p i .waiting .polling here ⟨rfl, rfl⟩ sound.ran) (fun _ => ?_) (fun other => ?_) (fun other => ?_)
    · have before := sound.wakeups (List.mem_of_getElem? here)
      have change := total_set Worker.polls p.workers i .waiting .polling here
      simp only [Worker.polls, ThreadPool.moved] at change ⊢
      omega
    · cases other
    · cases other

theorem wake_sound (n : Nat) (p p' : ThreadPool T) (i : Nat) (sound : p.Sound n)
    (taken : p.wake i = some p') : p'.Sound n := by
  obtain ⟨here, rfl⟩ := wake_cases p p' i taken
  refine sound_moved n p _ i .waiting .polling sound here rfl rfl ⟨rfl, rfl, rfl⟩ sound.order
    (ran_moved p i .waiting .polling here ⟨rfl, rfl⟩ sound.ran) (fun _ => ?_) (fun other => ?_) (fun other => ?_)
  · have before := sound.wakeups (List.mem_of_getElem? here)
    have change := total_set Worker.polls p.workers i .waiting .polling here
    simp only [Worker.polls, ThreadPool.moved] at change ⊢
    omega
  · cases other
  · cases other

theorem poll_sound (n : Nat) (p p' : ThreadPool T) (i : Nat) (sound : p.Sound n)
    (taken : p.poll i = some p') : p'.Sound n := by
  obtain ⟨here, ⟨empty, stopped, rfl⟩ | ⟨empty, running, rfl⟩ | ⟨fn, rest, queued, rfl⟩⟩ := poll_cases p p' i taken
  · refine sound_moved n p _ i .polling .exited sound here rfl rfl ⟨rfl, rfl, rfl⟩ sound.order
      (ran_moved p i .polling .exited here ⟨rfl, rfl⟩ sound.ran) (fun _ => ?_) (fun other => ?_) (fun _ => ⟨stopped, empty⟩)
    · simp only [ThreadPool.moved, empty, List.length_nil]
      exact Nat.zero_le _
    · cases other
  · refine sound_moved n p _ i .polling .waiting sound here rfl rfl ⟨rfl, rfl, rfl⟩ sound.order
      (ran_moved p i .polling .waiting here ⟨rfl, rfl⟩ sound.ran) (fun _ => ?_) (fun _ => running) (fun other => ?_)
    · simp only [ThreadPool.moved, empty, List.length_nil]
      exact Nat.zero_le _
    · cases other
  · refine sound_moved n p _ i .polling (.executing fn) sound here rfl rfl ⟨rfl, rfl, rfl⟩ ?_ ?_ (fun waits => ?_)
      (fun other => ?_) (fun other => ?_)
    · show p.scheduled = p.started ++ [fn] ++ rest
      rw [sound.order, queued, List.append_assoc]
      rfl
    · have change := held_moved p.workers i .polling (.executing fn) here rfl
      have both := change.append_left p.finished
      rw [← List.append_assoc] at both
      exact both.trans (sound.ran.append_right [fn])
    · have waited : .waiting ∈ p.workers := by
        rcases List.mem_or_eq_of_mem_set waits with before | fresh
        · exact before
        · cases fresh
      have before := sound.wakeups waited
      have change := total_set Worker.polls p.workers i .polling (.executing fn) here
      rw [queued, List.length_cons] at before
      simp only [Worker.polls, ThreadPool.moved] at change ⊢
      omega
    · cases other
    · cases other

theorem finish_sound (n : Nat) (p p' : ThreadPool T) (i : Nat) (sound : p.Sound n)
    (taken : p.finish i = some p') : p'.Sound n := by
  obtain ⟨fn, here, rfl⟩ := finish_cases p p' i taken
  refine sound_moved n p _ i (.executing fn) .polling sound here rfl rfl ⟨rfl, rfl, rfl⟩ sound.order ?_ (fun waits => ?_)
    (fun other => ?_) (fun other => ?_)
  · have change := held_set Worker.held p.workers i (.executing fn) .polling here
    have back := (List.perm_append_comm.trans change).trans (List.Perm.of_eq (List.append_nil _))
    show (p.finished ++ [fn] ++ (p.workers.set i .polling).flatMap Worker.held).Perm p.started
    rw [List.append_assoc]
    exact (back.append_left p.finished).trans sound.ran
  · have waited : .waiting ∈ p.workers := by
      rcases List.mem_or_eq_of_mem_set waits with before | fresh
      · exact before
      · cases fresh
    have before := sound.wakeups waited
    have change := total_set Worker.polls p.workers i (.executing fn) .polling here
    simp only [Worker.polls, ThreadPool.moved] at change ⊢
    omega
  · cases other
  · cases other

theorem set_stop_sound (n : Nat) (p p' : ThreadPool T) (sound : p.Sound n) (taken : p.setStop = some p') : p'.Sound n := by
  obtain ⟨_, rfl⟩ := set_stop_cases p p' taken
  exact ⟨sound.size, sound.order, sound.ran, sound.wakeups, fun told => ⟨rfl, (sound.told told).2⟩, fun _ => rfl,
    sound.served, sound.closed⟩

theorem notify_all_sound (n : Nat) (p p' : ThreadPool T) (sound : p.Sound n) (taken : p.notifyAll = some p') :
    p'.Sound n := by
  obtain ⟨stopped, quiet, rfl⟩ := notify_all_cases p p' taken
  have nobody : .waiting ∉ p.workers.map Worker.roused := by
    intro member
    obtain ⟨w, _, same⟩ := List.mem_map.mp member
    cases w <;> cases same
  have kept : (p.workers.map Worker.roused).flatMap Worker.held = p.workers.flatMap Worker.held := by
    rw [List.flatMap_map]
    congr 1
    funext w
    cases w <;> rfl
  refine ⟨List.length_map _ |>.trans sound.size, sound.order, ?_, fun waits => absurd waits nobody,
    fun _ => ⟨stopped, nobody⟩, fun _ => stopped, fun queued => ?_, fun joined => ?_⟩
  · rw [kept]
    exact sound.ran
  · rcases sound.served queued with nobodyAtAll | ⟨w, member, aboard⟩
    · exact Or.inl nobodyAtAll
    · refine Or.inr ⟨w.roused, List.mem_map_of_mem member, ?_⟩
      cases w <;> first | rfl | cases aboard
  · have early := (sound.closed joined).1
    rw [quiet] at early
    cases early

theorem join_sound (n : Nat) (p p' : ThreadPool T) (sound : p.Sound n) (taken : p.join = some p') : p'.Sound n := by
  obtain ⟨told, _, all, rfl⟩ := join_cases p p' taken
  exact ⟨sound.size, sound.order, sound.ran, sound.wakeups, sound.told, sound.leaving, sound.served, fun _ => ⟨told, all⟩⟩

theorem step_sound (n : Nat) (p p' : ThreadPool T) (a : PoolAction T) (sound : p.Sound n)
    (taken : p.step a = some p') : p'.Sound n := by
  cases a with
  | schedule fn => exact schedule_sound n p p' fn sound taken
  | notifyOne woken => exact notify_one_sound n p p' woken sound taken
  | poll i => exact poll_sound n p p' i sound taken
  | wake i => exact wake_sound n p p' i sound taken
  | finish i => exact finish_sound n p p' i sound taken
  | setStop => exact set_stop_sound n p p' sound taken
  | notifyAll => exact notify_all_sound n p p' sound taken
  | join => exact join_sound n p p' sound taken

theorem pool_sound (numThreads : Int) (p : ThreadPool T) (actions : List (PoolAction T))
    (run : actions.foldlM ThreadPool.step (ThreadPool.create numThreads) = some p) : p.Sound numThreads.toNat :=
  Transition.Reach.invariant (ThreadPool.Sound numThreads.toNat) (create_sound numThreads)
    (fun s a s' sound _ taken => step_sound numThreads.toNat s s' a sound taken) (Transition.Reach.of_run actions .refl run)

-- ---- results ----

theorem scheduled_perm (n : Nat) (p : ThreadPool T) (sound : p.Sound n) (empty : p.queue = [])
    (idle : ∀ w ∈ p.workers, w.held = []) : p.finished.Perm p.scheduled := by
  have ran := sound.ran
  rw [List.flatMap_eq_nil_iff.mpr idle, List.append_nil] at ran
  have order := sound.order
  rw [empty, List.append_nil] at order
  rw [order]
  exact ran

theorem joined_empty (n : Nat) (p : ThreadPool T) (sound : p.Sound n) (someThread : 0 < n)
    (gone : ∀ w ∈ p.workers, w.gone = true) : p.queue = [] := by
  by_contra queued
  rcases sound.served queued with nobody | ⟨w, member, aboard⟩
  · omega
  · rw [gone w member] at aboard
    cases aboard

theorem held_of_gone (w : Worker T) (gone : w.gone = true) : w.held = [] := by
  rw [(gone_iff w).mp gone]
  rfl

theorem step_scheduled (p p' : ThreadPool T) (a : PoolAction T) (taken : p.step a = some p') :
    p'.scheduled = p.scheduled ++ a.task.toList := by
  cases a with
  | schedule fn =>
      obtain ⟨_, rfl⟩ := schedule_cases p p' fn taken
      rfl
  | notifyOne woken =>
      obtain ⟨_, _, ⟨_, rfl⟩ | ⟨_, _, rfl⟩⟩ := notify_one_cases p p' woken taken
      · exact (List.append_nil _).symm
      · exact (List.append_nil _).symm
  | poll i =>
      obtain ⟨_, ⟨_, _, rfl⟩ | ⟨_, _, rfl⟩ | ⟨_, _, _, rfl⟩⟩ := poll_cases p p' i taken
      · exact (List.append_nil _).symm
      · exact (List.append_nil _).symm
      · exact (List.append_nil _).symm
  | wake i =>
      obtain ⟨_, rfl⟩ := wake_cases p p' i taken
      exact (List.append_nil _).symm
  | finish i =>
      obtain ⟨_, _, rfl⟩ := finish_cases p p' i taken
      exact (List.append_nil _).symm
  | setStop =>
      obtain ⟨_, rfl⟩ := set_stop_cases p p' taken
      exact (List.append_nil _).symm
  | notifyAll =>
      obtain ⟨_, _, rfl⟩ := notify_all_cases p p' taken
      exact (List.append_nil _).symm
  | join =>
      obtain ⟨_, _, _, rfl⟩ := join_cases p p' taken
      exact (List.append_nil _).symm

theorem run_scheduled (actions : List (PoolAction T)) (p p' : ThreadPool T)
    (run : actions.foldlM ThreadPool.step p = some p') : p'.scheduled = p.scheduled ++ actions.filterMap PoolAction.task := by
  induction actions generalizing p with
  | nil =>
      cases run
      exact (List.append_nil _).symm
  | cons a rest ih =>
      rw [List.foldlM_cons] at run
      obtain ⟨t, taken, onward⟩ := Option.bind_eq_some_iff.mp run
      rw [ih t onward, step_scheduled p t a taken, List.append_assoc]
      congr 1
      cases a.task.eq_none_or_eq_some with
      | inl idle => rw [List.filterMap_cons_none idle, idle]; rfl
      | inr asked =>
          obtain ⟨fn, asked⟩ := asked
          rw [List.filterMap_cons_some asked, asked]
          rfl

theorem pool_runs_each_task_once (numThreads : Int) (p : ThreadPool T) (actions : List (PoolAction T))
    (someThread : 0 < numThreads) (run : actions.foldlM ThreadPool.step (ThreadPool.create numThreads) = some p) :
    p.started ++ p.queue = actions.filterMap PoolAction.task ∧
      (p.finished ++ p.workers.flatMap Worker.held).Perm p.started ∧
      (p.joined = true → p.queue = [] ∧ p.finished.Perm (actions.filterMap PoolAction.task)) := by
  have sound := pool_sound numThreads p actions run
  have asked : p.scheduled = actions.filterMap PoolAction.task := run_scheduled actions _ p run
  refine ⟨sound.order.symm.trans asked, sound.ran, fun joined => ?_⟩
  have gone := (sound.closed joined).2
  have empty := joined_empty numThreads.toNat p sound (by omega) gone
  have all := scheduled_perm numThreads.toNat p sound empty fun w member => held_of_gone w (gone w member)
  rw [asked] at all
  exact ⟨empty, all⟩

-- Two threads and three tasks, the destructor called while two of them run.
theorem pool_runs_each_task_once_of_three :
    ∃ p : ThreadPool Nat, p.joined = true ∧ p.queue = [] ∧ p.finished.Perm [7, 8, 9] := by
  obtain ⟨p, run, joined⟩ : ∃ p : ThreadPool Nat, ([.poll 0, .schedule 7, .notifyOne (some 0), .poll 0, .schedule 8, .poll 1,
      .notifyOne none, .schedule 9, .notifyOne none, .setStop, .finish 1, .notifyAll, .poll 1, .finish 0, .finish 1, .poll 0,
      .poll 1, .join] : List (PoolAction Nat)).foldlM ThreadPool.step (ThreadPool.create 2) = some p ∧ p.joined = true :=
    ⟨_, rfl, rfl⟩
  have all := pool_runs_each_task_once 2 p _ (by decide) run
  exact ⟨p, joined, all.2.2 joined⟩

-- What the pool does by itself; the rest is asked of it from outside, or a wakeup for no reason.
def PoolAction.own : PoolAction T → Bool
  | .schedule _ => false
  | .wake _ => false
  | .setStop => false
  | _ => true

def PoolAction.gain : PoolAction T → Nat
  | .schedule _ => 4
  | .wake _ => 1
  | _ => 0

-- What the destructor still has to do.
def ThreadPool.closing (p : ThreadPool T) : Nat :=
  (if p.announced then 0 else p.workers.length + 1) + if p.joined then 0 else 1

def ThreadPool.pending (p : ThreadPool T) : Nat :=
  2 * p.queue.length + 2 * p.owed + total Worker.weight p.workers + p.closing

theorem weight_roused (procs : List (Worker T)) :
    total Worker.weight (procs.map Worker.roused) ≤ total Worker.weight procs + procs.length := by
  have step := total_map_le Worker.weight (fun _ => 1) Worker.roused procs fun w => by
    cases w <;> simp [Worker.roused, Worker.weight]
  rwa [total_const, Nat.mul_one] at step

theorem pending_moved (p q : ThreadPool T) (i : Nat) (old new : Worker T) (here : p.workers[i]? = some old)
    (workers : q.workers = p.workers.set i new) (flags : q.announced = p.announced ∧ q.joined = p.joined) :
    q.pending + (2 * p.queue.length + 2 * p.owed + old.weight) = p.pending + (2 * q.queue.length + 2 * q.owed + new.weight) := by
  have change := total_set Worker.weight p.workers i old new here
  have closing : q.closing = p.closing := by
    rw [ThreadPool.closing, flags.1, flags.2, workers, List.length_set]
    rfl
  rw [ThreadPool.pending, ThreadPool.pending, closing, workers]
  omega

theorem pending_step (p p' : ThreadPool T) (a : PoolAction T) (taken : p.step a = some p') :
    p'.pending + (if a.own then 1 else 0) ≤ p.pending + a.gain := by
  cases a with
  | schedule fn =>
      obtain ⟨_, rfl⟩ := schedule_cases p p' fn taken
      show 2 * (p.queue ++ [fn]).length + 2 * (p.owed + 1) + total Worker.weight p.workers + p.closing + 0 ≤ p.pending + 4
      rw [ThreadPool.pending, List.length_append, List.length_singleton]
      omega
  | notifyOne woken =>
      obtain ⟨owed, count, ⟨nobody, rfl⟩ | ⟨i, here, rfl⟩⟩ := notify_one_cases p p' woken taken
      · show 2 * p.queue.length + 2 * owed + total Worker.weight p.workers + p.closing + 1 ≤ p.pending + 0
        rw [ThreadPool.pending]
        omega
      · have change := pending_moved p { p.moved i .polling with owed } i .waiting .polling here rfl ⟨rfl, rfl⟩
        simp only [Worker.weight, ThreadPool.moved, PoolAction.own, PoolAction.gain, if_true] at change ⊢
        omega
  | poll i =>
      obtain ⟨here, ⟨_, _, rfl⟩ | ⟨_, _, rfl⟩ | ⟨fn, rest, queued, rfl⟩⟩ := poll_cases p p' i taken
      · have change := pending_moved p (p.moved i .exited) i .polling .exited here rfl ⟨rfl, rfl⟩
        simp only [Worker.weight, ThreadPool.moved, PoolAction.own, PoolAction.gain, if_true] at change ⊢
        omega
      · have change := pending_moved p (p.moved i .waiting) i .polling .waiting here rfl ⟨rfl, rfl⟩
        simp only [Worker.weight, ThreadPool.moved, PoolAction.own, PoolAction.gain, if_true] at change ⊢
        omega
      · have change := pending_moved p { p.moved i (.executing fn) with queue := rest, started := p.started ++ [fn] } i
          .polling (.executing fn) here rfl ⟨rfl, rfl⟩
        simp only [Worker.weight, ThreadPool.moved, PoolAction.own, PoolAction.gain, queued, List.length_cons, if_true]
          at change ⊢
        omega
  | wake i =>
      obtain ⟨here, rfl⟩ := wake_cases p p' i taken
      have change := pending_moved p (p.moved i .polling) i .waiting .polling here rfl ⟨rfl, rfl⟩
      simp only [Worker.weight, ThreadPool.moved, PoolAction.own, PoolAction.gain, Bool.false_eq_true, if_false] at change ⊢
      omega
  | finish i =>
      obtain ⟨fn, here, rfl⟩ := finish_cases p p' i taken
      have change := pending_moved p { p.moved i .polling with finished := p.finished ++ [fn] } i (.executing fn) .polling
        here rfl ⟨rfl, rfl⟩
      simp only [Worker.weight, ThreadPool.moved, PoolAction.own, PoolAction.gain, if_true] at change ⊢
      omega
  | setStop =>
      obtain ⟨_, rfl⟩ := set_stop_cases p p' taken
      exact Nat.le_refl _
  | notifyAll =>
      obtain ⟨_, quiet, rfl⟩ := notify_all_cases p p' taken
      have roused := weight_roused p.workers
      simp only [ThreadPool.pending, ThreadPool.closing, PoolAction.own, PoolAction.gain, quiet, if_true,
        Bool.false_eq_true, if_false]
      omega
  | join =>
      obtain ⟨_, unjoined, _, rfl⟩ := join_cases p p' taken
      simp only [ThreadPool.pending, ThreadPool.closing, PoolAction.own, PoolAction.gain, unjoined, if_true,
        Bool.false_eq_true, if_false]
      omega

-- ---- a pool that can do nothing more by itself ----

theorem poll_possible (p : ThreadPool T) (i : Nat) (here : p.workers[i]? = some .polling) : p.poll i ≠ none := by
  unfold ThreadPool.poll
  rw [here]
  dsimp only
  split
  · split
    · exact Option.some_ne_none _
    · exact Option.some_ne_none _
  · exact Option.some_ne_none _

theorem finish_possible (p : ThreadPool T) (i : Nat) (fn : T) (here : p.workers[i]? = some (.executing fn)) :
    p.finish i ≠ none := by
  unfold ThreadPool.finish
  rw [here]
  exact Option.some_ne_none _

theorem notify_one_possible (p : ThreadPool T) (owed : p.owed ≠ 0) : ∃ woken, p.notifyOne woken ≠ none := by
  obtain ⟨n, count⟩ := Nat.exists_eq_succ_of_ne_zero owed
  by_cases waits : .waiting ∈ p.workers
  · obtain ⟨i, here⟩ := List.mem_iff_getElem?.mp waits
    refine ⟨some i, ?_⟩
    unfold ThreadPool.notifyOne
    rw [count]
    dsimp only [Nat.succ_eq_add_one]
    rw [here]
    exact Option.some_ne_none _
  · refine ⟨Option.none, ?_⟩
    unfold ThreadPool.notifyOne
    rw [count]
    dsimp only [Nat.succ_eq_add_one]
    rw [if_neg]
    · exact Option.some_ne_none _
    · intro found
      obtain ⟨w, member, waiting⟩ := List.any_eq_true.mp found
      cases w with
      | waiting => exact waits member
      | polling => cases waiting
      | executing _ => cases waiting
      | exited => cases waiting

def ThreadPool.Stuck (p : ThreadPool T) : Prop := ∀ a : PoolAction T, a.own = true → p.step a = none

theorem stuck_workers (p : ThreadPool T) (stuck : p.Stuck) (w : Worker T) (member : w ∈ p.workers) :
    w = .waiting ∨ w = .exited := by
  obtain ⟨i, here⟩ := List.mem_iff_getElem?.mp member
  cases w with
  | polling => exact absurd (stuck (.poll i) rfl) (poll_possible p i here)
  | waiting => exact Or.inl rfl
  | executing fn => exact absurd (stuck (.finish i) rfl) (finish_possible p i fn here)
  | exited => exact Or.inr rfl

theorem stuck_owed (p : ThreadPool T) (stuck : p.Stuck) : p.owed = 0 := by
  by_contra owed
  obtain ⟨woken, possible⟩ := notify_one_possible p owed
  exact possible (stuck (.notifyOne woken) rfl)

theorem stuck_announced (p : ThreadPool T) (stuck : p.Stuck) (stopped : p.stop = true) : p.announced = true := by
  cases told : p.announced with
  | true => rfl
  | false =>
      have blocked : p.notifyAll = none := stuck .notifyAll rfl
      rw [ThreadPool.notifyAll, stopped, told] at blocked
      cases blocked

theorem stuck_gone (n : Nat) (p : ThreadPool T) (sound : p.Sound n) (stuck : p.Stuck) (stopped : p.stop = true) :
    ∀ w ∈ p.workers, w.gone = true := by
  intro w member
  rcases stuck_workers p stuck w member with waiting | exited
  · exact absurd (waiting ▸ member) (sound.told (stuck_announced p stuck stopped)).2
  · rw [exited]
    rfl

theorem stuck_joined (n : Nat) (p : ThreadPool T) (sound : p.Sound n) (stuck : p.Stuck) (stopped : p.stop = true) :
    p.joined = true := by
  cases joined : p.joined with
  | true => rfl
  | false =>
      have blocked : p.join = none := stuck .join rfl
      have all := List.all_eq_true.mpr (stuck_gone n p sound stuck stopped)
      rw [ThreadPool.join, stuck_announced p stuck stopped, joined, all] at blocked
      cases blocked

theorem stuck_empty (n : Nat) (p : ThreadPool T) (sound : p.Sound n) (someThread : 0 < n) (stuck : p.Stuck) :
    p.queue = [] := by
  cases stopped : p.stop with
  | true => exact joined_empty n p sound someThread (stuck_gone n p sound stuck stopped)
  | false =>
      obtain ⟨w, member⟩ := List.exists_mem_of_length_pos (sound.size.symm ▸ someThread : 0 < p.workers.length)
      rcases stuck_workers p stuck w member with waiting | exited
      · have bound := sound.wakeups (waiting ▸ member)
        have asleep : total Worker.polls p.workers = 0 := by
          apply (total_zero_iff Worker.polls p.workers).mpr
          intro other inside
          rcases stuck_workers p stuck other inside with rfl | rfl
          · rfl
          · rfl
        rw [asleep, stuck_owed p stuck] at bound
        exact List.eq_nil_of_length_eq_zero (Nat.le_zero.mp bound)
      · have left := sound.leaving (exited ▸ member)
        rw [stopped] at left
        cases left

theorem own_count (actions : List (PoolAction T)) :
    total (fun a => if a.own then 1 else 0) actions = actions.countP PoolAction.own := by
  induction actions with
  | nil => rfl
  | cons a rest ih =>
      rw [List.countP_cons, total, ih]
      exact Nat.add_comm _ _

theorem created_pool_pending (numThreads : Int) :
    (ThreadPool.create numThreads : ThreadPool T).pending = 2 * numThreads.toNat + 2 := by
  have polling : total Worker.weight (List.replicate numThreads.toNat (Worker.polling : Worker T)) = numThreads.toNat := by
    induction numThreads.toNat with
    | zero => rfl
    | succ n ih =>
        rw [List.replicate_succ, total, ih]
        exact Nat.add_comm 1 n
  rw [ThreadPool.pending, ThreadPool.closing]
  simp only [ThreadPool.create, polling, List.length_replicate, List.length_nil, Bool.false_eq_true, if_false]
  omega

-- gain is what its environment may still ask for; with nothing of its own left to do, the
-- pool owes nobody anything.
theorem pool_work_ends (numThreads : Int) (p : ThreadPool T) (actions : List (PoolAction T)) (someThread : 0 < numThreads)
    (run : actions.foldlM ThreadPool.step (ThreadPool.create numThreads) = some p) :
    actions.countP PoolAction.own ≤ 2 * numThreads.toNat + 2 + total PoolAction.gain actions ∧
      (.waiting ∈ p.workers → p.queue.length ≤ total Worker.polls p.workers + p.owed) ∧
      (p.Stuck → p.queue = [] ∧ p.finished.Perm (actions.filterMap PoolAction.task) ∧
        (p.stop = true → p.joined = true)) := by
  have sound := pool_sound numThreads p actions run
  have spent := run_potential ThreadPool.step ThreadPool.pending (fun a => if a.own then 1 else 0) PoolAction.gain
    (fun s a s' taken => pending_step s s' a taken) actions _ p run
  rw [own_count, created_pool_pending] at spent
  refine ⟨by omega, sound.wakeups, fun stuck => ?_⟩
  have empty := stuck_empty numThreads.toNat p sound (by omega) stuck
  have asked : p.scheduled = actions.filterMap PoolAction.task := run_scheduled actions _ p run
  rw [← asked]
  refine ⟨empty, scheduled_perm numThreads.toNat p sound empty fun w member => ?_, stuck_joined numThreads.toNat p sound stuck⟩
  rcases stuck_workers p stuck w member with rfl | rfl
  · rfl
  · rfl

theorem pool_work_ends_asleep :
    ∃ p : ThreadPool Nat, p.workers = [.waiting, .waiting] ∧ p.finished.Perm [7] := by
  obtain ⟨p, run, asleep, owed⟩ : ∃ p : ThreadPool Nat, ([.poll 0, .schedule 7, .poll 1, .notifyOne (some 0), .poll 0, .finish 1,
      .poll 1] : List (PoolAction Nat)).foldlM ThreadPool.step (ThreadPool.create 2) = some p ∧
      p.workers = [.waiting, .waiting] ∧ p.owed = 0 ∧ p.stop = false :=
    ⟨_, rfl, rfl, rfl, rfl⟩
  have stuck : p.Stuck := by
    intro a own
    cases a with
    | schedule fn => cases own
    | notifyOne woken => simp [ThreadPool.step, ThreadPool.notifyOne, owed.1]
    | poll i =>
        rcases i with _ | _ | i <;> simp [ThreadPool.step, ThreadPool.poll, asleep]
    | wake i => cases own
    | finish i =>
        rcases i with _ | _ | i <;> simp [ThreadPool.step, ThreadPool.finish, asleep]
    | setStop => cases own
    | notifyAll => simp [ThreadPool.step, ThreadPool.notifyAll, owed.2]
    | join => simp [ThreadPool.step, ThreadPool.join, asleep, Worker.gone]
  exact ⟨p, asleep, ((pool_work_ends 2 p _ (by decide) run).2.2 stuck).2.1⟩

end Color
