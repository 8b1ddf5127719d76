/-
Module: AetherFlow.System.Guard
Purpose: The deadlock guard of `core/src/system.rs` in a whole process: any number of `System`s, their
  core threads, the other threads, the actors placed on the cores and the `ActorRef`s to them,
  wherever they were cloned to. The guard compares the calling thread's `CURRENT_CORE` with the number
  in the handle; both are numbers within a `System` and neither says which `System` is meant.
Trusted boundary: human-reviewed transcription of `System::with_policy`, `System::install`, the head of
  `core_loop`, `would_deadlock_calling_core` and the heads of `ask`, `ask_timeout`, `send_blocking`
Main exports: Process, Process.step, Process.wouldDeadlockCallingCore, GuardExact,
  SameNumberElsewhere
-/
import Mathlib.Data.List.Basic
import AetherFlow.Ask.Reply
import AetherFlow.Lib.Transition

namespace AetherFlow.System

open Transition

/-! ### The process -/

inductive ThreadPhase where
  /-- The thread was spawned and has not run yet. -/
  | spawned
  | running
  | exited
deriving DecidableEq

structure Thread where
  /-- The argument of `core_loop`, on a core thread. -/
  coreIndex : Option Nat
  phase : ThreadPhase
  /-- The thread-local `CURRENT_CORE`. -/
  currentCore : Option Nat
deriving DecidableEq

/-- A `System`: the threads behind its `CoreHandle`s, by core number. -/
structure Cores where
  threads : List Nat
  alive : Bool
deriving DecidableEq

/-- `ActorRef`: which actor's mailbox it sends to, and the core number `install` put into it. -/
structure ActorRef where
  actor : Nat
  core : Nat
deriving DecidableEq

/-- Threads, `System`s and actors are numbered in the order they are made. -/
structure Process where
  threads : List Thread
  systems : List Cores
  /-- The thread whose control channel each actor was sent to. Actors never move between cores. -/
  actors : List Nat
  /-- Every `ActorRef` there is, on whatever thread or inside whatever actor or message. -/
  handles : List ActorRef
deriving DecidableEq

/-- What a thread of the process does. -/
inductive ProcessAct where
  /-- `thread::spawn` of code that is not a core. -/
  | spawnThread
  /-- `System::with_policy(n, ..)`. -/
  | withPolicy (n : Nat)
  /-- A spawned thread starts to run; a core thread enters `core_loop` and sets `CURRENT_CORE`. -/
  | enter (thread : Nat)
  /-- `System::install`, behind every `spawn` function. -/
  | install (system core : Nat)
  | clone (handle : Nat)
  | exit (thread : Nat)
  /-- `System::drop` has begun: nothing is installed on it any more. -/
  | dropSystem (system : Nat)

namespace Process

/-- The main thread alone. -/
def start : Process where
  threads := [{ coreIndex := none, phase := .running, currentCore := none }]
  systems := []
  actors := []
  handles := []

/-- The thread behind core number `core` of a `System`. -/
def coreThread (p : Process) (system core : Nat) : Option Nat :=
  (p.systems[system]?).bind (·.threads[core]?)

def setThread (p : Process) (t : Nat) (thread : Thread) : Process :=
  { p with threads := p.threads.set t thread }

/-- One action of the process. `with_policy` asserts `n >= 1` and `install` asserts that the core is in
    range; the control channel of a core of a live `System` always has its receiver. -/
def step (p : Process) : ProcessAct → Option Process
  | .spawnThread =>
      some { p with threads := p.threads ++ [⟨none, .spawned, none⟩] }
  | .withPolicy n =>
      if 1 ≤ n then
        some { p with
          threads := p.threads ++ (List.range n).map (⟨some ·, .spawned, none⟩)
          systems := p.systems ++ [⟨(List.range n).map (p.threads.length + ·), true⟩] }
      else none
  | .enter t => do
      let thread ← p.threads[t]?
      if thread.phase = .spawned then
        some (p.setThread t { thread with phase := .running, currentCore := thread.coreIndex })
      else none
  | .install system core => do
      let cores ← p.systems[system]?
      let t ← cores.threads[core]?
      if cores.alive then
        some { p with
          actors := p.actors ++ [t]
          handles := p.handles ++ [⟨p.actors.length, core⟩] }
      else none
  | .clone h => do
      let handle ← p.handles[h]?
      some { p with handles := p.handles ++ [handle] }
  | .exit t => do
      let thread ← p.threads[t]?
      if thread.phase = .running then
        some (p.setThread t { thread with phase := .exited })
      else none
  | .dropSystem system => do
      let cores ← p.systems[system]?
      some { p with systems := p.systems.set system { cores with alive := false } }

/-- The thread runs code that may call anything. -/
def Running (p : Process) (t : Nat) : Prop := ∃ thread, p.threads[t]? = some thread ∧
  thread.phase = .running

/-- `current_core`, on thread `t`. -/
def currentCore (p : Process) (t : Nat) : Option Nat := (p.threads[t]?).bind (·.currentCore)

/-- `ActorRef::would_deadlock_calling_core`, called on thread `t`. -/
def wouldDeadlockCallingCore (p : Process) (t : Nat) (r : ActorRef) : Bool :=
  p.currentCore t = some r.core

/-- The head of `ask` and of `ask_timeout`: an error returned before anything is built or sent. -/
def askGuard (p : Process) (t : Nat) (r : ActorRef) : Except Ask.AskError Unit :=
  if p.wouldDeadlockCallingCore t r then .error .wouldBlockCallingCore else .ok ()

/-- The assertion at the head of `send_blocking`: a panic with its message, or the retry loop. -/
def sendBlockingGuard (p : Process) (t : Nat) (r : ActorRef) : Except String Unit :=
  if p.wouldDeadlockCallingCore t r then
    .error "send_blocking from within a handler to a same-core actor would deadlock; use try_send"
  else .ok ()

/-- Thread `t` is the one that runs the actor behind `r`. -/
def RunsTarget (p : Process) (t : Nat) (r : ActorRef) : Prop := p.actors[r.actor]? = some t

end Process

/-- The guard and both of its users tell exactly whether the caller is the target's own thread. -/
structure GuardExact (p : Process) (t : Nat) (r : ActorRef) : Prop where
  guard : p.wouldDeadlockCallingCore t r = true ↔ p.RunsTarget t r
  ask : p.askGuard t r = .error .wouldBlockCallingCore ↔ p.RunsTarget t r
  send_blocking : (∃ message, p.sendBlockingGuard t r = .error message) ↔ p.RunsTarget t r

/-- The caller is a core thread of one `System`, and the target lives on the core of the same number
    of another. -/
def SameNumberElsewhere (p : Process) (t : Nat) (r : ActorRef) : Prop :=
  ∃ i system other t', system ≠ other ∧ p.coreThread system i = some t ∧
    p.coreThread other i = some t' ∧ p.RunsTarget t' r

/-! ### What the numbers mean -/

/-- An entry of a list that was appended to is an old entry or an appended one. -/
theorem getElem?_append_eq_some_iff {α : Type*} {xs ys : List α} {i : Nat} {x : α} :
    (xs ++ ys)[i]? = some x ↔
      xs[i]? = some x ∨ xs.length ≤ i ∧ ys[i - xs.length]? = some x := by
  by_cases inside : i < xs.length
  · rw [List.getElem?_append_left inside, or_iff_left fun beyond => absurd beyond.1 (by omega)]
  · have beyond : xs.length ≤ i := by omega
    rw [List.getElem?_append_right beyond, List.getElem?_eq_none_iff.2 beyond]
    simp [beyond]

/-- The books of a process: a thread is a core of at most one `System`, under the number it was spawned
    with; a running thread's `CURRENT_CORE` is that number; a handle carries the number of the core
    its actor is on. -/
structure Process.Wf (p : Process) : Prop where
  core_number : ∀ system i t, p.coreThread system i = some t →
    ∃ thread, p.threads[t]? = some thread ∧ thread.coreIndex = some i
  core_owner : ∀ (t : Nat) (thread : Thread) (i : Nat), p.threads[t]? = some thread → thread.coreIndex = some i →
    ∃ system, p.coreThread system i = some t
  one_system : ∀ system other i j t, p.coreThread system i = some t →
    p.coreThread other j = some t → system = other
  current : ∀ (t : Nat) (thread : Thread), p.threads[t]? = some thread → thread.phase = .running →
    thread.currentCore = thread.coreIndex
  placed : ∀ r ∈ p.handles, ∃ system t, p.coreThread system r.core = some t ∧ p.RunsTarget t r

namespace Process

variable {p : Process}

theorem wf_start : start.Wf where
  core_number system i t found := by simp [coreThread, start] at found
  core_owner t thread i found core := by
    rw [start, List.getElem?_singleton] at found
    split at found
    · cases found
      cases core
    · cases found
  one_system system other i j t found := by simp [coreThread, start] at found
  current t thread found _ := by
    rw [start, List.getElem?_singleton] at found
    split at found
    · cases found
      rfl
    · cases found
  placed r member := by cases member

/-- Replacing a thread by one with the same `core_loop` argument keeps the books, if the new one's
    `CURRENT_CORE` is right. -/
theorem Wf.setThread {t : Nat} {thread thread' : Thread} (wf : p.Wf)
    (found : p.threads[t]? = some thread) (index : thread'.coreIndex = thread.coreIndex)
    (current : thread'.phase = .running → thread'.currentCore = thread'.coreIndex) :
    (p.setThread t thread').Wf := by
  have there : t < p.threads.length := (List.getElem?_eq_some_iff.1 found).1
  have same : ∀ u, (p.setThread t thread').threads[u]? =
      if t = u then some thread' else p.threads[u]? := by
    intro u
    rw [Process.setThread, List.getElem?_set]
    by_cases here : t = u
    · subst here
      simp [there]
    · simp [here]
  refine ⟨?_, ?_, wf.one_system, ?_, wf.placed⟩
  · intro system i u core
    obtain ⟨old, oldFound, number⟩ := wf.core_number system i u core
    rw [same u]
    by_cases here : t = u
    · subst here
      rw [found] at oldFound
      cases oldFound
      exact ⟨thread', if_pos rfl, index.trans number⟩
    · exact ⟨old, by rw [if_neg here]; exact oldFound, number⟩
  · intro u new i newFound number
    rw [same u] at newFound
    by_cases here : t = u
    · subst here
      rw [if_pos rfl] at newFound
      cases newFound
      exact wf.core_owner t thread i found (index.symm.trans number)
    · rw [if_neg here] at newFound
      exact wf.core_owner u new i newFound number
  · intro u new newFound running
    rw [same u] at newFound
    by_cases here : t = u
    · subst here
      rw [if_pos rfl] at newFound
      cases newFound
      exact current running
    · rw [if_neg here] at newFound
      exact wf.current u new newFound running

/-- A thread that is no core thread changes nothing for the others. -/
theorem Wf.spawnThread (wf : p.Wf) :
    Wf { p with threads := p.threads ++ [⟨none, .spawned, none⟩] } := by
  have old : ∀ (t : Nat) (thread : Thread),
      (p.threads ++ [⟨none, .spawned, none⟩])[t]? = some thread →
      p.threads[t]? = some thread ∨ thread = ⟨none, .spawned, none⟩ := by
    intro t thread found
    rcases getElem?_append_eq_some_iff.1 found with found | ⟨_, found⟩
    · exact .inl found
    · rw [List.getElem?_singleton] at found
      split at found
      · exact .inr (Option.some.inj found).symm
      · cases found
  refine ⟨?_, ?_, wf.one_system, ?_, wf.placed⟩
  · intro system i t core
    obtain ⟨thread, found, number⟩ := wf.core_number system i t core
    exact ⟨thread, getElem?_append_eq_some_iff.2 (.inl found), number⟩
  · intro t thread i found number
    rcases old t thread found with found | rfl
    · exact wf.core_owner t thread i found number
    · cases number
  · intro t thread found running
    rcases old t thread found with found | rfl
    · exact wf.current t thread found running
    · cases running

/-- The cores of the process after `with_policy`: those there were, and the new threads in order. -/
theorem coreThread_withPolicy {n system i t : Nat} {threads : List Thread} :
    coreThread { p with
        threads := threads
        systems := p.systems ++ [⟨(List.range n).map (p.threads.length + ·), true⟩] } system i =
      some t ↔
    p.coreThread system i = some t ∨
      system = p.systems.length ∧ i < n ∧ t = p.threads.length + i := by
  rw [coreThread, coreThread, Option.bind_eq_some_iff, Option.bind_eq_some_iff]
  constructor
  · rintro ⟨cores, found, core⟩
    rcases getElem?_append_eq_some_iff.1 found with found | ⟨beyond, found⟩
    · exact .inl ⟨cores, found, core⟩
    · rw [List.getElem?_singleton] at found
      split at found
      · cases found
        obtain ⟨small, rfl⟩ : i < n ∧ p.threads.length + i = t := by
          simpa [List.getElem?_eq_some_iff] using core
        exact .inr ⟨by omega, small, rfl⟩
      · cases found
  · rintro (⟨cores, found, core⟩ | ⟨rfl, small, rfl⟩)
    · exact ⟨cores, getElem?_append_eq_some_iff.2 (.inl found), core⟩
    · exact ⟨_, List.getElem?_concat_length, by simp [small]⟩

/-- `with_policy` adds a `System` whose threads are new and numbered in its order. -/
theorem Wf.withPolicy (wf : p.Wf) (n : Nat) :
    Wf { p with
      threads := p.threads ++ (List.range n).map (⟨some ·, .spawned, none⟩)
      systems := p.systems ++ [⟨(List.range n).map (p.threads.length + ·), true⟩] } := by
  have known : ∀ {system i t}, p.coreThread system i = some t → t < p.threads.length := by
    intro system i t core
    obtain ⟨thread, found, _⟩ := wf.core_number system i t core
    exact (List.getElem?_eq_some_iff.1 found).1
  have old : ∀ (t : Nat) (thread : Thread),
      (p.threads ++ (List.range n).map (⟨some ·, .spawned, none⟩))[t]? = some thread →
        p.threads[t]? = some thread ∨
          ∃ i < n, t = p.threads.length + i ∧ thread = ⟨some i, .spawned, none⟩ := by
    intro t thread found
    rcases getElem?_append_eq_some_iff.1 found with found | ⟨beyond, found⟩
    · exact .inl found
    · obtain ⟨small, rfl⟩ : t - p.threads.length < n ∧
          (⟨some (t - p.threads.length), .spawned, none⟩ : Thread) = thread := by
        simpa [List.getElem?_eq_some_iff] using found
      exact .inr ⟨_, small, by omega, rfl⟩
  refine ⟨?_, ?_, ?_, ?_, ?_⟩
  · intro system i t core
    rcases coreThread_withPolicy.1 core with core | ⟨_, small, rfl⟩
    · obtain ⟨thread, found, number⟩ := wf.core_number system i t core
      exact ⟨thread, getElem?_append_eq_some_iff.2 (.inl found), number⟩
    · refine ⟨⟨some i, .spawned, none⟩, getElem?_append_eq_some_iff.2 (.inr ⟨by omega, ?_⟩), rfl⟩
      simp [small]
  · intro t thread i found number
    rcases old t thread found with found | ⟨j, small, rfl, rfl⟩
    · obtain ⟨system, core⟩ := wf.core_owner t thread i found number
      exact ⟨system, coreThread_withPolicy.2 (.inl core)⟩
    · cases number
      exact ⟨_, coreThread_withPolicy.2 (.inr ⟨rfl, small, rfl⟩)⟩
  · intro system other i j t core core'
    rcases coreThread_withPolicy.1 core with core | ⟨rfl, _, rfl⟩
    · rcases coreThread_withPolicy.1 core' with core' | ⟨_, _, rfl⟩
      · exact wf.one_system system other i j t core core'
      · exact absurd (known core) (by omega)
    · rcases coreThread_withPolicy.1 core' with core' | ⟨rfl, _, _⟩
      · exact absurd (known core') (by omega)
      · rfl
  · intro t thread found running
    rcases old t thread found with found | ⟨_, _, _, rfl⟩
    · exact wf.current t thread found running
    · cases running
  · intro r member
    obtain ⟨system, t, core, runs⟩ := wf.placed r member
    exact ⟨system, t, coreThread_withPolicy.2 (.inl core), runs⟩

/-- `install` hands out the number of the core it sent the actor to. -/
theorem Wf.install {system core t : Nat} (wf : p.Wf) (found : p.coreThread system core = some t) :
    Wf { p with
      actors := p.actors ++ [t]
      handles := p.handles ++ [⟨p.actors.length, core⟩] } := by
  refine ⟨wf.core_number, wf.core_owner, wf.one_system, wf.current, ?_⟩
  intro r member
  rcases List.mem_append.1 member with member | member
  · obtain ⟨system, t', placed, runs⟩ := wf.placed r member
    exact ⟨system, t', placed, getElem?_append_eq_some_iff.2 (.inl runs)⟩
  · cases List.mem_singleton.1 member
    exact ⟨system, t, found, List.getElem?_concat_length⟩

/-- Dropping a `System` does not change whose cores its threads are. -/
theorem coreThread_dropSystem {system other i : Nat} {cores : Cores}
    (found : p.systems[system]? = some cores) :
    coreThread { p with systems := p.systems.set system { cores with alive := false } } other i =
      p.coreThread other i := by
  rw [coreThread, coreThread, List.getElem?_set]
  by_cases here : system = other
  · subst here
    rw [if_pos rfl, if_pos (List.getElem?_eq_some_iff.1 found).1, found]
    rfl
  · rw [if_neg here]

/-- Every action keeps the books. -/
theorem Wf.step {p' : Process} {action : ProcessAct} (wf : p.Wf)
    (moved : p.step action = some p') : p'.Wf := by
  cases action with
  | spawnThread =>
      cases moved
      exact wf.spawnThread
  | withPolicy n =>
      obtain ⟨_, rfl⟩ := guarded moved
      exact wf.withPolicy n
  | enter t =>
      obtain ⟨thread, found, moved⟩ := Option.bind_eq_some_iff.1 moved
      obtain ⟨_, rfl⟩ := guarded moved
      exact wf.setThread found rfl (fun _ => rfl)
  | install system core =>
      obtain ⟨cores, found, moved⟩ := Option.bind_eq_some_iff.1 moved
      obtain ⟨t, there, moved⟩ := Option.bind_eq_some_iff.1 moved
      obtain ⟨_, rfl⟩ := guarded moved
      exact wf.install (Option.bind_eq_some_iff.2 ⟨cores, found, there⟩)
  | clone h =>
      obtain ⟨handle, found, moved⟩ := Option.bind_eq_some_iff.1 moved
      cases moved
      refine ⟨wf.core_number, wf.core_owner, wf.one_system, wf.current, ?_⟩
      intro r member
      rcases List.mem_append.1 member with member | member
      · exact wf.placed r member
      · obtain rfl := List.mem_singleton.1 member
        exact wf.placed _ (List.mem_of_getElem? found)
  | exit t =>
      obtain ⟨thread, found, moved⟩ := Option.bind_eq_some_iff.1 moved
      obtain ⟨_, rfl⟩ := guarded moved
      exact wf.setThread found rfl (fun running => by cases running)
  | dropSystem system =>
      obtain ⟨cores, found, moved⟩ := Option.bind_eq_some_iff.1 moved
      cases moved
      refine ⟨?_, ?_, ?_, wf.current, ?_⟩
      · intro system' i t
        rw [coreThread_dropSystem found]
        exact wf.core_number system' i t
      · intro t thread i there number
        obtain ⟨system', core⟩ := wf.core_owner t thread i there number
        exact ⟨system', (coreThread_dropSystem found).trans core⟩
      · intro system' other i j t
        rw [coreThread_dropSystem found, coreThread_dropSystem found]
        exact wf.one_system system' other i j t
      · intro r member
        obtain ⟨system', t, core, runs⟩ := wf.placed r member
        exact ⟨system', t, (coreThread_dropSystem found).trans core, runs⟩

theorem wf_of_reach (run : Reach step Free start p) : p.Wf :=
  run.invariant wf_start (fun _ _ _ wf _ moved => wf.step moved)

end Process

/-! ### When the guard is exact -/

section Guard

variable {p : Process} {t : Nat} {r : ActorRef}

/-- Among running threads the guard picks the core threads with the number in the handle, of whatever
    `System` they are. -/
theorem Process.Wf.guard_iff (wf : p.Wf) (running : p.Running t) :
    p.wouldDeadlockCallingCore t r = true ↔ ∃ system, p.coreThread system r.core = some t := by
  obtain ⟨thread, found, runs⟩ := running
  have current : p.currentCore t = thread.coreIndex := by
    rw [Process.currentCore, found]
    exact wf.current t thread found runs
  rw [Process.wouldDeadlockCallingCore, decide_eq_true_iff, current]
  constructor
  · exact wf.core_owner t thread r.core found
  · rintro ⟨system, core⟩
    obtain ⟨thread', found', number⟩ := wf.core_number system r.core t core
    rw [found] at found'
    cases found'
    exact number

/-- The two users of the guard do what it says. -/
theorem guardExact_iff_guard :
    GuardExact p t r ↔ (p.wouldDeadlockCallingCore t r = true ↔ p.RunsTarget t r) := by
  constructor
  · exact GuardExact.guard
  · intro guard
    refine ⟨guard, ?_, ?_⟩
    · rw [← guard, Process.askGuard]
      cases p.wouldDeadlockCallingCore t r <;> simp
    · rw [← guard, Process.sendBlockingGuard]
      cases p.wouldDeadlockCallingCore t r <;> simp

/-- In every reachable process, for every calling thread and every handle, the guard is exact unless the
    caller is a core thread and the target lives on the core of the same number of another
    `System`. -/
theorem guardExact_iff (run : Reach Process.step Free .start p) (running : p.Running t)
    (held : r ∈ p.handles) : GuardExact p t r ↔ ¬ SameNumberElsewhere p t r := by
  have wf := Process.wf_of_reach run
  obtain ⟨home, owner, placed, runs⟩ := wf.placed r held
  rw [guardExact_iff_guard, wf.guard_iff running]
  constructor
  · rintro exactly ⟨i, system, other, t', apart, core, core', runs'⟩
    obtain rfl : owner = t' := Option.some.inj (runs.symm.trans runs')
    obtain rfl := wf.one_system home other _ _ owner placed core'
    have number : r.core = i := by
      obtain ⟨thread, found, one⟩ := wf.core_number _ _ _ placed
      obtain ⟨thread', found', two⟩ := wf.core_number _ _ _ core'
      rw [found] at found'
      cases found'
      exact Option.some.inj (one.symm.trans two)
    subst number
    have same : p.RunsTarget t r := exactly.1 ⟨system, core⟩
    obtain rfl : owner = t := Option.some.inj (runs.symm.trans same)
    exact apart (wf.one_system system home _ _ owner core placed)
  · intro unambiguous
    constructor
    · rintro ⟨system, core⟩
      by_cases here : system = home
      · subst here
        rw [core] at placed
        cases placed
        exact runs
      · exact absurd ⟨r.core, system, home, owner, here, core, placed, runs⟩ unambiguous
    · intro same
      obtain rfl : owner = t := Option.some.inj (runs.symm.trans same)
      exact ⟨home, placed⟩

/-- Two `System`s of one core each, with an actor on the second. -/
def twoSystems : Process where
  threads := [⟨none, .running, none⟩, ⟨some 0, .running, some 0⟩, ⟨some 0, .running, some 0⟩]
  systems := [⟨[1], true⟩, ⟨[2], true⟩]
  actors := [2]
  handles := [⟨0, 0⟩]

theorem reach_twoSystems : Reach Process.step Free .start twoSystems :=
  have executed : exec Process.step .start
    [.withPolicy 1, .withPolicy 1, .enter 1, .enter 2, .install 1 0] = some twoSystems := rfl
  reach_of_exec executed

/-- The actor's own thread is told so, and the main thread is not. -/
theorem guardExact_twoSystems :
    GuardExact twoSystems 2 ⟨0, 0⟩ ∧ GuardExact twoSystems 0 ⟨0, 0⟩ := by
  have calls : ∀ u ∈ [0, 2], ¬ SameNumberElsewhere twoSystems u ⟨0, 0⟩ := by
    rintro u member ⟨i, system, other, t', apart, core, core', runs⟩
    cases runs
    have second : ∀ s j, twoSystems.coreThread s j = some 2 → s = 1 := by
      rintro (_ | _ | s) (_ | j) found <;> simp_all [Process.coreThread, twoSystems]
    obtain rfl | rfl : u = 0 ∨ u = 2 := by simpa using member
    · rcases system with _ | _ | _ <;> rcases i with _ | _ <;>
        simp [Process.coreThread, twoSystems] at core
    · exact apart ((second _ _ core).trans (second _ _ core').symm)
  exact ⟨(guardExact_iff reach_twoSystems ⟨_, rfl, rfl⟩ (by decide)).2 (calls 2 (by decide)),
    (guardExact_iff reach_twoSystems ⟨_, rfl, rfl⟩ (by decide)).2 (calls 0 (by decide))⟩

/-- A handler on core 0 of the first `System` is told that the actor on core 0 of the second would
    block it: `send_blocking` panics for a target that another thread drives. -/
theorem guard_confuses_systems :
    Reach Process.step Free .start twoSystems ∧ twoSystems.Running 1 ∧ ⟨0, 0⟩ ∈ twoSystems.handles ∧
      twoSystems.wouldDeadlockCallingCore 1 ⟨0, 0⟩ = true ∧ ¬ twoSystems.RunsTarget 1 ⟨0, 0⟩ ∧
      ¬ GuardExact twoSystems 1 ⟨0, 0⟩ := by
  have elsewhere : ¬ twoSystems.RunsTarget 1 ⟨0, 0⟩ := by
    intro runs
    cases runs
  exact ⟨reach_twoSystems, ⟨_, rfl, rfl⟩, by decide, rfl, elsewhere,
    fun exactly => elsewhere (exactly.guard.1 rfl)⟩

end Guard

end AetherFlow.System
