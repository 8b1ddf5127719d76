/-
Module: AetherFlow.System.Runtime
Purpose: A whole `System`: its core threads, the spawn calls that any threads make on it through a shared
  reference, and its drop. A spawn call chooses its core, makes the actor and installs it, one step at
  a time; dropping takes the `System` by value, so no spawn call is under way then. Each core goes on
  by itself as `core_loop` does.
Trusted boundary: human-reviewed transcription of `System`, `SpawnBuilder` and `Drop for System`
Main exports: Knob, SpawnBuilder, SpawnPc, Runtime, Runtime.step, Runtime.Move, Runtime.move_of_step
-/
import AetherFlow.Lib.RoundRobin
import AetherFlow.Mpsc.Queue
import AetherFlow.System.Lifecycle

namespace AetherFlow.System

open Transition

/-! ### What is spawned -/

/-- `DEFAULT_MAILBOX_CAPACITY`. -/
def defaultMailboxCapacity : Nat := 1024

/-- `RestartPolicy::default_supervised`: five times in ten seconds. -/
def RestartPolicy.defaultSupervised : RestartPolicy := .limited 5 (10 * 10 ^ 9)

/-- What a `SpawnBuilder` holds beside the `System` and `make`. -/
structure SpawnBuilder where
  core : Option Nat
  mailbox : Nat
  supervised : Bool
  restartPolicy : Option RestartPolicy
  instrumented : Bool
deriving DecidableEq

/-- The methods that set the knobs. -/
inductive Knob where
  | core (core : Nat)
  | mailbox (capacity : Nat)
  | supervised
  | restartPolicy (policy : RestartPolicy)
  | instrumented
deriving DecidableEq

namespace SpawnBuilder

/-- `System::build`. -/
def build : SpawnBuilder := ⟨none, defaultMailboxCapacity, false, none, false⟩

def set (builder : SpawnBuilder) : Knob → SpawnBuilder
  | .core core => { builder with core := some core }
  | .mailbox capacity => { builder with mailbox := capacity }
  | .supervised => { builder with supervised := true }
  | .restartPolicy policy => { builder with supervised := true, restartPolicy := some policy }
  | .instrumented => { builder with instrumented := true }

/-- The policy that `spawn` passes to `install`; `supervised` says whether there is a factory. -/
def policy (builder : SpawnBuilder) : RestartPolicy :=
  if builder.supervised then builder.restartPolicy.getD .defaultSupervised else .never

end SpawnBuilder

/-! ### Spawn calls -/

/-- Where a call of one of the spawn functions stands. -/
inductive SpawnPc (A : Type*) where
  /-- About to choose the core; the caller may have handed over the actor itself. -/
  | place (given : Option A)
  /-- About to call `make`. -/
  | make (core : Nat)
  /-- About to install. -/
  | install (core : Nat) (actor : A)
  /-- It returned an `ActorRef` to the cell of this number on this core. -/
  | returned (core id : Nat)
  /-- It panicked, with a message of its own or that of other code. -/
  | panicked (message : Option String)

structure SpawnCall (A : Type*) where
  builder : SpawnBuilder
  pc : SpawnPc A

/-- What a step of a spawn call meets. -/
inductive SpawnAnswer (A : Type*) where
  /-- The call goes on by itself; `failed` says whether the send on the control channel fails. -/
  | goOn (failed : Bool)
  /-- `make` returned an actor, or panicked. -/
  | made (actor : Option A)

def SpawnPc.finished {A : Type*} : SpawnPc A → Bool
  | .returned _ _ | .panicked _ => true
  | _ => false

/-- Where the thread that drops the `System` stands. -/
inductive DropPc where
  /-- The `System` is in use. -/
  | running
  /-- About to send `Shutdown` to core `i`. -/
  | sending (i : Nat)
  /-- About to join core `i`. -/
  | joining (i : Nat)
  /-- About to drop the `CoreHandle` of core `i`. -/
  | handles (i : Nat)
  | dropped
deriving DecidableEq

/-- A `System`, with its threads and the calls on it. `w` is the width of a `usize`. -/
structure Runtime (w : Nat) (A M : Type*) where
  cores : List (Core A M)
  next : BitVec w
  calls : List (SpawnCall A)
  drop : DropPc
  /-- The cores that `next` has chosen. -/
  tickets : List Nat

inductive RuntimeAct (A M : Type*) where
  /-- A step of core thread `i`. -/
  | core (i : Nat) (input : Input A M)
  /-- A thread calls a spawn function. -/
  | call (knobs : List Knob) (given : Option A)
  /-- The next step of this call. -/
  | spawn (c : Nat) (answer : SpawnAnswer A)
  /-- The next step of `drop`. -/
  | drop

namespace RuntimeAct

variable {A M : Type*}

/-- The calls of the spawn functions; `spawnBuilder` is `build(make)` with its knobs and `spawn()`. -/
def spawnActor (actor : A) : RuntimeAct A M := .call [] (some actor)

def spawnOn (core : Nat) (actor : A) : RuntimeAct A M := .call [.core core] (some actor)

def spawnOnWith (core : Nat) (actor : A) (mailboxCapacity : Nat) : RuntimeAct A M :=
  .call [.core core, .mailbox mailboxCapacity] (some actor)

def spawnOnSupervised (core : Nat) : RuntimeAct A M := .call [.core core, .supervised] none

def spawnOnSupervisedWith (core mailboxCapacity : Nat) : RuntimeAct A M :=
  .call [.core core, .supervised, .mailbox mailboxCapacity] none

def spawnBuilder (knobs : List Knob) : RuntimeAct A M := .call knobs none

end RuntimeAct

/-- `core_loop` is over: it has returned or a panic has unwound out of it. -/
def Pc.over {A M : Type*} : Pc A M → Bool
  | .exited | .unwound => true
  | _ => false

def Pc.isAborted {A M : Type*} : Pc A M → Bool
  | .aborted => true
  | _ => false

namespace Runtime

variable {w : Nat} {A M : Type*}

/-- `System::with_policy`, which asserts that `n` is not zero. -/
def withPolicy (w : Nat) (A M : Type*) (n : Nat) : Option (Runtime w A M) :=
  if 1 ≤ n then
    some { cores := .replicate n .new, next := 0, calls := [], drop := .running, tickets := [] }
  else none

def setCore (s : Runtime w A M) (i : Nat) (core : Core A M) : Runtime w A M :=
  { s with cores := s.cores.set i core }

def setPc (s : Runtime w A M) (c : Nat) (call : SpawnCall A) (pc : SpawnPc A) : Runtime w A M :=
  { s with calls := s.calls.set c { call with pc := pc } }

/-- The core is chosen. -/
def afterPlace (core : Nat) : Option A → SpawnPc A
  | some actor => .install core actor
  | none => .make core

/-- `install`, up to the send. -/
def install (s : Runtime w A M) (c : Nat) (call : SpawnCall A) (core : Nat) (actor : A)
    (failed : Bool) : Option (Runtime w A M) :=
  match s.cores[core]? with
  | none => some (s.setPc c call (.panicked (some s!"core index {core} out of range")))
  | some target =>
      match Mpsc.channel w M call.builder.mailbox with
      | none => some (s.setPc c call (.panicked none))
      | some _ =>
          if failed then
            -- The receiving end goes away with `core_loop`.
            if target.pc.over then
              some (s.setPc c call (.panicked (some s!"core {core} thread is not running")))
            else none
          else
            (target.environment
              (.sendAdd actor call.builder.supervised call.builder.policy)).map fun target' =>
                (s.setPc c call (.returned core target.sent)).setCore core target'

/-- The next step of a spawn call. -/
def spawnStep (s : Runtime w A M) (c : Nat) (call : SpawnCall A) :
    SpawnAnswer A → Option (Runtime w A M)
  | .goOn failed =>
      match call.pc with
      | .place given =>
          match call.builder.core with
          | some core => some (s.setPc c call (afterPlace core given))
          | none =>
              let core := s.next.toNat % s.cores.length
              some
                { s.setPc c call (afterPlace core given) with
                  next := s.next + 1
                  tickets := s.tickets ++ [core] }
      | .install core actor => s.install c call core actor failed
      | _ => none
  | .made actor =>
      match call.pc with
      | .make core =>
          some (s.setPc c call (actor.elim (.panicked none) (.install core)))
      | _ => none

/-- The next step of `drop`. -/
def dropStep (s : Runtime w A M) : Option (Runtime w A M) :=
  match s.drop with
  | .running =>
      -- The `System` is taken by value: nobody else holds a reference to it.
      if s.calls.all (·.pc.finished) then some { s with drop := .sending 0 } else none
  | .sending i =>
      match s.cores[i]? with
      | some core =>
          (core.environment .sendShutdown).map fun core =>
            { s.setCore i core with drop := .sending (i + 1) }
      | none => some { s with drop := .joining 0 }
  | .joining i =>
      match s.cores[i]? with
      | some core => if core.pc.over then some { s with drop := .joining (i + 1) } else none
      | none => some { s with drop := .handles 0 }
  | .handles i =>
      match s.cores[i]? with
      | some core =>
          (core.environment .disconnect).map fun core =>
            { s.setCore i core with drop := .handles (i + 1) }
      | none => some { s with drop := .dropped }
  | .dropped => none

/-- A step of the process, which is over once a thread has aborted it. -/
def step (policy : Policy) (s : Runtime w A M) (a : RuntimeAct A M) : Option (Runtime w A M) :=
  if s.cores.any (·.pc.isAborted) then none
  else
    match a with
    | .core i input => do
        let core ← s.cores[i]?
        let core ← core.loopStep policy input
        some (s.setCore i core)
    | .call knobs given =>
        if s.drop = .running then
          some { s with calls := s.calls ++ [⟨knobs.foldl .set .build, .place given⟩] }
        else none
    | .spawn c answer => (s.calls[c]?).bind fun call => s.spawnStep c call answer
    | .drop => s.dropStep

/-- What a step can be. -/
inductive Move (policy : Policy) (s : Runtime w A M) : Runtime w A M → Prop where
  | core {i : Nat} {core core' : Core A M} {input : Input A M} (found : s.cores[i]? = some core)
      (moved : core.loopStep policy input = some core') : Move policy s (s.setCore i core')
  | called (knobs : List Knob) (given : Option A) (running : s.drop = .running) :
      Move policy s { s with calls := s.calls ++ [⟨knobs.foldl .set .build, .place given⟩] }
  | ticket {c : Nat} {call : SpawnCall A} {given : Option A} (found : s.calls[c]? = some call)
      (at_ : call.pc = .place given) (anywhere : call.builder.core = none) :
      Move policy s
        { s.setPc c call (afterPlace (s.next.toNat % s.cores.length) given) with
          next := s.next + 1
          tickets := s.tickets ++ [s.next.toNat % s.cores.length] }
  | placed {c core : Nat} {call : SpawnCall A} {given : Option A} (found : s.calls[c]? = some call)
      (at_ : call.pc = .place given) (asked : call.builder.core = some core) :
      Move policy s (s.setPc c call (afterPlace core given))
  | made {c core : Nat} {call : SpawnCall A} {actor : A} (found : s.calls[c]? = some call)
      (at_ : call.pc = .make core) : Move policy s (s.setPc c call (.install core actor))
  | failed {c : Nat} {call : SpawnCall A} {message : Option String}
      (found : s.calls[c]? = some call) (unfinished : call.pc.finished = false) :
      Move policy s (s.setPc c call (.panicked message))
  | installed {c i : Nat} {call : SpawnCall A} {actor : A} {core core' : Core A M}
      (found : s.calls[c]? = some call) (at_ : call.pc = .install i actor)
      (there : s.cores[i]? = some core)
      (sent : core.environment (.sendAdd actor call.builder.supervised call.builder.policy) =
        some core') :
      Move policy s ((s.setPc c call (.returned i core.sent)).setCore i core')
  | dropCalled (running : s.drop = .running) (alone : ∀ call ∈ s.calls, call.pc.finished = true) :
      Move policy s { s with drop := .sending 0 }
  | told {i : Nat} {core core' : Core A M} (at_ : s.drop = .sending i)
      (found : s.cores[i]? = some core) (sent : core.environment .sendShutdown = some core') :
      Move policy s { s.setCore i core' with drop := .sending (i + 1) }
  | toldAll {i : Nat} (at_ : s.drop = .sending i) (none_ : s.cores[i]? = none) :
      Move policy s { s with drop := .joining 0 }
  | joined {i : Nat} {core : Core A M} (at_ : s.drop = .joining i)
      (found : s.cores[i]? = some core) (over_ : core.pc.over = true) :
      Move policy s { s with drop := .joining (i + 1) }
  | joinedAll {i : Nat} (at_ : s.drop = .joining i) (none_ : s.cores[i]? = none) :
      Move policy s { s with drop := .handles 0 }
  | disconnected {i : Nat} {core core' : Core A M} (at_ : s.drop = .handles i)
      (found : s.cores[i]? = some core) (gone : core.environment .disconnect = some core') :
      Move policy s { s.setCore i core' with drop := .handles (i + 1) }
  | disconnectedAll {i : Nat} (at_ : s.drop = .handles i) (none_ : s.cores[i]? = none) :
      Move policy s { s with drop := .dropped }

section Moves

variable {policy : Policy} {s t : Runtime w A M}

theorem move_of_install {c i : Nat} {call : SpawnCall A} {actor : A} {failed : Bool}
    (found : s.calls[c]? = some call) (at_ : call.pc = .install i actor)
    (moved : s.install c call i actor failed = some t) : Move policy s t := by
  have unfinished : call.pc.finished = false := by rw [at_]; rfl
  unfold install at moved
  split at moved
  · cases moved
    exact .failed found unfinished
  · rename_i core there
    split at moved
    · cases moved
      exact .failed found unfinished
    · split at moved
      · split at moved
        · cases moved
          exact .failed found unfinished
        · cases moved
      · obtain ⟨core', sent, rfl⟩ := Option.map_eq_some_iff.1 moved
        exact .installed found at_ there sent

theorem move_of_spawnStep {c : Nat} {call : SpawnCall A} {answer : SpawnAnswer A}
    (found : s.calls[c]? = some call) (moved : s.spawnStep c call answer = some t) :
    Move policy s t := by
  cases answer with
  | goOn failed =>
      simp only [spawnStep] at moved
      split at moved
      · rename_i given at_
        split at moved
        · rename_i core asked
          cases moved
          exact .placed found at_ asked
        · rename_i anywhere
          cases moved
          exact .ticket found at_ anywhere
      · rename_i core actor at_
        exact move_of_install found at_ moved
      · cases moved
  | made actor =>
      simp only [spawnStep] at moved
      split at moved
      · rename_i core at_
        cases actor with
        | none =>
            cases moved
            exact .failed found (by rw [at_]; rfl)
        | some actor =>
            cases moved
            exact .made found at_
      · cases moved

theorem move_of_dropStep (moved : s.dropStep = some t) : Move policy s t := by
  unfold dropStep at moved
  split at moved
  · rename_i running
    obtain ⟨alone, moved⟩ := Option.ite_none_right_eq_some.1 moved
    cases moved
    exact .dropCalled running (List.all_eq_true.1 alone)
  · rename_i i at_
    split at moved
    · rename_i core found
      obtain ⟨core', sent, rfl⟩ := Option.map_eq_some_iff.1 moved
      exact .told at_ found sent
    · rename_i none_
      cases moved
      exact .toldAll at_ none_
  · rename_i i at_
    split at moved
    · rename_i core found
      obtain ⟨over_, moved⟩ := Option.ite_none_right_eq_some.1 moved
      cases moved
      exact .joined at_ found over_
    · rename_i none_
      cases moved
      exact .joinedAll at_ none_
  · rename_i i at_
    split at moved
    · rename_i core found
      obtain ⟨core', gone, rfl⟩ := Option.map_eq_some_iff.1 moved
      exact .disconnected at_ found gone
    · rename_i none_
      cases moved
      exact .disconnectedAll at_ none_
  · cases moved

theorem move_of_step {a : RuntimeAct A M} (moved : s.step policy a = some t) : Move policy s t := by
  unfold step at moved
  split at moved
  · cases moved
  · cases a with
    | core i input =>
        obtain ⟨core, found, moved⟩ := Option.bind_eq_some_iff.1 moved
        obtain ⟨core', stepped, after⟩ := Option.bind_eq_some_iff.1 moved
        cases after
        exact .core found stepped
    | call knobs given =>
        obtain ⟨running, moved⟩ := Option.ite_none_right_eq_some.1 moved
        cases moved
        exact .called knobs given running
    | spawn c answer =>
        obtain ⟨call, found, moved⟩ := Option.bind_eq_some_iff.1 moved
        exact move_of_spawnStep found moved
    | drop => exact move_of_dropStep moved

end Moves

/-! ### The cores -/

theorem step_of_environment {policy : Policy} {core core' : Core A M} {input : Input A M}
    (sent : core.environment input = some core') : core.step policy input = some core' := by
  rw [Core.step, sent]
  rfl

/-- What other threads do. -/
def foreign {A M : Type*} : Input A M → Bool
  | .sendAdd _ _ _ | .sendShutdown | .disconnect => true
  | _ => false

/-- The loop does not answer for other threads. -/
theorem own_of_loopStep {policy : Policy} {core core' : Core A M} {input : Input A M}
    (moved : core.loopStep policy input = some core') : foreign input = false := by
  cases input with
  | sendAdd | sendShutdown | disconnect =>
      exfalso
      cases at_ : core.pc with
      | poll site pc =>
          simp only [Core.loopStep, at_] at moved
          obtain ⟨cell, _, rest⟩ := Option.bind_eq_some_iff.1 moved
          obtain ⟨next, stepped, _⟩ := Option.map_eq_some_iff.1 rest
          cases pc <;> cases stepped
      | _ => simp [Core.loopStep, at_] at moved
  | _ => rfl

theorem step_of_loopStep {policy : Policy} {core core' : Core A M} {input : Input A M}
    (moved : core.loopStep policy input = some core') : core.step policy input = some core' := by
  have own : core.environment input = none := by
    have own := own_of_loopStep moved
    cases input with
    | sendAdd | sendShutdown | disconnect => cases own
    | _ => rfl
  rw [Core.step, own]
  exact moved

/-- The states of a `System` with `n` cores. -/
def Runs (policy : Policy) (n : Nat) (s : Runtime w A M) : Prop :=
  ∃ first, withPolicy w A M n = some first ∧ Reach (step policy) Free first s

variable {policy : Policy} {s t : Runtime w A M} {n : Nat}

/-- Each core is a core thread by itself. -/
theorem coreRuns_of_move (run : ∀ core ∈ s.cores, CoreRuns policy Free core)
    (moved : Move policy s t) : ∀ core ∈ t.cores, CoreRuns policy Free core := by
  have one : ∀ {i : Nat} {core core' : Core A M} {input : Input A M}, s.cores[i]? = some core →
      core.step policy input = some core' →
      ∀ other ∈ s.cores.set i core', CoreRuns policy Free other := by
    intro i core core' input found stepped other member
    rcases List.mem_or_eq_of_mem_set member with old | rfl
    · exact run other old
    · exact (run core (List.mem_of_getElem? found)).tail trivial stepped
  cases moved with
  | core found moved => exact one found (step_of_loopStep moved)
  | installed _ _ there sent => exact one there (step_of_environment sent)
  | told _ found sent => exact one found (step_of_environment sent)
  | disconnected _ found gone => exact one found (step_of_environment gone)
  | _ => exact run

theorem length_of_move (moved : Move policy s t) : t.cores.length = s.cores.length := by
  cases moved with
  | core | installed | told | disconnected => exact List.length_set
  | _ => rfl

theorem coreRuns_of_run (run : Runs policy n s) :
    s.cores.length = n ∧ 0 < n ∧ ∀ core ∈ s.cores, CoreRuns policy Free core := by
  obtain ⟨first, made, reached⟩ := run
  obtain ⟨positive, rfl⟩ := guarded made
  refine reached.invariant (P := fun s => s.cores.length = n ∧ 0 < n ∧
    ∀ core ∈ s.cores, CoreRuns policy Free core) ⟨List.length_replicate, positive, ?_⟩ ?_
  · intro core member
    rw [(List.mem_replicate.1 member).2]
    exact Reach.refl _
  · rintro s a t ⟨length, positive, run⟩ _ moved
    have moved := move_of_step moved
    exact ⟨(length_of_move moved).trans length, positive, coreRuns_of_move run moved⟩

/-- Every call has a builder made with the knobs. -/
theorem builder_of_run (run : Runs policy n s) :
    ∀ call ∈ s.calls, ∃ knobs : List Knob, call.builder = knobs.foldl .set .build := by
  obtain ⟨first, made, reached⟩ := run
  obtain ⟨_, rfl⟩ := guarded made
  refine reached.invariant (P := fun s => ∀ call ∈ s.calls, ∃ knobs : List Knob,
    call.builder = knobs.foldl .set .build) (fun _ member => by cases member) ?_
  intro s a t built _ moved
  have kept : ∀ {c : Nat} {call : SpawnCall A} {pc : SpawnPc A}, s.calls[c]? = some call →
      ∀ other ∈ s.calls.set c { call with pc := pc }, ∃ knobs : List Knob,
        other.builder = knobs.foldl .set .build := by
    intro c call pc found other member
    rcases List.mem_or_eq_of_mem_set member with old | rfl
    · exact built other old
    · exact built call (List.mem_of_getElem? found)
  cases move_of_step moved with
  | called knobs given =>
      intro call member
      rcases List.mem_append.1 member with old | new
      · exact built call old
      · exact ⟨knobs, by rw [List.mem_singleton.1 new]⟩
  | ticket found | placed found | made found | failed found | installed found => exact kept found
  | _ => exact built

/-! ### Handles and cells -/

/-- Call `c` has returned a handle to cell `id` of core `i`. -/
def Returned (s : Runtime w A M) (c i id : Nat) (builder : SpawnBuilder) : Prop :=
  s.calls[c]? = some ⟨builder, .returned i id⟩

/-- How many cells were sent to core `i`. -/
def sentTo (s : Runtime w A M) (i : Nat) : Option Nat := (s.cores[i]?).map Core.sent

/-- Each cell of each core belongs to one call that has returned. -/
structure Books (s : Runtime w A M) : Prop where
  cells : ∀ i sent, s.sentTo i = some sent → ∀ id, id < sent ↔ ∃ c builder, s.Returned c i id builder
  inRange : ∀ c i id builder, s.Returned c i id builder → (s.sentTo i).isSome = true
  unique : ∀ c c' i id builder builder', s.Returned c i id builder →
    s.Returned c' i id builder' → c = c'

theorem Books.congr (books : Books s) (sent : ∀ i, t.sentTo i = s.sentTo i)
    (returned : ∀ c i id builder, t.Returned c i id builder ↔ s.Returned c i id builder) :
    Books t where
  cells i m there id := by
    simp only [returned]
    exact books.cells i m (sent i ▸ there) id
  inRange c i id builder there := by
    rw [sent]
    exact books.inRange c i id builder ((returned _ _ _ _).1 there)
  unique c c' i id builder builder' one two :=
    books.unique c c' i id builder builder' ((returned _ _ _ _).1 one) ((returned _ _ _ _).1 two)

theorem sentTo_setCore {i : Nat} {core core' : Core A M} (found : s.cores[i]? = some core)
    (j : Nat) : (s.setCore i core').sentTo j = if i = j then some core'.sent else s.sentTo j := by
  have inside := (List.getElem?_eq_some_iff.1 found).1
  rw [sentTo, setCore, List.getElem?_set]
  split
  · rename_i here
    subst here
    rfl
  · rfl

/-- The core's own steps and a `Shutdown` add no cell. -/
theorem sentTo_setCore_same {i : Nat} {core core' : Core A M} (found : s.cores[i]? = some core)
    (same : core'.sent = core.sent) (j : Nat) : (s.setCore i core').sentTo j = s.sentTo j := by
  rw [sentTo_setCore found]
  split
  · rename_i here
    rw [← here, sentTo, found, same]
    rfl
  · rfl

theorem getElem?_setPc {c : Nat} {call : SpawnCall A} (found : s.calls[c]? = some call)
    (pc : SpawnPc A) (d : Nat) : (s.setPc c call pc).calls[d]? =
      if c = d then some { call with pc := pc } else s.calls[d]? := by
  have inside := (List.getElem?_eq_some_iff.1 found).1
  rw [setPc, List.getElem?_set]
  split
  · rename_i here
    subst here
    rfl
  · rfl

/-- A call that goes on without returning a handle. -/
theorem returned_setPc {c : Nat} {call : SpawnCall A} {pc : SpawnPc A}
    (found : s.calls[c]? = some call) (unfinished : call.pc.finished = false)
    (open_ : ∀ i id, pc ≠ .returned i id) (d i id : Nat) (builder : SpawnBuilder) :
    (s.setPc c call pc).Returned d i id builder ↔ s.Returned d i id builder := by
  rw [Returned, Returned, getElem?_setPc found]
  split
  · rename_i here
    subst here
    constructor
    · intro same
      cases same
      exact absurd rfl (open_ i id)
    · intro same
      rw [found] at same
      cases same
      cases unfinished
  · exact Iff.rfl

/-- A call that returns a handle. -/
theorem returned_setPc_returned {c j k : Nat} {call : SpawnCall A}
    (found : s.calls[c]? = some call) (unfinished : call.pc.finished = false) (d i id : Nat)
    (builder : SpawnBuilder) :
    (s.setPc c call (.returned j k)).Returned d i id builder ↔
      s.Returned d i id builder ∨ d = c ∧ i = j ∧ id = k ∧ builder = call.builder := by
  rw [Returned, Returned, getElem?_setPc found]
  split
  · rename_i here
    subst here
    constructor
    · intro same
      cases same
      exact .inr ⟨rfl, rfl, rfl, rfl⟩
    · rintro (same | ⟨_, rfl, rfl, rfl⟩)
      · rw [found] at same
        cases same
        cases unfinished
      · rfl
  · rename_i elsewhere
    constructor
    · exact .inl
    · rintro (same | ⟨here, _⟩)
      · exact same
      · exact absurd here.symm elsewhere

theorem unfinished_of_install {i : Nat} {actor : A} {call : SpawnCall A}
    (at_ : call.pc = .install i actor) : call.pc.finished = false := by
  rw [at_]
  rfl

/-- The call that installs its actor returns a handle to the new cell. -/
theorem Books.installed (books : Books s) {c i : Nat} {call : SpawnCall A} {actor : A}
    {core core' : Core A M} (found : s.calls[c]? = some call) (at_ : call.pc = .install i actor)
    (there : s.cores[i]? = some core) (one : core'.sent = core.sent + 1) :
    Books ((s.setPc c call (.returned i core.sent)).setCore i core') := by
  have unfinished := unfinished_of_install at_
  have before : s.sentTo i = some core.sent := by rw [sentTo, there]; rfl
  have returned : ∀ d j id builder,
      ((s.setPc c call (.returned i core.sent)).setCore i core').Returned d j id builder ↔
        s.Returned d j id builder ∨ d = c ∧ j = i ∧ id = core.sent ∧ builder = call.builder :=
    returned_setPc_returned found unfinished
  have sent := @sentTo_setCore _ _ _ (s.setPc c call (.returned i core.sent)) i core core' there
  -- No handle to the new cell was given out before.
  have fresh : ∀ d builder, ¬ s.Returned d i core.sent builder := by
    intro d builder old
    exact absurd ((books.cells i core.sent before core.sent).2 ⟨d, builder, old⟩) (lt_irrefl _)
  refine ⟨fun j m at_ id => ?_, fun d j id builder old => ?_,
    fun d d' j id builder builder' one two => ?_⟩
  · simp only [returned]
    rw [sent] at at_
    split at at_
    · rename_i here
      subst here
      cases at_
      rw [one, Nat.lt_succ_iff_lt_or_eq, books.cells i core.sent before id]
      constructor
      · rintro (⟨d, builder, old⟩ | rfl)
        · exact ⟨d, builder, .inl old⟩
        · exact ⟨c, call.builder, .inr ⟨rfl, rfl, rfl, rfl⟩⟩
      · rintro ⟨d, builder, old | ⟨_, _, rfl, _⟩⟩
        · exact .inl ⟨d, builder, old⟩
        · exact .inr rfl
    · rename_i elsewhere
      rw [books.cells j m at_ id]
      constructor
      · rintro ⟨d, builder, old⟩
        exact ⟨d, builder, .inl old⟩
      · rintro ⟨d, builder, old | ⟨_, here, _⟩⟩
        · exact ⟨d, builder, old⟩
        · exact absurd here.symm elsewhere
  · rw [sent]
    split
    · rfl
    · rcases (returned _ _ _ _).1 old with old | ⟨_, rfl, _⟩
      · exact books.inRange _ _ _ _ old
      · rename_i elsewhere
        exact absurd rfl elsewhere
  · rcases (returned _ _ _ _).1 one with old | ⟨rfl, rfl, rfl, _⟩
    · rcases (returned _ _ _ _).1 two with old' | ⟨_, rfl, rfl, _⟩
      · exact books.unique _ _ _ _ _ _ old old'
      · exact absurd old (fresh _ _)
    · rcases (returned _ _ _ _).1 two with old' | ⟨rfl, _⟩
      · exact absurd old' (fresh _ _)
      · rfl

theorem Books.step (books : Books s) (moved : Move policy s t) : Books t := by
  cases moved with
  | core found moved =>
      exact books.congr (sentTo_setCore_same found (sent_of_loopStep moved).1) fun _ _ _ _ => Iff.rfl
  | called knobs given =>
      refine books.congr (fun _ => rfl) fun c i id builder => ?_
      rw [Returned, Returned, List.getElem?_append]
      split
      · exact Iff.rfl
      · rename_i beyond
        rw [List.getElem?_eq_none_iff.2 (not_lt.1 beyond), List.getElem?_singleton]
        split <;> simp
  | @ticket c call given found at_ =>
      have unfinished : call.pc.finished = false := by rw [at_]; rfl
      refine books.congr (fun _ => rfl) (returned_setPc found unfinished ?_)
      cases given <;> exact fun _ _ never => by cases never
  | @placed c core call given found at_ =>
      have unfinished : call.pc.finished = false := by rw [at_]; rfl
      refine books.congr (fun _ => rfl) (returned_setPc found unfinished ?_)
      cases given <;> exact fun _ _ never => by cases never
  | @made c core call actor found at_ =>
      have unfinished : call.pc.finished = false := by rw [at_]; rfl
      exact books.congr (fun _ => rfl)
        (returned_setPc found unfinished fun _ _ never => by cases never)
  | failed found unfinished =>
      exact books.congr (fun _ => rfl)
        (returned_setPc found unfinished fun _ _ never => by cases never)
  | installed found at_ there sent =>
      obtain ⟨_, rfl⟩ := guarded sent
      exact books.installed found at_ there rfl
  | told _ found sent =>
      obtain ⟨_, rfl⟩ := guarded sent
      exact books.congr (sentTo_setCore_same found rfl) fun _ _ _ _ => Iff.rfl
  | disconnected _ found gone =>
      obtain ⟨_, rfl⟩ := guarded gone
      exact books.congr (sentTo_setCore_same found rfl) fun _ _ _ _ => Iff.rfl
  | dropCalled | toldAll | joined | joinedAll | disconnectedAll =>
      exact books.congr (fun _ => rfl) fun _ _ _ _ => Iff.rfl

theorem books_of_run (run : Runs policy n s) : Books s := by
  obtain ⟨first, made, reached⟩ := run
  obtain ⟨_, rfl⟩ := guarded made
  refine reached.invariant ⟨fun i sent there id => ?_, fun c i id builder there => ?_,
    fun c c' i id builder builder' one _ => ?_⟩ fun _ _ _ books _ moved =>
      books.step (move_of_step moved)
  · rw [sentTo, List.getElem?_replicate] at there
    split at there
    · cases there
      simp [Core.new, Returned]
    · cases there
  · simp [Returned] at there
  · simp [Returned] at one

end Runtime

end AetherFlow.System
