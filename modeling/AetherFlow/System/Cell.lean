/-
Module: AetherFlow.System.Cell
Purpose: The actor cell of `core/src/system.rs`: the restart limiter and `Cell::poll_one`, one step for
  each point at which it asks something of code that is not its own. User code (hooks, handlers, the
  factory, destructors), the mailbox and the clock answer with an `Input`; what they answer is free,
  so every behaviour of theirs is a sequence of inputs.
Trusted boundary: human-reviewed transcription of `core/src/system.rs`. The payload of a caught panic is
  dropped where the panic is caught, outside every boundary, and has no step: its destructor is taken
  not to panic.
Main exports: RestartPolicy, RestartState, allowRestart, Cell, Outcome, Input, Event, PollPc, pollStep
-/
import Mathlib.Algebra.Group.Nat.Defs

namespace AetherFlow.System

/-! ### The restart limiter -/

/-- Times and spans are numbers of nanoseconds. -/
inductive RestartPolicy where
  | never
  | limited (maxRestarts within : Nat)
  | always
deriving DecidableEq

/-- `count` is a `u32`. -/
structure RestartState where
  windowStart : Option Nat := none
  count : Nat := 0
deriving DecidableEq

/-- `Cell::allow_restart` at time `now`: the verdict and the updated state. `count += 1` on a full
    counter panics in a build with overflow checks (`none`) and wraps in one without. -/
def allowRestart (overflowChecks : Bool) (policy : RestartPolicy) (restarts : RestartState)
    (now : Nat) : Option (Bool × RestartState) :=
  match policy with
  | .never => some (false, restarts)
  | .always => some (true, restarts)
  | .limited maxRestarts within =>
      let counted :=
        match restarts.windowStart with
        | some start =>
            if now - start ≤ within then
              if restarts.count + 1 < 2 ^ 32 then
                some { restarts with count := restarts.count + 1 }
              else if overflowChecks then
                none
              else
                some { restarts with count := 0 }
            else
              some { windowStart := some now, count := 1 }
        | none => some { windowStart := some now, count := 1 }
      counted.map fun restarts => (decide (restarts.count ≤ maxRestarts), restarts)

/-! ### Cells and what they ask for -/

/-- A `Cell`. `id` numbers the cells of a core in the order they were sent to it, `inst` the instances
    a cell has had; `taken` counts the messages its mailbox has handed out. `factory` says whether
    there is one: what it makes comes as an input. -/
structure Cell (A : Type*) where
  id : Nat
  inst : Nat := 0
  actor : A
  factory : Bool
  restartPolicy : RestartPolicy
  restarts : RestartState := {}
  taken : Nat := 0

/-- How a piece of user code ended. A destructor that panics while a panic is unwinding aborts the
    process. -/
inductive Outcome where
  | returned
  | panicked
  | aborted
deriving DecidableEq

/-- What happens next outside the core loop's own code. -/
inductive Input (A M : Type*) where
  /-- A hook, `handle` or the factory ran; `after` is the actor value it left or made. -/
  | ran (after : A) (outcome : Outcome)
  /-- A value was dropped, with everything it owned. -/
  | dropped (outcome : Outcome)
  /-- `try_recv` on the mailbox. -/
  | received (msg : Option M)
  | closedAndEmpty (verdict : Bool)
  /-- `Instant::now()`. -/
  | now (time : Nat)
  /-- The loop goes on by itself. -/
  | internal
  /-- `System::install` on another thread sends an `Add`. -/
  | sendAdd (actor : A) (factory : Bool) (restartPolicy : RestartPolicy)
  /-- `System::drop` on another thread sends `Shutdown`. -/
  | sendShutdown
  /-- The sending end of the control channel is dropped. -/
  | disconnect

/-- Why a cell left its core. -/
inductive Exit where
  | detached
  | closedAndEmpty
  | drained
deriving DecidableEq

/-- What happened to an actor, with the actor value the user code saw. -/
inductive Event (A M : Type*) where
  | onStart (seen : A) (outcome : Outcome)
  | handle (seen : A) (msg : M) (outcome : Outcome)
  | make (outcome : Outcome)
  | onRestart (seen : A) (outcome : Outcome)
  | left (why : Exit)
  | onStop (seen : A) (outcome : Outcome)
deriving DecidableEq

inductive PollOutcome where
  | worked
  | empty
  | panicked
deriving DecidableEq

/-- Where a `poll_one` call stands. -/
inductive PollPc (A M : Type*) where
  /-- About to call `try_recv`. -/
  | recv
  /-- About to call `handle` inside its panic boundary. -/
  | handle (msg : M)
  /-- `handle` panicked; about to ask for a restart, if there is a factory. -/
  | broken
  /-- About to call the factory. -/
  | make
  /-- About to call `on_restart` on the fresh actor. -/
  | onRestart (fresh : A)
  /-- About to assign `self.actor`, which drops the broken actor. -/
  | replace (fresh : A)
  | returned (outcome : PollOutcome)

/-- Where a step of `poll_one` leads. A panic outside every boundary unwinds out of `poll_one`. -/
inductive PollNext (A M : Type*) where
  | goOn (cell : Cell A) (pc : PollPc A M) (events : List (Nat × Event A M))
  | unwound
  | aborted

/-- The next step of `Cell::poll_one`. An event comes with the number of the instance it is about. -/
def pollStep {A M : Type*} (overflowChecks : Bool) (cell : Cell A) :
    PollPc A M → Input A M → Option (PollNext A M)
  | .recv, .received none => some (.goOn cell (.returned .empty) [])
  | .recv, .received (some msg) =>
      some (.goOn { cell with taken := cell.taken + 1 } (.handle msg) [])
  | .handle msg, .ran after outcome =>
      let event := (cell.inst, .handle cell.actor msg outcome)
      let cell := { cell with actor := after }
      match outcome with
      | .returned => some (.goOn cell (.returned .worked) [event])
      | .panicked => some (.goOn cell .broken [event])
      | .aborted => some .aborted
  | .broken, .internal => if cell.factory then none else some (.goOn cell (.returned .panicked) [])
  | .broken, .now time =>
      if cell.factory then
        match allowRestart overflowChecks cell.restartPolicy cell.restarts time with
        | none => some .unwound
        | some (allowed, restarts) =>
            some (.goOn { cell with restarts := restarts }
              (if allowed then .make else .returned .panicked) [])
      else
        none
  | .make, .ran fresh outcome =>
      let event := (cell.inst + 1, .make outcome)
      match outcome with
      | .returned => some (.goOn cell (.onRestart fresh) [event])
      | .panicked => some (.goOn cell (.returned .panicked) [event])
      | .aborted => some .aborted
  | .onRestart fresh, .ran after outcome =>
      let event := (cell.inst + 1, .onRestart fresh outcome)
      match outcome with
      | .returned => some (.goOn cell (.replace after) [event])
      | .panicked => some (.goOn cell (.returned .panicked) [event])
      | .aborted => some .aborted
  | .replace fresh, .dropped outcome =>
      match outcome with
      | .returned =>
          some (.goOn { cell with actor := fresh, inst := cell.inst + 1 } (.returned .worked) [])
      | .panicked => some .unwound
      | .aborted => some .aborted
  | _, _ => none

end AetherFlow.System
