/-
Module: AetherFlow.System.CoreLoop
Purpose: `core_loop` of `core/src/system.rs` as a transition function: the control plane, the scheduling
  pass with its batches, the removal paths and the shutdown drain, with `poll_one` inside each of its
  three call sites. The state keeps a log of what happened to each actor. Pinning and the latency
  histogram do not influence any of this and are left out. So is the idle strategy, with which the
  steps are the same if its phases fit (`Idling.exec_core`); in a build with overflow checks, phases
  whose sum leaves a `u32` end the core thread, and nothing here holds of a core after that.
Trusted boundary: human-reviewed transcription of `core/src/system.rs`
Main exports: Control, Site, Pc, Entry, Core, swapRemove, swapRemove_perm, Core.step, Core.trace,
  CoreRuns
-/
import Mathlib.Data.List.Perm.Basic
import AetherFlow.Lib.Transition
import AetherFlow.System.Cell

namespace AetherFlow.System

open Transition

inductive Control (A : Type*) where
  | add (cell : Cell A)
  | shutdown

/-- Where `poll_one` was called: first in a visit, inside the batch of a visit with `left` polls to
    go, or in the shutdown drain. -/
inductive Site where
  | first (i : Nat)
  | batch (i left : Nat)
  | drain
deriving DecidableEq

/-- The index of the polled cell. `drain(..)` hands the cells out front to back, so the cell being
    drained is the first one left. -/
def Site.index : Site → Nat
  | .first i | .batch i _ => i
  | .drain => 0

/-- Where the loop goes after a cell has been stopped or dropped. -/
inductive Resume where
  | control
  | visit (i : Nat)
  | drain
deriving DecidableEq

inductive Pc (A M : Type*) where
  /-- About to call `try_recv` on the control channel. -/
  | control
  /-- About to call `on_start` inside its panic boundary. -/
  | start (cell : Cell A)
  /-- At the head of the loop over the actors. -/
  | visit (i : Nat)
  | poll (site : Site) (pc : PollPc A M)
  /-- About to call `closed_and_empty` on actor `i`. -/
  | closedCheck (i : Nat)
  /-- About to drop actor `i`, which has panicked. -/
  | detach (i : Nat)
  /-- About to call `on_stop` inside its panic boundary. -/
  | stop (cell : Cell A) (resume : Resume)
  /-- About to drop a cell that is no longer among the actors. -/
  | drop (cell : Cell A) (resume : Resume)
  /-- At the head of the loop over `actors.drain(..)`. -/
  | drain
  /-- `core_loop` has returned. -/
  | exited
  /-- A panic unwound out of `core_loop`: the core thread is dead. -/
  | unwound
  /-- The process was aborted. -/
  | aborted

def Resume.pc {A M : Type*} : Resume → Pc A M
  | .control => .control
  | .visit i => .visit i
  | .drain => .drain

/-- A log entry: the cell, the instance and what happened. -/
structure Entry (A M : Type*) where
  cell : Nat
  inst : Nat
  event : Event A M
deriving DecidableEq

/-- The knobs a run depends on. -/
structure Policy where
  batchDrain : Nat
  overflowChecks : Bool

structure Core (A M : Type*) where
  /-- The control channel, oldest first, and whether its sending end is still there. -/
  controls : List (Control A)
  connected : Bool
  actors : List (Cell A)
  shuttingDown : Bool
  pc : Pc A M
  log : List (Entry A M)
  /-- How many cells were sent to this core. -/
  sent : Nat
  /-- How many of them were sent before the first `Shutdown`. -/
  sentBefore : Option Nat

/-- `Vec::swap_remove`: the last element takes the place of the removed one. -/
def swapRemove {α : Type*} (l : List α) (i : Nat) : List α :=
  match l.getLast? with
  | some last => (l.set i last).dropLast
  | none => []

/-- `swap_remove` removes one element and keeps the others. -/
theorem swapRemove_perm {α : Type*} {l : List α} {i : Nat} (inside : i < l.length) :
    (swapRemove l i).Perm (l.eraseIdx i) := by
  obtain ⟨init, last, rfl⟩ := List.eq_nil_or_concat l |>.resolve_left (by rintro rfl; simp at inside)
  simp only [List.concat_eq_append, List.length_append, List.length_singleton] at inside ⊢
  have whole : swapRemove (init ++ [last]) i = ((init ++ [last]).set i last).dropLast := by
    simp [swapRemove]
  rw [whole]
  by_cases atEnd : i = init.length
  · subst atEnd
    simp [List.eraseIdx_append_of_length_le]
  · have before : i < init.length := by omega
    rw [List.set_append_left _ _ before, List.dropLast_concat,
      List.eraseIdx_append_of_lt_length before]
    refine (List.set_perm_cons_eraseIdx before last).trans ?_
    exact (List.perm_append_singleton last _).symm

/-- The elements before the removed one stay where they are. -/
theorem take_swapRemove {α : Type*} {l : List α} {i : Nat} (inside : i < l.length) :
    (swapRemove l i).take i = l.take i := by
  cases last : l.getLast? with
  | none =>
      rw [List.getLast?_eq_none_iff.1 last] at inside
      cases inside
  | some x =>
      rw [swapRemove, last]
      simp only [List.dropLast_eq_take, List.length_set, List.take_take]
      rw [Nat.min_eq_left (by omega), List.take_set_of_le le_rfl]

/-- Those after it are visited next, in another order. -/
theorem drop_swapRemove_perm {α : Type*} {l : List α} {i : Nat} (inside : i < l.length) :
    ((swapRemove l i).drop i).Perm (l.drop (i + 1)) := by
  have whole := swapRemove_perm inside
  rw [List.eraseIdx_eq_take_drop_succ, ← List.take_append_drop i (swapRemove l i),
    take_swapRemove inside] at whole
  exact (List.perm_append_left_iff _).1 whole

namespace Core

variable {A M : Type*}

/-- A core thread that has just been spawned. -/
def new : Core A M where
  controls := []
  connected := true
  actors := []
  shuttingDown := false
  pc := .control
  log := []
  sent := 0
  sentBefore := none

/-- The log of one cell. -/
def trace (s : Core A M) (id : Nat) : List (Entry A M) := s.log.filter (·.cell = id)

def record (s : Core A M) (cell : Cell A) (inst : Nat) (event : Event A M) : Core A M :=
  { s with log := s.log ++ [{ cell := cell.id, inst, event }] }

/-- `match control.try_recv()`. -/
def recvControl (s : Core A M) : Core A M :=
  match s.controls with
  | .add cell :: rest => { s with controls := rest, pc := .start cell }
  | .shutdown :: rest => { s with controls := rest, shuttingDown := true }
  | [] => { s with shuttingDown := s.shuttingDown || !s.connected, pc := .visit 0 }

/-- `cell.start()` and what the loop does with its outcome. -/
def started (s : Core A M) (cell : Cell A) (after : A) (outcome : Outcome) : Core A M :=
  let cell' := { cell with actor := after }
  let logged := s.record cell cell.inst (.onStart cell.actor outcome)
  match outcome with
  | .returned => { logged with actors := s.actors ++ [cell'], pc := .control }
  | .panicked => { logged.record cell cell.inst (.left .detached) with pc := .drop cell' .control }
  | .aborted => { s with pc := .aborted }

/-- The head of `while i < actors.len()`, and what follows the loop. -/
def visited (s : Core A M) (i : Nat) : Core A M :=
  if i < s.actors.length then { s with pc := .poll (.first i) .recv }
  else if s.shuttingDown then { s with pc := .drain }
  else { s with pc := .control }

/-- The head of `for _ in 1..policy.batch_drain` with `left` turns to go. -/
def batchNext (i left : Nat) : Pc A M :=
  if left = 0 then .visit (i + 1) else .poll (.batch i left) .recv

/-- A cell leaves the actors for good and is stopped or dropped. -/
def leave (s : Core A M) (cell : Cell A) (actors : List (Cell A)) (why : Exit) (pc : Pc A M) :
    Core A M :=
  { s.record cell cell.inst (.left why) with actors := actors, pc := pc }

/-- What each call site of `poll_one` does with its outcome. -/
def polled (policy : Policy) (s : Core A M) (cell : Cell A) : Site → PollOutcome → Core A M
  | .first i, .worked => { s with pc := batchNext i (policy.batchDrain - 1) }
  | .first i, .panicked | .batch i _, .panicked => { s with pc := .detach i }
  | .first i, .empty => { s with pc := .closedCheck i }
  | .batch i left, .worked => { s with pc := batchNext i (left - 1) }
  | .batch i _, .empty => { s with pc := .visit (i + 1) }
  | .drain, .worked => { s with pc := .poll .drain .recv }
  | .drain, .empty => s.leave cell s.actors.tail .drained (.stop cell .drain)
  | .drain, .panicked => s.leave cell s.actors.tail .detached (.drop cell .drain)

/-- A step inside `poll_one`, called on the cell at `i`. -/
def pollNext (s : Core A M) (i : Nat) (site : Site) : PollNext A M → Core A M
  | .goOn cell pc events =>
      { s with
        actors := s.actors.set i cell
        pc := .poll site pc
        log := s.log ++ events.map fun (inst, event) => { cell := cell.id, inst, event } }
  | .unwound => { s with pc := .unwound }
  | .aborted => { s with pc := .aborted }

/-- After a destructor has run outside every panic boundary. -/
def afterDrop (s : Core A M) (pc : Pc A M) : Outcome → Core A M
  | .returned => { s with pc := pc }
  | .panicked => { s with pc := .unwound }
  | .aborted => { s with pc := .aborted }

/-- `let _ = cell.stop()`. -/
def stopped (s : Core A M) (cell : Cell A) (resume : Resume) (after : A) (outcome : Outcome) :
    Core A M :=
  if outcome = .aborted then
    { s with pc := .aborted }
  else
    { s.record cell cell.inst (.onStop cell.actor outcome) with
      pc := .drop { cell with actor := after } resume }

/-- What other threads do to the control channel. -/
def environment (s : Core A M) : Input A M → Option (Core A M)
  | .sendAdd actor factory restartPolicy =>
      if s.connected then
        some { s with
          controls := s.controls ++ [.add { id := s.sent, actor, factory, restartPolicy }]
          sent := s.sent + 1 }
      else
        none
  | .sendShutdown =>
      if s.connected then
        some { s with
          controls := s.controls ++ [.shutdown]
          sentBefore := s.sentBefore.or (some s.sent) }
      else
        none
  | .disconnect => if s.connected then some { s with connected := false } else none
  | _ => none

/-- The next step of `core_loop`. -/
def loopStep (policy : Policy) (s : Core A M) (input : Input A M) : Option (Core A M) :=
  match s.pc, input with
  | .control, .internal => some s.recvControl
  | .start cell, .ran after outcome => some (s.started cell after outcome)
  | .visit i, .internal => some (s.visited i)
  | .poll site (.returned outcome), .internal =>
      (s.actors[site.index]?).map fun cell => s.polled policy cell site outcome
  | .poll site pc, input =>
      (s.actors[site.index]?).bind fun cell =>
        (pollStep policy.overflowChecks cell pc input).map (s.pollNext site.index site)
  | .closedCheck i, .closedAndEmpty verdict =>
      (s.actors[i]?).map fun cell =>
        if verdict then
          s.leave cell (swapRemove s.actors i) .closedAndEmpty (.stop cell (.visit i))
        else
          { s with pc := .visit (i + 1) }
  | .detach i, .dropped outcome =>
      (s.actors[i]?).map fun cell =>
        (s.leave cell (swapRemove s.actors i) .detached (.visit i)).afterDrop (.visit i) outcome
  | .stop cell resume, .ran after outcome => some (s.stopped cell resume after outcome)
  | .drop _ resume, .dropped outcome => some (s.afterDrop resume.pc outcome)
  | .drain, .internal =>
      some { s with pc := if s.actors.isEmpty then .exited else .poll .drain .recv }
  | _, _ => none

def step (policy : Policy) (s : Core A M) (input : Input A M) : Option (Core A M) :=
  (s.environment input).orElse fun _ => s.loopStep policy input

end Core

/-- The states of a core thread, in runs whose steps all meet `ok`. -/
def CoreRuns {A M : Type*} (policy : Policy) (ok : Core A M → Input A M → Prop) (s : Core A M) :
    Prop :=
  Reach (Core.step policy) ok Core.new s

end AetherFlow.System
