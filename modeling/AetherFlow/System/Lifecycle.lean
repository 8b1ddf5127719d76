/-
Module: AetherFlow.System.Lifecycle
Purpose: The life of an actor as a grammar of events, and the proof that every run of `core_loop`
  keeps to it, whatever the controls, the mailboxes and the user code do. The place a cell is at says
  which phase of its life its log has reached.
Trusted boundary: none
Main exports: Phase, Life, Life.broken_untouched, Loc.phase, LifeInv, ExitInv, Lifecycle,
  lifecycle_of_run
-/
import AetherFlow.System.Cells

namespace AetherFlow.System

open Transition

variable {A M : Type*}

/-! ### The grammar -/

/-- Where an actor is in its life; the number is that of the instance in place. -/
inductive Phase where
  | added
  | running (inst : Nat)
  /-- `handle` has panicked and no decision is made. -/
  | broken (inst : Nat)
  /-- The factory has made the next instance. -/
  | made (inst : Nat)
  /-- The actor can only be detached. -/
  | failed
  | stopping (inst : Nat)
  | stopped
  | detached
deriving DecidableEq

/-- A log of one actor and the phase it leads to. -/
inductive Life : List (Entry A M) → Phase → Prop
  | added : Life [] .added
  | started {id i : Nat} {a : A} : Life [⟨id, i, .onStart a .returned⟩] (.running i)
  | startFailed {id i : Nat} {a : A} : Life [⟨id, i, .onStart a .panicked⟩] .failed
  | handled {log : List (Entry A M)} {id i : Nat} {a : A} {m : M} : Life log (.running i) →
      Life (log ++ [⟨id, i, .handle a m .returned⟩]) (.running i)
  | broke {log : List (Entry A M)} {id i : Nat} {a : A} {m : M} : Life log (.running i) →
      Life (log ++ [⟨id, i, .handle a m .panicked⟩]) (.broken i)
  /-- No factory, or no restart allowed. -/
  | gaveUp {log : List (Entry A M)} {i : Nat} : Life log (.broken i) → Life log .failed
  | made {log : List (Entry A M)} {id i : Nat} : Life log (.broken i) →
      Life (log ++ [⟨id, i + 1, .make .returned⟩]) (.made i)
  | makeFailed {log : List (Entry A M)} {id i : Nat} : Life log (.broken i) →
      Life (log ++ [⟨id, i + 1, .make .panicked⟩]) .failed
  | restarted {log : List (Entry A M)} {id i : Nat} {a : A} : Life log (.made i) →
      Life (log ++ [⟨id, i + 1, .onRestart a .returned⟩]) (.running (i + 1))
  | restartFailed {log : List (Entry A M)} {id i : Nat} {a : A} : Life log (.made i) →
      Life (log ++ [⟨id, i + 1, .onRestart a .panicked⟩]) .failed
  | leaves {log : List (Entry A M)} {id i : Nat} {why : Exit} (clean : why ≠ .detached) :
      Life log (.running i) → Life (log ++ [⟨id, i, .left why⟩]) (.stopping i)
  | stopped {log : List (Entry A M)} {id i : Nat} {a : A} {outcome : Outcome} :
      Life log (.stopping i) → Life (log ++ [⟨id, i, .onStop a outcome⟩]) .stopped
  | detached {log : List (Entry A M)} {id i : Nat} : Life log .failed →
      Life (log ++ [⟨id, i, .left .detached⟩]) .detached

/-- The event is a call on the actor value. -/
def Event.calls : Event A M → Bool
  | .onStart _ _ | .handle _ _ _ | .onRestart _ _ | .onStop _ _ => true
  | .make _ | .left _ => false

/-- The event is a `handle` that panicked. -/
def Event.breaks : Event A M → Bool
  | .handle _ _ .panicked => true
  | _ => false

/-- In this phase no call will be made on instance `n` any more, should it be broken. -/
def Phase.Bars : Phase → Nat → Prop
  | .running i, n | .stopping i, n => n < i
  | .broken i, n | .made i, n => n ≤ i
  | _, _ => True

theorem Life.bars {log : List (Entry A M)} {phase : Phase} (life : Life log phase) :
    ∀ e ∈ log, e.event.breaks = true → phase.Bars e.inst := by
  induction life with
  | added => simp
  | started => simp [Event.breaks]
  | startFailed | gaveUp | makeFailed | restartFailed | stopped | detached =>
      exact fun _ _ _ => trivial
  | handled life inductionHypothesis | leaves clean life inductionHypothesis
  | made life inductionHypothesis =>
      intro e member breaks
      rcases List.mem_append.1 member with old | new
      · exact inductionHypothesis e old breaks
      · rw [List.mem_singleton.1 new] at breaks
        cases breaks
  | broke life inductionHypothesis =>
      intro e member breaks
      rcases List.mem_append.1 member with old | new
      · exact (inductionHypothesis e old breaks).le
      · rw [List.mem_singleton.1 new]
        exact Nat.le_refl _
  | restarted life inductionHypothesis =>
      intro e member breaks
      rcases List.mem_append.1 member with old | new
      · exact Nat.lt_succ_of_le (inductionHypothesis e old breaks)
      · rw [List.mem_singleton.1 new] at breaks
        cases breaks

/-- No hook and no handler is ever called on an instance whose `handle` has panicked. -/
theorem Life.broken_untouched {log : List (Entry A M)} {phase : Phase} (life : Life log phase) :
    log.Pairwise fun e e' => e.event.breaks = true → e'.event.calls = true → e'.inst ≠ e.inst := by
  -- What the last event adds to the log of the events before it.
  have extend : ∀ {log : List (Entry A M)} {last : Entry A M},
      (log.Pairwise fun e e' => e.event.breaks = true → e'.event.calls = true → e'.inst ≠ e.inst) →
      (∀ e ∈ log, e.event.breaks = true → last.event.calls = true → last.inst ≠ e.inst) →
      (log ++ [last]).Pairwise
        fun e e' => e.event.breaks = true → e'.event.calls = true → e'.inst ≠ e.inst := by
    intro log last before fresh
    refine List.pairwise_append.2 ⟨before, List.pairwise_singleton _ _, ?_⟩
    intro e member e' isLast
    rw [List.mem_singleton.1 isLast]
    exact fresh e member
  induction life with
  | added => exact List.Pairwise.nil
  | started | startFailed => exact List.pairwise_singleton _ _
  | gaveUp _ inductionHypothesis => exact inductionHypothesis
  | handled life inductionHypothesis | broke life inductionHypothesis
  | leaves _ life inductionHypothesis | stopped life inductionHypothesis =>
      exact extend inductionHypothesis fun e member breaks _ => (life.bars e member breaks).ne'
  | made _ inductionHypothesis | makeFailed _ inductionHypothesis
  | detached _ inductionHypothesis =>
      refine extend inductionHypothesis fun _ _ _ calls => ?_
      cases calls
  | restarted life inductionHypothesis | restartFailed life inductionHypothesis =>
      exact extend inductionHypothesis fun e member breaks _ =>
        (Nat.lt_succ_of_le (life.bars e member breaks)).ne'

/-- An actor that has just left without a panic waits for its `on_stop`. -/
theorem Life.stopping_of_left {log : List (Entry A M)} {phase : Phase} (life : Life log phase)
    {id i : Nat} {why : Exit} (last : log.getLast? = some ⟨id, i, .left why⟩)
    (clean : why ≠ .detached) : phase = .stopping i := by
  induction life with
  | gaveUp _ inductionHypothesis => cases inductionHypothesis last
  | leaves =>
      simp only [List.getLast?_append, List.getLast?_singleton, Option.some_or, Option.some.injEq,
        Entry.mk.injEq] at last
      rw [last.2.1]
  | detached =>
      simp only [List.getLast?_append, List.getLast?_singleton, Option.some_or, Option.some.injEq,
        Entry.mk.injEq, Event.left.injEq] at last
      exact absurd last.2.2.symm clean
  | _ => simp at last

theorem Life.left_of_stopping {log : List (Entry A M)} {i : Nat} (life : Life log (.stopping i)) :
    ∃ id why, why ≠ .detached ∧ log.getLast? = some ⟨id, i, .left why⟩ := by
  cases life with
  | leaves clean _ => exact ⟨_, _, clean, List.getLast?_concat⟩

/-! ### Phases of the places -/

/-- What the program counter of `poll_one` says about the phase of the polled actor. -/
def PollPc.phase (pc : PollPc A M) (inst : Nat) : Phase :=
  match pc with
  | .recv | .handle _ | .returned .worked | .returned .empty => .running inst
  | .broken | .make => .broken inst
  | .onRestart _ => .made inst
  | .replace _ => .running (inst + 1)
  | .returned .panicked => .failed

def Loc.phase (loc : Loc A M) (inst : Nat) : Phase :=
  match loc with
  | .waiting => .added
  | .calm => .running inst
  | .polled pc => pc.phase inst
  | .failed => .failed
  | .stopping => .stopping inst

section Steps

variable {policy : Policy} {input : Input A M} {cell cell' : Cell A} {log : List (Entry A M)}
  {events : List (Nat × Event A M)}

/-- `poll_one` follows the grammar. -/
theorem Life.poll {pc pc' : PollPc A M}
    (move : PollMove policy.overflowChecks cell pc input cell' pc' events)
    (life : Life log (pc.phase cell.inst)) :
    Life (log ++ entries cell.id events) (pc'.phase cell'.inst) := by
  cases move with
  | empty | takes | replaced =>
      rw [entries_nil, List.append_nil]
      exact life
  | handled => exact life.handled
  | broke => exact life.broke
  | unsupervised =>
      rw [entries_nil, List.append_nil]
      exact life.gaveUp
  | @decided time allowed restarts =>
      rw [entries_nil, List.append_nil]
      cases allowed with
      | false => exact life.gaveUp
      | true => exact life
  | made => exact life.made
  | makeFailed => exact life.makeFailed
  | restarted => exact life.restarted
  | restartFailed => exact life.restartFailed

/-- Serving a cell takes its life to the phase of its next place. -/
theorem Life.move {loc loc' : Loc A M}
    (stepped : CellStep policy input cell loc events (some (cell', loc')))
    (life : Life log (loc.phase cell.inst)) :
    Life (log ++ entries cell.id events) (loc'.phase cell'.inst) := by
  cases stepped with
  | started =>
      cases life
      exact .started
  | visited | again | fails =>
      rw [entries_nil, List.append_nil]
      exact life
  | polls move => exact life.poll move
  | @calms _ outcome fine =>
      rw [entries_nil, List.append_nil]
      cases outcome with
      | worked | empty => exact life
      | panicked => exact absurd rfl fine
  | drained => exact life.leaves (by simp)
  | closed => exact life.leaves (by simp)

/-- A cell the core no longer has was stopped or detached. -/
theorem Life.leave {loc : Loc A M} (stepped : CellStep policy input cell loc events none)
    (life : Life log (loc.phase cell.inst)) :
    Life (log ++ entries cell.id events) .stopped ∨
      Life (log ++ entries cell.id events) .detached := by
  cases stepped with
  | startFailed =>
      cases life
      refine .inr ?_
      change Life ([_] ++ [_]) _
      exact .detached .startFailed
  | detached => exact .inr life.detached
  | drainFailed => exact .inr life.detached
  | stopped => exact .inl life.stopped

end Steps

/-! ### The grammar along runs -/

/-- Every cell lives up to its place, and a cell the core no longer has has ended. -/
def LivesPlaced (s : Core A M) : Prop :=
  Placed (fun cell loc log => Life log (loc.phase cell.inst))
    (fun _ log => Life log .stopped ∨ Life log .detached) s

structure LifeInv (s : Core A M) : Prop where
  placed : s.pc.dead = false → LivesPlaced s
  lives : ∀ id, ∃ phase, Life (s.trace id) phase

namespace LifeInv

variable {policy : Policy} {s t : Core A M} {input : Input A M}

theorem new : LifeInv (Core.new : Core A M) where
  placed _ := Placed.new
  lives _ := ⟨.added, .added⟩

/-- Every cell has a life wherever the cells are placed. -/
theorem of_placed (placed : LivesPlaced t) : LifeInv t where
  placed _ := placed
  lives id := by
    by_cases there : id ∈ t.ids
    · obtain ⟨spot, member, rfl⟩ := Multiset.mem_map.1 there
      exact ⟨_, placed.present spot member⟩
    · by_cases known : id < t.sent
      · rcases placed.gone id known there with stopped | detached
        · exact ⟨.stopped, stopped⟩
        · exact ⟨.detached, detached⟩
      · rw [placed.unknown id (by omega)]
        exact ⟨.added, .added⟩

/-- The core dies with every log still in the grammar. -/
theorem of_died (inv : LifeInv s) (alive : s.pc.dead = false) (died : Died s t) : LifeInv t := by
  refine ⟨fun lives => ?_, fun id => ?_⟩
  · rw [died.dead] at lives
    cases lives
  · rcases died.log with same | ⟨cell, member, grown⟩
    · rw [trace_same same]
      exact inv.lives id
    · rw [trace_append grown]
      split
      · rename_i same
        have failed := (inv.placed alive).present _ member
        exact ⟨.detached, same ▸ failed.detached⟩
      · exact inv.lives id

theorem step (inv : LifeInv s) (moved : s.step policy input = some t) : LifeInv t := by
  cases alive : s.pc.dead with
  | true =>
      rcases step_cases moved with moved | moved
      · obtain ⟨pc, log, -⟩ := environment_frame moved
        refine ⟨fun lives => ?_, fun id => ?_⟩
        · rw [pc, alive] at lives
          cases lives
        · rw [trace_same log]
          exact inv.lives id
      · rw [alive_of_loopStep moved] at alive
        cases alive
  | false =>
      have next := (inv.placed alive).step moved (fun _ _ _ _ => .added)
        (fun cell loc cell' loc' events log _ stepped _ life => life.move stepped)
        (fun cell loc events log _ stepped life => life.leave stepped)
      rcases next with placed | died
      · exact of_placed placed
      · exact inv.of_died alive died

end LifeInv

theorem CoreRuns.life {policy : Policy} {ok : Core A M → Input A M → Prop} {s : Core A M}
    (run : CoreRuns policy ok s) : LifeInv s :=
  run.invariant LifeInv.new fun _ _ _ inv _ moved => inv.step moved

/-! ### The end of the loop -/

/-- Apart from the control plane a step of the loop does not touch the channel or the shutdown flag,
    and it enters the drain only when the flag is set. -/
theorem loopStep_frame {policy : Policy} {s t : Core A M} {input : Input A M}
    (moved : s.loopStep policy input = some t) :
    (s.pc = .control ∧ t = s.recvControl) ∨
      ((t.controls = s.controls ∧ t.connected = s.connected ∧ t.shuttingDown = s.shuttingDown ∧
          t.sent = s.sent ∧ t.sentBefore = s.sentBefore) ∧
        (t.pc.draining = true → s.pc.draining = true ∨ s.shuttingDown = true) ∧
        (t.pc = .exited → t.actors = [])) := by
  unfold Core.loopStep at moved
  split at moved
  · rename_i at_
    cases moved
    exact .inl ⟨at_, rfl⟩
  · rename_i cell after outcome at_
    cases moved
    cases outcome <;> exact .inr ⟨⟨rfl, rfl, rfl, rfl, rfl⟩, nofun, nofun⟩
  · rename_i i at_
    cases moved
    refine .inr ?_
    unfold Core.visited
    split
    · exact ⟨⟨rfl, rfl, rfl, rfl, rfl⟩, nofun, nofun⟩
    · split
      · rename_i down
        exact ⟨⟨rfl, rfl, rfl, rfl, rfl⟩, fun _ => .inr down, nofun⟩
      · exact ⟨⟨rfl, rfl, rfl, rfl, rfl⟩, nofun, nofun⟩
  · rename_i site outcome at_
    obtain ⟨cell, found, rfl⟩ := Option.map_eq_some_iff.1 moved
    rw [at_]
    refine .inr ?_
    cases site with
    | first i | batch i left =>
        cases outcome with
        | worked =>
            refine ⟨⟨rfl, rfl, rfl, rfl, rfl⟩, ?_, ?_⟩
            all_goals
              simp only [Core.polled, Core.batchNext]
              split <;> nofun
        | empty | panicked => exact ⟨⟨rfl, rfl, rfl, rfl, rfl⟩, nofun, nofun⟩
    | drain => cases outcome <;> exact ⟨⟨rfl, rfl, rfl, rfl, rfl⟩, fun _ => .inl rfl, nofun⟩
  · rename_i site pc at_ _
    obtain ⟨cell, found, rest⟩ := Option.bind_eq_some_iff.1 moved
    obtain ⟨next, stepped, rfl⟩ := Option.map_eq_some_iff.1 rest
    rw [at_]
    refine .inr ?_
    cases next with
    | goOn cell' pc' events =>
        refine ⟨⟨rfl, rfl, rfl, rfl, rfl⟩, fun draining => .inl ?_, nofun⟩
        cases site with
        | drain => rfl
        | _ => cases draining
    | unwound | aborted => exact ⟨⟨rfl, rfl, rfl, rfl, rfl⟩, nofun, nofun⟩
  · obtain ⟨cell, found, rfl⟩ := Option.map_eq_some_iff.1 moved
    refine .inr ?_
    split <;> exact ⟨⟨rfl, rfl, rfl, rfl, rfl⟩, nofun, nofun⟩
  · rename_i i outcome at_
    obtain ⟨cell, found, rfl⟩ := Option.map_eq_some_iff.1 moved
    cases outcome <;> exact .inr ⟨⟨rfl, rfl, rfl, rfl, rfl⟩, nofun, nofun⟩
  · rename_i cell resume after outcome at_
    cases moved
    rw [at_]
    refine .inr ?_
    unfold Core.stopped
    split
    · exact ⟨⟨rfl, rfl, rfl, rfl, rfl⟩, nofun, nofun⟩
    · refine ⟨⟨rfl, rfl, rfl, rfl, rfl⟩, fun draining => .inl ?_, nofun⟩
      cases resume <;> first | rfl | cases draining
  · rename_i cell resume outcome at_
    cases moved
    rw [at_]
    refine .inr ?_
    cases outcome with
    | returned =>
        refine ⟨⟨rfl, rfl, rfl, rfl, rfl⟩, fun draining => .inl ?_, ?_⟩
        · cases resume <;> first | rfl | cases draining
        · cases resume <;> nofun
    | panicked | aborted => exact ⟨⟨rfl, rfl, rfl, rfl, rfl⟩, nofun, nofun⟩
  · rename_i at_
    cases moved
    rw [at_]
    refine .inr ⟨⟨rfl, rfl, rfl, rfl, rfl⟩, fun _ => .inl rfl, fun exited => ?_⟩
    by_cases empty : s.actors.isEmpty = true
    · exact List.isEmpty_iff.1 empty
    · simp [empty] at exited
  · cases moved

/-- The loop itself sends no cells. -/
theorem sent_of_loopStep {policy : Policy} {s t : Core A M} {input : Input A M}
    (moved : s.loopStep policy input = some t) :
    t.sent = s.sent ∧ t.sentBefore = s.sentBefore := by
  obtain ⟨-, rfl⟩ | ⟨⟨-, -, -, sent, before⟩, -⟩ := loopStep_frame moved
  · unfold Core.recvControl
    split <;> exact ⟨rfl, rfl⟩
  · exact ⟨sent, before⟩

theorem sent_le_of_step {policy : Policy} {s t : Core A M} {input : Input A M}
    (moved : s.step policy input = some t) : s.sent ≤ t.sent := by
  rcases step_cases moved with moved | moved
  · cases input with
    | sendAdd actor factory restartPolicy | sendShutdown | disconnect =>
        obtain ⟨-, rfl⟩ := guarded moved
        first | exact Nat.le_succ _ | exact Nat.le_refl _
    | _ => cases moved
  · exact (sent_of_loopStep moved).1.ge

/-- A cell sent before `Shutdown` stays one. -/
theorem due_of_step {policy : Policy} {s t : Core A M} {input : Input A M} {id : Nat}
    (due : id < s.sentBefore.getD s.sent) (moved : s.step policy input = some t) :
    id < t.sentBefore.getD t.sent := by
  rcases step_cases moved with moved | moved
  · cases input with
    | sendAdd actor factory restartPolicy =>
        obtain ⟨-, rfl⟩ := guarded moved
        cases before : s.sentBefore with
        | none =>
            rw [before] at due
            exact due.trans (Nat.lt_succ_self _)
        | some n =>
            rw [before] at due
            exact due
    | sendShutdown =>
        obtain ⟨-, rfl⟩ := guarded moved
        cases before : s.sentBefore <;> simpa [before] using due
    | disconnect =>
        obtain ⟨-, rfl⟩ := guarded moved
        exact due
    | _ => cases moved
  · obtain ⟨sent, before⟩ := sent_of_loopStep moved
    rwa [before, sent]

/-- In the drain `poll_one` reports an empty mailbox only right after `try_recv` found none. -/
theorem emptied_of_loopStep {policy : Policy} {s t : Core A M} {input : Input A M}
    (moved : s.loopStep policy input = some t) (at_ : t.pc = .poll .drain (.returned .empty)) :
    s.pc = .poll .drain .recv ∧ input = .received none ∧ t.actors[0]? = s.actors[0]? := by
  unfold Core.loopStep at moved
  split at moved
  · rename_i control
    cases moved
    unfold Core.recvControl at at_
    split at at_
    · cases at_
    · rw [control] at at_
      cases at_
    · cases at_
  · rename_i cell after outcome _
    cases moved
    cases outcome <;> cases at_
  · cases moved
    unfold Core.visited at at_
    split at at_
    · cases at_
    · split at at_ <;> cases at_
  · rename_i site outcome _
    obtain ⟨cell, -, rfl⟩ := Option.map_eq_some_iff.1 moved
    cases site with
    | first i | batch i left =>
        cases outcome with
        | worked =>
            simp only [Core.polled, Core.batchNext] at at_
            split at at_ <;> cases at_
        | empty | panicked => cases at_
    | drain => cases outcome <;> cases at_
  · rename_i site pc polling _
    obtain ⟨cell, found, rest⟩ := Option.bind_eq_some_iff.1 moved
    obtain ⟨next, stepped, rfl⟩ := Option.map_eq_some_iff.1 rest
    cases next with
    | goOn cell' pc' events =>
        cases at_
        have move := pollMove_of_pollStep stepped
        generalize empty : PollPc.returned PollOutcome.empty = pc' at move
        cases move with
        | empty =>
            have inside := (List.getElem?_eq_some_iff.1 found).1
            exact ⟨polling, rfl, (List.getElem?_set_self inside).trans found.symm⟩
        | @decided _ allowed => cases allowed <;> cases empty
        | _ => cases empty
    | unwound | aborted => cases at_
  · obtain ⟨cell, -, rfl⟩ := Option.map_eq_some_iff.1 moved
    split at at_ <;> cases at_
  · rename_i i outcome _
    obtain ⟨cell, -, rfl⟩ := Option.map_eq_some_iff.1 moved
    cases outcome <;> cases at_
  · cases moved
    unfold Core.stopped at at_
    split at at_ <;> cases at_
  · rename_i cell resume outcome _
    cases moved
    cases outcome with
    | returned => cases resume <;> cases at_
    | panicked | aborted => cases at_
  · cases moved
    by_cases empty : s.actors.isEmpty = true
    · simp [empty] at at_
    · simp [empty] at at_
  · cases moved

/-- The drain stops the cell it has found empty. -/
theorem drain_of_stopping {policy : Policy} {s : Core A M} {cell cell' : Cell A} {loc : Loc A M}
    {events : List (Nat × Event A M)} (serves : s.Serves cell loc)
    (stepped : CellStep policy .internal cell loc events (some (cell', .stopping)))
    (drains : s.pc.draining = true) :
    s.pc = .poll .drain (.returned .empty) ∧ s.actors[0]? = some cell := by
  cases stepped
  cases at_ : s.pc with
  | poll site pc =>
      simp only [Core.Serves, at_] at serves
      obtain ⟨found, same⟩ := serves
      cases same
      cases site with
      | drain => exact ⟨rfl, found⟩
      | first i | batch i left => simp [at_, Pc.draining] at drains
  | _ => simp [Core.Serves, at_] at serves

/-- Control `c'` does not hold a cell that should have come before control `c`. -/
def Core.InTurn (sentBefore : Option Nat) (c c' : Control A) : Prop :=
  c = .shutdown → ∀ cell, c' = .add cell → ∀ n, sentBefore = some n → n ≤ cell.id

/-- The control channel is first in, first out, and the drain starts only on shutdown. -/
structure ExitInv (s : Core A M) : Prop where
  inTurn : s.controls.Pairwise (Core.InTurn s.sentBefore)
  marked : .shutdown ∈ s.controls → s.sentBefore ≠ none
  received : s.shuttingDown = true → ∀ cell, .add cell ∈ s.controls →
    ∀ n, s.sentBefore = some n → n ≤ cell.id
  bound : ∀ n, s.sentBefore = some n → n ≤ s.sent
  closed : s.shuttingDown = true → s.sentBefore = none → s.connected = false ∧ s.controls = []
  drains : s.pc.draining = true → s.shuttingDown = true
  empty : s.pc = .exited → s.actors = []

namespace ExitInv

variable {policy : Policy} {s t : Core A M} {input : Input A M}

theorem new : ExitInv (Core.new : Core A M) where
  inTurn := List.Pairwise.nil
  marked := nofun
  received := nofun
  bound := nofun
  closed := nofun
  drains := nofun
  empty := nofun

theorem recvControl (inv : ExitInv s) : ExitInv s.recvControl := by
  unfold Core.recvControl
  split
  · rename_i cell rest controls
    have inTurn := inv.inTurn
    rw [controls] at inTurn
    have later : ∀ c ∈ rest, c ∈ s.controls := fun c member => by
      rw [controls]
      exact List.mem_cons_of_mem _ member
    refine { inv with
      inTurn := inTurn.of_cons
      marked := fun there => inv.marked (later _ there)
      received := fun down other there => inv.received down other (later _ there)
      closed := ?_, drains := nofun, empty := nofun }
    intro down none_
    have := (inv.closed down none_).2
    rw [controls] at this
    cases this
  · rename_i rest controls
    have inTurn := inv.inTurn
    rw [controls] at inTurn
    obtain ⟨first, inTurn⟩ := List.pairwise_cons.1 inTurn
    have marked := inv.marked (by rw [controls]; exact List.mem_cons_self)
    exact { inv with
      inTurn := inTurn
      marked := fun _ => marked
      received := fun _ cell there => first _ there rfl cell rfl
      closed := fun _ none_ => absurd none_ marked
      drains := fun _ => rfl }
  · rename_i controls
    refine { inv with received := ?_, closed := ?_, drains := nofun, empty := nofun }
    · intro _ cell there
      rw [controls] at there
      cases there
    · intro down none_
      simp only [Bool.or_eq_true, Bool.not_eq_true'] at down
      rcases down with down | disconnected
      · exact inv.closed down none_
      · exact ⟨disconnected, controls⟩

theorem environment (inv : ExitInv s) (moved : s.environment input = some t) : ExitInv t := by
  cases input with
  | sendAdd actor factory restartPolicy =>
      obtain ⟨connected, rfl⟩ := guarded moved
      have late : ∀ n, s.sentBefore = some n → n ≤ s.sent := inv.bound
      refine { inv with inTurn := ?_, marked := ?_, received := ?_, bound := ?_, closed := ?_ }
      · refine List.pairwise_append.2 ⟨inv.inTurn, List.pairwise_singleton _ _, ?_⟩
        rintro c - c' new - cell rfl n before
        cases List.mem_singleton.1 new
        exact late n before
      · intro there
        exact inv.marked (by simpa using there)
      · intro down cell there n before
        rcases List.mem_append.1 there with old | new
        · exact inv.received down cell old n before
        · cases List.mem_singleton.1 new
          exact late n before
      · exact fun n before => (late n before).trans (Nat.le_succ _)
      · intro down none_
        rw [(inv.closed down none_).1] at connected
        cases connected
  | sendShutdown =>
      obtain ⟨connected, rfl⟩ := guarded moved
      -- The mark is set by the first `Shutdown` and stays.
      have mark : ∀ n, s.sentBefore.or (some s.sent) = some n →
          s.sentBefore = some n ∨ s.sentBefore = none ∧ n = s.sent := by
        intro n marked
        cases before : s.sentBefore with
        | none =>
            rw [before] at marked
            cases marked
            exact .inr ⟨rfl, rfl⟩
        | some k =>
            rw [before] at marked
            exact .inl marked
      refine { inv with inTurn := ?_, marked := ?_, received := ?_, bound := ?_, closed := ?_ }
      · refine List.pairwise_append.2 ⟨?_, List.pairwise_singleton _ _, ?_⟩
        · refine inv.inTurn.imp_of_mem fun {c c'} there _ before => ?_
          rintro rfl cell same n marked
          rcases mark n marked with old | ⟨none_, -⟩
          · exact before rfl cell same n old
          · exact absurd none_ (inv.marked there)
        · rintro c - c' new - cell rfl
          cases List.mem_singleton.1 new
      · intro _ none_
        cases before : s.sentBefore with
        | none => simp [before] at none_
        | some k => simp [before] at none_
      · intro down cell there n marked
        have old : .add cell ∈ s.controls := by simpa using there
        rcases mark n marked with before | ⟨none_, -⟩
        · exact inv.received down cell old n before
        · rw [(inv.closed down none_).2] at old
          cases old
      · intro n marked
        rcases mark n marked with before | ⟨-, rfl⟩
        · exact inv.bound n before
        · exact le_rfl
      · intro _ none_
        cases before : s.sentBefore with
        | none => simp [before] at none_
        | some k => simp [before] at none_
  | disconnect =>
      obtain ⟨connected, rfl⟩ := guarded moved
      exact { inv with closed := fun down none_ => ⟨rfl, (inv.closed down none_).2⟩ }
  | _ => cases moved

theorem step (inv : ExitInv s) (moved : s.step policy input = some t) : ExitInv t := by
  rcases step_cases moved with moved | moved
  · exact inv.environment moved
  · obtain ⟨-, rfl⟩ | ⟨⟨controls, connected, down, sent, before⟩, drains, empty⟩ :=
      loopStep_frame moved
    · exact inv.recvControl
    · refine ⟨?_, ?_, ?_, ?_, ?_, ?_, empty⟩
      · rw [controls, before]
        exact inv.inTurn
      · rw [controls, before]
        exact inv.marked
      · rw [controls, down, before]
        exact inv.received
      · rw [before, sent]
        exact inv.bound
      · rw [down, before, connected, controls]
        exact inv.closed
      · rw [down]
        intro draining
        rcases drains draining with before | flag
        · exact inv.drains before
        · exact flag

/-- A cell that was due before the loop ended was received. -/
theorem known_of_due (exits : ExitInv s) {id : Nat}
    (due : id < s.sentBefore.getD s.sent) : id < s.sent := by
  cases before : s.sentBefore with
  | none => simpa [before] using due
  | some n =>
      rw [before] at due
      exact due.trans_le (exits.bound n before)

/-- A cell that was due before the loop ended is no longer with the core. -/
theorem absent_of_due (exits : ExitInv s) (exited : s.pc = .exited) {id : Nat}
    (due : id < s.sentBefore.getD s.sent) : id ∉ s.ids := by
  intro there
  have down := exits.drains (by rw [exited]; rfl)
  obtain ⟨spot, member, rfl⟩ := Multiset.mem_map.1 there
  rcases cell_cases member with ⟨-, waiting | starting⟩ | ⟨-, resume, stopping⟩ | ⟨actor, -⟩
  · cases before : s.sentBefore with
    | none =>
        rw [(exits.closed down before).2] at waiting
        cases waiting
    | some n =>
        have late := exits.received down spot.1 waiting n before
        rw [before] at due
        exact absurd due (not_lt.2 late)
  · rw [exited] at starting
    cases starting
  · rw [exited] at stopping
    cases stopping
  · rw [exits.empty exited] at actor
    cases actor

end ExitInv

theorem CoreRuns.exits {policy : Policy} {ok : Core A M → Input A M → Prop} {s : Core A M}
    (run : CoreRuns policy ok s) : ExitInv s :=
  run.invariant ExitInv.new fun _ _ _ inv _ moved => inv.step moved

/-! ### The lifecycle of every actor -/

/-- What every run keeps to. -/
structure Lifecycle (s : Core A M) : Prop where
  /-- The log of every actor follows the grammar. -/
  grammar : ∀ id, ∃ phase, Life (s.trace id) phase
  /-- No hook and no handler runs on an instance whose `handle` has panicked. -/
  brokenUntouched : ∀ id, (s.trace id).Pairwise fun e e' =>
    e.event.breaks = true → e'.event.calls = true → e'.inst ≠ e.inst
  /-- Once an actor has left without a panic its `on_stop` is the very next call. -/
  stopsNext : ∀ id i, Life (s.trace id) (.stopping i) → s.pc.dead = false →
    ∃ cell resume, s.pc = .stop cell resume ∧ cell.id = id ∧ cell.inst = i
  /-- When the loop has ended, every actor sent before `Shutdown` was stopped or detached. -/
  ended : s.pc = .exited → ∀ id < s.sentBefore.getD s.sent,
    Life (s.trace id) .stopped ∨ Life (s.trace id) .detached

/-- Only the core's next call can be the `on_stop` of a stopping actor. -/
theorem stopping_of_phase {s : Core A M} {spot : Cell A × Loc A M} (there : spot ∈ s.cells) {i : Nat}
    (stopping : spot.2.phase spot.1.inst = .stopping i) :
    ∃ resume, s.pc = .stop spot.1 resume ∧ spot.1.inst = i := by
  obtain ⟨cell, loc⟩ := spot
  rcases cell_cases there with ⟨waits, -⟩ | ⟨stops, resume, at_⟩ | ⟨-, calm | ⟨j, focus⟩⟩
  · cases waits
    cases stopping
  · cases stops
    cases stopping
    exact ⟨resume, at_, rfl⟩
  · cases calm
    cases stopping
  · exfalso
    cases at_ : s.pc with
    | poll site pc =>
        rw [at_] at focus
        cases focus
        cases pc with
        | returned outcome => cases outcome <;> cases stopping
        | _ => cases stopping
    | detach k =>
        rw [at_] at focus
        cases focus
        cases stopping
    | _ => simp [at_, Pc.focus] at focus

/-- Every run of `core_loop` keeps every actor to its lifecycle. -/
theorem lifecycle_of_run {policy : Policy} {s : Core A M} (run : CoreRuns policy Free s) :
    Lifecycle s := by
  have life := run.life
  have exits := run.exits
  refine ⟨life.lives, fun id => ?_, fun id i stopping alive => ?_, fun exited id due => ?_⟩
  · obtain ⟨phase, lives⟩ := life.lives id
    exact lives.broken_untouched
  · have placed := life.placed alive
    obtain ⟨id', why, clean, last⟩ := stopping.left_of_stopping
    by_cases there : id ∈ s.ids
    · obtain ⟨spot, member, rfl⟩ := Multiset.mem_map.1 there
      have phase := (placed.present spot member).stopping_of_left last clean
      obtain ⟨resume, at_, inst⟩ := stopping_of_phase member phase
      exact ⟨spot.1, resume, at_, rfl, inst⟩
    · exfalso
      by_cases known : id < s.sent
      · rcases placed.gone id known there with stopped | detached
        · cases stopped.stopping_of_left last clean
        · cases detached.stopping_of_left last clean
      · rw [placed.unknown id (by omega)] at last
        cases last
  · have placed := life.placed (by rw [exited]; rfl)
    exact placed.gone id (exits.known_of_due due) (exits.absent_of_due exited due)

/-- One supervised actor: its `handle` panics on the first message, the fresh instance handles the
    second, and `Shutdown` finds the mailbox empty. -/
def sampleInputs : List (Input Nat Nat) :=
  [.sendAdd 0 true .always, .sendShutdown, .internal, .ran 1 .returned, .internal, .internal,
    .internal, .received (some 7), .ran 2 .panicked, .now 0, .ran 3 .returned, .ran 4 .returned,
    .dropped .returned, .internal, .internal, .internal, .received (some 8), .ran 5 .returned,
    .internal, .received none, .internal, .ran 6 .returned, .dropped .returned, .internal]

def samplePolicy : Policy := { batchDrain := 1, overflowChecks := true }

def sampleEnd : Core Nat Nat where
  controls := []
  connected := true
  actors := []
  shuttingDown := true
  pc := .exited
  log :=
    [⟨0, 0, .onStart 0 .returned⟩, ⟨0, 0, .handle 1 7 .panicked⟩, ⟨0, 1, .make .returned⟩,
      ⟨0, 1, .onRestart 3 .returned⟩, ⟨0, 1, .handle 4 8 .returned⟩, ⟨0, 1, .left .drained⟩,
      ⟨0, 1, .onStop 5 .returned⟩]
  sent := 1
  sentBefore := some 1

theorem sample_runs : CoreRuns samplePolicy Free sampleEnd :=
  reach_of_exec (show exec (Core.step samplePolicy) Core.new sampleInputs = some sampleEnd from rfl)

theorem lifecycle_of_sample : sampleEnd.pc = .exited ∧ Lifecycle sampleEnd :=
  ⟨rfl, lifecycle_of_run sample_runs⟩

end AetherFlow.System
