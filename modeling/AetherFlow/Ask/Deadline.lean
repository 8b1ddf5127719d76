/-
Module: AetherFlow.Ask.Deadline
Purpose: One `ask_timeout` call with the clock, for every behaviour of the mailbox it sends to and of the
  `Responder`'s holder. The call is two loops: `send_blocking` retries while the mailbox is full and
  never looks at the clock, and the wait for the reply has a deadline that is computed when the send
  is over. The state counts the iterations and steps that begin once the time the caller asked for
  is up.
Trusted boundary: human-reviewed transcription of `ActorRef::ask_timeout` and `ActorRef::send_blocking`
Main exports: AskTimeout, AskTimeout.step, WholeCallBounded, inTime
-/
import Mathlib.Data.Nat.Basic
import AetherFlow.Ask.Reply
import AetherFlow.Lib.Transition
import AetherFlow.Mpsc.Queue

namespace AetherFlow.Ask

open Mpsc (SendAnswer)
open Transition

/-- What the load of the reply cell's state found. -/
inductive Look (R : Type*) where
  | pending
  | replied (value : R)
  | abandoned

/-- Where the call stands. `late` marks an iteration that began when the caller's time was up. -/
inductive DeadlinePc (R : Type*) where
  | entry
  /-- `make_msg` runs. -/
  | making
  /-- The top of the loop in `send_blocking`. -/
  | send
  | sending (late : Bool)
  /-- Told `Full`: `spin_loop`, then again. -/
  | spin
  /-- The message is in the mailbox; about to read the clock for the deadline. -/
  | sent
  /-- The top of the wait for the reply. `none` is a deadline no `Instant` can hold. -/
  | poll (deadline : Option Nat)
  /-- The cell is `PENDING`; about to read the clock. -/
  | pending (deadline : Option Nat) (late : Bool)
  | backoff (deadline : Option Nat)
  /-- The cell is `REPLIED`; about to move the value out. -/
  | taking (value : R)
  | returned (result : Except AskError R)

structure AskTimeout (R : Type*) where
  clock : Nat
  calledAt : Nat
  timeout : Nat
  /-- The greatest `Instant`. -/
  limit : Nat
  pc : DeadlinePc R
  /-- Iterations of either loop that began when the caller's time was up. -/
  late : Nat
  /-- Steps the call has made since then. -/
  lateSteps : Nat

inductive DeadlineAct (R : Type*) where
  /-- Time passes. -/
  | tick (d : Nat)
  /-- The deadlock guard, with what it found. -/
  | guard (onTargetCore : Bool)
  /-- `make_msg` returns. -/
  | made
  | trySend
  | sendReturns (answer : SendAnswer)
  | load (look : Look R)
  /-- A step that neither the mailbox nor the cell has a say in. -/
  | next

def DeadlineAct.isTick {R : Type*} : DeadlineAct R → Bool
  | .tick _ => true
  | _ => false

namespace AskTimeout

variable {R : Type*}

/-- `ask_timeout(timeout, ..)` is called when the clock shows `now`. -/
def start (R : Type*) (now timeout limit : Nat) : AskTimeout R where
  clock := now
  calledAt := now
  timeout := timeout
  limit := limit
  pc := .entry
  late := 0
  lateSteps := 0

/-- The caller's time is up. -/
def past (s : AskTimeout R) : Bool := s.calledAt + s.timeout ≤ s.clock

/-- `Instant::now().checked_add(timeout)`. -/
def deadline (s : AskTimeout R) : Option Nat :=
  if s.clock + s.timeout ≤ s.limit then some (s.clock + s.timeout) else none

/-- `Instant::now() >= d`; a deadline that overflowed never comes. -/
def expired (s : AskTimeout R) : Option Nat → Bool
  | some d => d ≤ s.clock
  | none => false

/-- The call makes a step within an iteration, or between two. -/
def goTo (s : AskTimeout R) (pc : DeadlinePc R) : AskTimeout R :=
  { s with pc := pc, lateSteps := s.lateSteps + s.past.toNat }

/-- The call begins an iteration of one of its loops. -/
def iterate (s : AskTimeout R) (pc : DeadlinePc R) : AskTimeout R :=
  { s.goTo pc with late := s.late + s.past.toNat }

def step (s : AskTimeout R) : DeadlineAct R → Option (AskTimeout R)
  | .tick d => some { s with clock := s.clock + d }
  | .guard onTargetCore =>
      match s.pc with
      | .entry =>
          some (s.goTo (if onTargetCore then .returned (.error .wouldBlockCallingCore) else .making))
      | _ => none
  | .made =>
      match s.pc with
      | .making => some (s.goTo .send)
      | _ => none
  | .trySend =>
      match s.pc with
      | .send => some (s.iterate (.sending s.past))
      | _ => none
  | .sendReturns answer =>
      match s.pc, answer with
      | .sending _, .accepted => some (s.goTo .sent)
      | .sending _, .full => some (s.goTo .spin)
      | .sending _, .closed => some (s.goTo (.returned (.error .closed)))
      | _, _ => none
  | .load look =>
      match s.pc, look with
      | .poll deadline, .pending => some (s.iterate (.pending deadline s.past))
      | .poll _, .replied value => some (s.iterate (.taking value))
      | .poll _, .abandoned => some (s.iterate (.returned (.error .noReply)))
      | _, _ => none
  | .next =>
      match s.pc with
      | .spin => some (s.goTo .send)
      | .sent => some (s.goTo (.poll s.deadline))
      | .pending deadline _ =>
          some (s.goTo (if s.expired deadline then .returned (.error .timeout) else .backoff deadline))
      | .backoff deadline => some (s.goTo (.poll deadline))
      | .taking value => some (s.goTo (.returned (.ok value)))
      | _ => none

end AskTimeout

/-- Once the caller's time is up the call begins at most one more iteration and makes at most four more
    steps; and it is never stuck before it returns. -/
structure WholeCallBounded {R : Type*} (s : AskTimeout R) : Prop where
  iterations : s.late ≤ 1
  steps : s.lateSteps ≤ 4
  goes_on : (∃ result, s.pc = .returned result) ∨ ∃ a t, a.isTick = false ∧ s.step a = some t

/-- The mailbox and the `Responder` are in time: a `try_send` that begins when the caller's time is up is
    not told `Full`, nor that the message is in, and a look at the cell that begins then and finds
    it `PENDING` is not followed by a clock that shows less than `timeout` since the send. -/
def inTime {R : Type*} (s : AskTimeout R) (a : DeadlineAct R) : Bool :=
  match s.pc, a with
  | .sending true, .sendReturns answer => answer = .closed
  | .pending deadline true, .next => s.expired deadline
  | _, _ => true

/-! ### The bound -/

namespace DeadlinePc

variable {R : Type*}

/-- How many iterations may still begin. -/
@[simp] def iterationsLeft : DeadlinePc R → Nat
  | .sending true | .pending _ true | .taking _ | .returned _ => 0
  | _ => 1

/-- How many steps are left once the caller's time is up. -/
@[simp] def stepsLeft : DeadlinePc R → Nat
  | .entry | .sending false | .pending _ false => 4
  | .making | .spin | .sent | .backoff _ => 3
  | .send | .poll _ => 2
  | .sending true | .pending _ true | .taking _ => 1
  | .returned _ => 0

theorem stepsLeft_le (pc : DeadlinePc R) : pc.stepsLeft ≤ 4 := by
  rcases pc with _ | _ | _ | (_ | _) | _ | _ | _ | ⟨_, _ | _⟩ | _ | _ | _ <;>
    simp [stepsLeft]

end DeadlinePc

/-- What every step of a call in time keeps. -/
structure Budget {R : Type*} (s : AskTimeout R) : Prop where
  iterations : s.late + s.pc.iterationsLeft ≤ 1
  steps : s.lateSteps + s.pc.stepsLeft ≤ 4
  early : s.past = false → s.late = 0 ∧ s.lateSteps = 0 ∧
    s.pc ≠ .sending true ∧ ∀ deadline, s.pc ≠ .pending deadline true

namespace Budget

variable {R : Type*} {s t : AskTimeout R} {pc : DeadlinePc R}

theorem start (now timeout limit : Nat) : Budget (.start R now timeout limit) :=
  ⟨le_rfl, le_rfl, fun _ => ⟨rfl, rfl, fun there => (by cases there), fun _ there => (by cases there)⟩⟩

/-- A late step is paid for. -/
theorem paid (budget : Budget s) (steps : s.past = true → pc.stepsLeft + 1 ≤ s.pc.stepsLeft) :
    s.lateSteps + s.past.toNat + pc.stepsLeft ≤ 4 := by
  have before := budget.steps
  have most := pc.stepsLeft_le
  cases past : s.past with
  | false =>
      have := (budget.early past).2.1
      simp only [Bool.toNat_false]
      omega
  | true =>
      have := steps past
      simp only [Bool.toNat_true]
      omega

/-- A step that begins no iteration. -/
theorem goTo {pc₀ : DeadlinePc R} (budget : Budget s) (stands : s.pc = pc₀)
    (iterations : pc.iterationsLeft ≤ pc₀.iterationsLeft)
    (steps : pc.stepsLeft + 1 ≤ pc₀.stepsLeft)
    (plain : pc ≠ .sending true ∧ ∀ deadline, pc ≠ .pending deadline true) :
    Budget (s.goTo pc) where
  iterations := (Nat.add_le_add_left (stands ▸ iterations) _).trans budget.iterations
  steps := budget.paid (fun _ => stands ▸ steps)
  early early := by
    have early' : s.past = false := early
    obtain ⟨none, nothing, _⟩ := budget.early early'
    refine ⟨none, ?_, plain⟩
    show s.lateSteps + s.past.toNat = 0
    rw [early', nothing]
    rfl

/-- A step that begins an iteration, the last one if the caller's time is up. -/
theorem iterate {pc₀ : DeadlinePc R} (budget : Budget s) (stands : s.pc = pc₀)
    (first : pc₀.iterationsLeft = 1) (last : s.past = true → pc.iterationsLeft = 0)
    (steps : s.past = true → pc.stepsLeft + 1 ≤ pc₀.stepsLeft)
    (plain : s.past = false → pc.iterationsLeft ≤ 1 ∧ pc ≠ .sending true ∧
      ∀ deadline, pc ≠ .pending deadline true) :
    Budget (s.iterate pc) where
  iterations := by
    have before := budget.iterations
    rw [stands, first] at before
    show s.late + s.past.toNat + pc.iterationsLeft ≤ 1
    cases past : s.past with
    | false =>
        have := (budget.early past).1
        have := (plain past).1
        simp only [Bool.toNat_false]
        omega
    | true =>
        have := last past
        simp only [Bool.toNat_true]
        omega
  steps := budget.paid (stands ▸ steps)
  early early := by
    have early' : s.past = false := early
    obtain ⟨none, nothing, _⟩ := budget.early early'
    refine ⟨?_, ?_, (plain early').2⟩
    · show s.late + s.past.toNat = 0
      rw [early', none]
      rfl
    · show s.lateSteps + s.past.toNat = 0
      rw [early', nothing]
      rfl

/-- An iteration that is not over when the caller's time is up began earlier, or its answer is in
    time. -/
theorem step {a : DeadlineAct R} (budget : Budget s) (met : inTime s a = true)
    (moved : s.step a = some t) : Budget t := by
  cases a with
  | tick d =>
      cases moved
      refine ⟨budget.iterations, budget.steps, ?_⟩
      intro early
      refine budget.early ?_
      simp only [AskTimeout.past, decide_eq_false_iff_not] at early ⊢
      omega
  | guard onTargetCore =>
      simp only [AskTimeout.step] at moved
      split at moved
      · rename_i stands
        cases moved
        cases onTargetCore <;> exact budget.goTo stands (by simp) (by simp) (by simp)
      · cases moved
  | made =>
      simp only [AskTimeout.step] at moved
      split at moved
      · rename_i stands
        cases moved
        exact budget.goTo stands (by simp) (by simp) (by simp)
      · cases moved
  | trySend =>
      simp only [AskTimeout.step] at moved
      split at moved
      · rename_i stands
        cases moved
        exact budget.iterate stands rfl (fun past => by simp [past]) (fun past => by simp [past])
          (fun early => by simp [early])
      · cases moved
  | sendReturns answer =>
      simp only [AskTimeout.step] at moved
      split at moved
      · rename_i late stands
        cases moved
        cases late with
        | true => simp [inTime, stands] at met
        | false => exact budget.goTo stands (by simp) (by simp) (by simp)
      · rename_i late stands
        cases moved
        cases late with
        | true => simp [inTime, stands] at met
        | false => exact budget.goTo stands (by simp) (by simp) (by simp)
      · rename_i late stands
        cases moved
        cases late <;> exact budget.goTo stands (by simp) (by simp) (by simp)
      · cases moved
  | load look =>
      simp only [AskTimeout.step] at moved
      split at moved
      · rename_i stands
        cases moved
        exact budget.iterate stands rfl (fun past => by simp [past]) (fun past => by simp [past])
          (fun early => by simp [early])
      · rename_i stands
        cases moved
        exact budget.iterate stands rfl (fun _ => rfl) (fun _ => by simp) (fun _ => by simp)
      · rename_i stands
        cases moved
        exact budget.iterate stands rfl (fun _ => rfl) (fun _ => by simp) (fun _ => by simp)
      · cases moved
  | next =>
      simp only [AskTimeout.step] at moved
      split at moved
      case h_3 deadline late stands =>
        cases moved
        cases expired : s.expired deadline with
        | true =>
            cases late <;> exact budget.goTo stands (by simp) (by simp) (by simp)
        | false =>
            cases late with
            | true => simp [inTime, stands, expired] at met
            | false => exact budget.goTo stands (by simp) (by simp) (by simp)
      case h_6 => cases moved
      all_goals
        rename_i stands
        cases moved
        exact budget.goTo stands (by simp) (by simp) (by simp)

end Budget

/-- A call that has not returned has a next step. -/
theorem AskTimeout.goes_on {R : Type*} (s : AskTimeout R) :
    (∃ result, s.pc = .returned result) ∨ ∃ a t, a.isTick = false ∧ s.step a = some t := by
  cases stands : s.pc with
  | returned result => exact .inl ⟨result, rfl⟩
  | entry => exact .inr ⟨.guard false, _, rfl, by simp only [step, stands]; rfl⟩
  | making => exact .inr ⟨.made, _, rfl, by simp only [step, stands]; rfl⟩
  | send => exact .inr ⟨.trySend, _, rfl, by simp only [step, stands]; rfl⟩
  | sending late => exact .inr ⟨.sendReturns .closed, _, rfl, by simp only [step, stands]; rfl⟩
  | poll deadline => exact .inr ⟨.load .pending, _, rfl, by simp only [step, stands]; rfl⟩
  | spin | sent | pending | backoff | taking =>
      exact .inr ⟨.next, _, rfl, by simp only [step, stands]; rfl⟩

/-- In every run in which mailbox and `Responder` are in time the whole call is bounded. -/
theorem wholeCallBounded_of_run {R : Type*} {now timeout limit : Nat} {s : AskTimeout R}
    (run : Reach AskTimeout.step (fun s a => inTime s a = true) (.start R now timeout limit) s) :
    WholeCallBounded s := by
  have budget : Budget s :=
    run.invariant (Budget.start now timeout limit) (fun _ _ _ budget met moved => budget.step met moved)
  refine ⟨?_, ?_, s.goes_on⟩
  · have := budget.iterations
    omega
  · have := budget.steps
    omega

/-- A timeout of three: the message is in at once, the cell stays `PENDING`, and the first look after the
    time is up ends in `Timeout`. -/
def heldActs : List (DeadlineAct Nat) :=
  [.guard false, .made, .trySend, .sendReturns .accepted, .next, .load .pending, .next, .next,
    .tick 5, .load .pending, .next]

theorem wholeCallBounded_of_held :
    ∃ s : AskTimeout Nat, Reach AskTimeout.step (fun s a => inTime s a = true) (.start Nat 10 3 100) s ∧
      s.pc = .returned (.error .timeout) ∧ s.late = 1 ∧ WholeCallBounded s := by
  obtain ⟨s, executed, stands, late⟩ : ∃ s : AskTimeout Nat,
      execChecked AskTimeout.step (fun s a => inTime s a = true) (.start Nat 10 3 100) heldActs =
        some s ∧ s.pc = .returned (.error .timeout) ∧ s.late = 1 := ⟨_, rfl, rfl, rfl⟩
  have run := reach_of_execChecked executed
  exact ⟨s, run, stands, late, wholeCallBounded_of_run run⟩

/-! ### A mailbox that stays full -/

/-- One more retry: `Full`, `spin_loop`, and the next `try_send`. -/
theorem retries_again {R : Type*} {s : AskTimeout R} (stands : s.pc = .send) (past : s.past = true) :
    ∃ t, Reach AskTimeout.step Free s t ∧ t.pc = .send ∧ t.past = true ∧ t.late = s.late + 1 := by
  have first : s.step .trySend = some (s.iterate (.sending true)) := by
    simp only [AskTimeout.step, stands, past]
  have second : (s.iterate (.sending true)).step (.sendReturns .full) =
      some ((s.iterate (.sending true)).goTo .spin) := rfl
  have third : ((s.iterate (.sending true)).goTo .spin).step .next =
      some (((s.iterate (.sending true)).goTo .spin).goTo .send) := rfl
  refine ⟨((s.iterate (.sending true)).goTo .spin).goTo .send, ?_, rfl, past, ?_⟩
  · exact ((Reach.single trivial first).tail trivial second).tail trivial third
  · show s.late + s.past.toNat = s.late + 1
    rw [past]
    rfl

/-- A call that began at 10 with a timeout of 3, in a mailbox that stays full: after any number of
    retries past its time it is about to retry again. -/
theorem retries_reach (n : Nat) :
    ∃ s : AskTimeout Nat, Reach AskTimeout.step Free (.start Nat 10 3 100) s ∧ s.pc = .send ∧
      s.past = true ∧ s.late = n := by
  induction n with
  | zero =>
      have executed : ∃ s : AskTimeout Nat, exec AskTimeout.step (.start Nat 10 3 100)
          [.guard false, .made, .tick 5] = some s ∧ s.pc = .send ∧ s.past = true ∧
            s.late = 0 := ⟨_, rfl, rfl, rfl, rfl⟩
      obtain ⟨s, executed, facts⟩ := executed
      exact ⟨s, reach_of_exec executed, facts⟩
  | succ n inductionHypothesis =>
      obtain ⟨s, run, stands, past, late⟩ := inductionHypothesis
      obtain ⟨t, more, stands', past', late'⟩ := retries_again stands past
      exact ⟨t, run.trans more, stands', past', by rw [late', late]⟩

/-- With a mailbox that stays full `ask_timeout` is not bounded: it retries as often as one likes after
    its time is up. -/
theorem askTimeout_retries_forever :
    (∃ s : AskTimeout Nat, Reach AskTimeout.step Free (.start Nat 10 3 100) s ∧
      ¬ WholeCallBounded s) ∧
    ∀ n, ∃ s : AskTimeout Nat, Reach AskTimeout.step Free (.start Nat 10 3 100) s ∧
      s.pc = .send ∧ s.late = n := by
  constructor
  · obtain ⟨s, run, _, _, late⟩ := retries_reach 2
    refine ⟨s, run, fun bounded => ?_⟩
    have := bounded.iterations
    omega
  · intro n
    obtain ⟨s, run, stands, _, late⟩ := retries_reach n
    exact ⟨s, run, stands, late⟩

end AetherFlow.Ask
