/-
Module: AetherFlow.Timer.Worker
Purpose: The timer service of `core/src/timer.rs`: any number of threads in `send_after`, `send_every` and
  `cancel`, target actors that go away at any time, a monotone clock, and the one worker thread, which
  holds the lock on the heap except while it fires an entry and while it sleeps. A label names who
  moves; every interleaving is a list of labels. Each timer keeps the record the properties speak
  of: when its fires began and when its messages were offered to `try_send`.
Trusted boundary: human-reviewed transcription of `core/src/timer.rs`
Main exports: Entry, earliest, TimerInfo, WorkerPc, Timers, TimerAct, Timers.step
-/
import Mathlib.Logic.Function.Basic
import AetherFlow.Lib.Transition
import AetherFlow.Mpsc.Queue

namespace AetherFlow.Timer

open Mpsc (SendAnswer)

/-- A pending timer. The flag and the closure of the source's `Entry` are those of its timer. -/
structure Entry where
  timer : Nat
  deadline : Nat
  seq : Nat
deriving DecidableEq

/-- `Entry::cmp`, reversed for the max-heap: the earlier deadline comes first, then the smaller `seq`. -/
def Entry.first (e f : Entry) : Bool :=
  e.deadline < f.deadline || (e.deadline == f.deadline && e.seq ≤ f.seq)

/-- `heap.peek()`. The order inside a `BinaryHeap` does not show, so the heap is a list. -/
def earliest : List Entry → Option Entry
  | [] => none
  | e :: heap =>
      match earliest heap with
      | none => some e
      | some f => if e.first f then some e else some f

inductive TimerKind where
  /-- `send_after`. -/
  | after
  /-- `send_every`. -/
  | every
deriving DecidableEq

/-- Where the call that registers a timer stands. -/
inductive SchedulePc where
  | unregistered
  /-- About to get, or start, the timer service. -/
  | shared
  | fetchSeq
  | lock (seq : Nat)
  | push (seq : Nat)
  | notify
  | returned
  /-- The lock was poisoned. -/
  | panicked
deriving DecidableEq

structure TimerInfo where
  kind : TimerKind
  target : Nat
  /-- The `delay`, or the `interval`. -/
  delay : Nat
  /-- The clock when `Instant::now() + delay` was computed. -/
  registered : Nat
  call : SchedulePc
  /-- The message of `send_after` is not taken yet. -/
  message : Bool
  cancelled : Bool
  /-- A fire returned `None`. -/
  stopped : Bool
  /-- When the fires began. -/
  began : List Nat
  /-- When the messages were offered to `try_send`. -/
  offers : List Nat
  /-- When `cancel` first returned, the worker was between its check and its `try_send`. -/
  passedAtCancel : Bool
  offersSinceCancel : Nat
  /-- How many fires began after the target's `Receiver` was dropped. -/
  beganSinceGone : Nat

/-- A timer nobody has registered. -/
def TimerInfo.blank : TimerInfo where
  kind := .after
  target := 0
  delay := 0
  registered := 0
  call := .unregistered
  message := false
  cancelled := false
  stopped := false
  began := []
  offers := []
  passedAtCancel := false
  offersSinceCancel := 0
  beganSinceGone := 0

/-- Where `run` stands. `now` is the clock at the top of the pass, `entry` the popped entry. -/
inductive WorkerPc where
  | unstarted
  /-- About to lock the heap for the first time. -/
  | lock
  /-- About to read the clock. -/
  | top
  | peek (now : Nat)
  /-- About to check the popped entry's flag. -/
  | check (now : Nat) (entry : Entry)
  /-- The lock is released and `fire` runs; for `send_every` it is in `make`. -/
  | fire (now : Nat) (entry : Entry)
  /-- About to call `try_send`. -/
  | offer (now : Nat) (entry : Entry)
  /-- In a `try_send` that began with the target's `Receiver` gone or not. -/
  | offering (now : Nat) (entry : Entry) (gone : Bool)
  /-- `try_send` has returned. -/
  | offered (now : Nat) (entry : Entry) (answer : SendAnswer)
  /-- `fire` has returned; about to lock the heap again. -/
  | relock (now : Nat) (entry : Entry) (next : Option Nat)
  | recheck (now : Nat) (entry : Entry) (next : Option Nat)
  /-- Nothing more is due; about to compute the timeout. -/
  | sleep
  /-- About to wait. -/
  | park (readAt timeout : Nat)
  /-- Blocked in `wait_timeout`. -/
  | wait (readAt timeout : Nat) (notified : Bool)
  /-- Out of the wait; about to get the lock back. -/
  | wake
  /-- A panic has left `run`. -/
  | dead

/-- The popped entry the worker has in its hands. -/
def WorkerPc.entry : WorkerPc → Option Entry
  | .check _ e | .fire _ e | .offer _ e | .offering _ e _ | .offered _ e _ | .relock _ e _
  | .recheck _ e _ => some e
  | _ => none

/-- The worker has passed its check for an entry of timer `t`, and has not begun the `try_send`. -/
def WorkerPc.passed (t : Nat) : WorkerPc → Bool
  | .fire _ e | .offer _ e => e.timer = t
  | _ => false

structure Timers where
  clock : Nat
  /-- The heap's mutex is taken. -/
  locked : Bool
  poisoned : Bool
  heap : List Entry
  nextSeq : Nat
  timers : Nat → TimerInfo
  /-- Timers are numbered in the order their registration begins. -/
  issued : Nat
  /-- The targets whose `Receiver` is gone. -/
  gone : Nat → Bool
  worker : WorkerPc

inductive TimerAct where
  | tick (d : Nat)
  | sendAfter (target delay : Nat)
  | sendEvery (target interval : Nat)
  /-- The next step of the call that registers timer `t`. -/
  | schedule (t : Nat)
  /-- `TimerHandle::cancel`. -/
  | cancel (t : Nat)
  | dropReceiver (target : Nat)
  /-- The worker's next step, where nothing outside decides it. -/
  | worker
  /-- The message of the entry that fires is there: taken, or returned by `make`. -/
  | made
  /-- `make` panics. -/
  | makePanics
  | offerReturns (answer : SendAnswer)
  /-- The wait ends: the time is up, it was notified, or for no reason. -/
  | wake
  /-- The destructor of something the worker drops panics. -/
  | dropPanics

namespace Timers

/-- Before the first registration. -/
def start : Timers where
  clock := 0
  locked := false
  poisoned := false
  heap := []
  nextSeq := 0
  timers _ := .blank
  issued := 0
  gone _ := false
  worker := .unstarted

def setTimer (s : Timers) (t : Nat) (timer : TimerInfo) : Timers :=
  { s with timers := Function.update s.timers t timer }

def setCall (s : Timers) (t : Nat) (pc : SchedulePc) : Timers :=
  s.setTimer t { s.timers t with call := pc }

/-- `send_after` and `send_every` up to the call of `schedule`: the clock is read. -/
def register (s : Timers) (kind : TimerKind) (target delay : Nat) : Timers :=
  { s.setTimer s.issued { TimerInfo.blank with
      kind := kind
      target := target
      delay := delay
      registered := s.clock
      call := .shared
      message := true } with
    issued := s.issued + 1 }

/-- `notify_one`: a waiting worker is woken, any other never learns of it. -/
def notifyOne : WorkerPc → WorkerPc
  | .wait readAt timeout _ => .wait readAt timeout true
  | pc => pc

/-- A step of `schedule`, for timer `t`. -/
def scheduleStep (s : Timers) (t : Nat) : SchedulePc → Option Timers
  | .shared =>
      some { s.setCall t .fetchSeq with
        worker := match s.worker with
          | .unstarted => .lock
          | pc => pc }
  | .fetchSeq => some { s.setCall t (.lock s.nextSeq) with nextSeq := (s.nextSeq + 1) % 2 ^ 64 }
  | .lock seq =>
      if s.locked then none
      else if s.poisoned then some (s.setCall t .panicked)
      else some { s.setCall t (.push seq) with locked := true }
  | .push seq =>
      some { s.setCall t .notify with
        heap := ⟨t, (s.timers t).registered + (s.timers t).delay, seq⟩ :: s.heap
        locked := false }
  | .notify => some { s.setCall t .returned with worker := notifyOne s.worker }
  | .unregistered | .returned | .panicked => none

/-- What the worker's timeout is when the clock shows `s.clock`: until the earliest deadline, or an hour.
    The clock counts nanoseconds. -/
def timeout (s : Timers) : Nat :=
  match earliest s.heap with
  | some top => top.deadline - s.clock
  | none => 3600 * 10 ^ 9

/-- `fire` begins. -/
def beginFire (s : Timers) (t : Nat) : Timers :=
  s.setTimer t { s.timers t with
    began := (s.timers t).began ++ [s.clock]
    beganSinceGone := (s.timers t).beganSinceGone + (s.gone (s.timers t).target).toNat }

/-- `try_send` begins. -/
def beginOffer (s : Timers) (t : Nat) : Timers :=
  s.setTimer t { s.timers t with
    message := false
    offers := (s.timers t).offers ++ [s.clock]
    offersSinceCancel := (s.timers t).offersSinceCancel + (s.timers t).cancelled.toNat }

/-- What `fire` returns: the next deadline of a periodic timer whose target is not gone. -/
def nextDeadline (s : Timers) (t : Nat) (answer : SendAnswer) : Option Nat :=
  match (s.timers t).kind, answer with
  | .after, _ | .every, .closed => none
  | .every, .accepted | .every, .full => some (s.clock + (s.timers t).delay)

/-- A step of `run` that nothing outside decides. -/
def workerStep (s : Timers) : WorkerPc → Option Timers
  | .lock | .wake => if s.locked then none else some { s with locked := true, worker := .top }
  | .top => some { s with worker := .peek s.clock }
  | .peek now =>
      match earliest s.heap with
      | some top =>
          if top.deadline ≤ now then
            some { s with heap := s.heap.erase top, worker := .check now top }
          else some { s with worker := .sleep }
      | none => some { s with worker := .sleep }
  | .check now e =>
      if (s.timers e.timer).cancelled then some { s with worker := .peek now }
      else some { s.beginFire e.timer with locked := false, worker := .fire now e }
  | .offer now e =>
      some { s.beginOffer e.timer with
        worker := .offering now e (s.gone (s.timers e.timer).target) }
  | .offered now e answer =>
      let next := s.nextDeadline e.timer answer
      some { s.setTimer e.timer { s.timers e.timer with
          stopped := (s.timers e.timer).stopped || next.isNone } with
        worker := .relock now e next }
  | .relock now e next =>
      if s.locked then none else some { s with locked := true, worker := .recheck now e next }
  | .recheck now e next =>
      match next with
      | some deadline =>
          if (s.timers e.timer).cancelled then some { s with worker := .peek now }
          else some { s with heap := { e with deadline := deadline } :: s.heap, worker := .peek now }
      | none => some { s with worker := .peek now }
  | .sleep => some { s with worker := .park s.clock s.timeout }
  | .park readAt timeout => some { s with locked := false, worker := .wait readAt timeout false }
  | .unstarted | .fire _ _ | .offering _ _ _ | .wait _ _ _ | .dead => none

/-- One action of anybody. -/
def step (s : Timers) : TimerAct → Option Timers
  | .tick d => some { s with clock := s.clock + d }
  | .sendAfter target delay => some (s.register .after target delay)
  | .sendEvery target interval =>
      -- `assert!(interval > Duration::ZERO)`
      if 0 < interval then some (s.register .every target interval) else none
  | .schedule t => s.scheduleStep t (s.timers t).call
  | .cancel t =>
      -- The handle exists once the registration has returned.
      if (s.timers t).call = .returned then
        some (s.setTimer t { s.timers t with
          cancelled := true
          passedAtCancel :=
            if (s.timers t).cancelled then (s.timers t).passedAtCancel else s.worker.passed t })
      else none
  | .dropReceiver target => some { s with gone := Function.update s.gone target true }
  | .worker => s.workerStep s.worker
  | .made =>
      match s.worker with
      | .fire now e =>
          -- A `send_after` closure without its message would offer nothing.
          if (s.timers e.timer).kind = .every ∨ (s.timers e.timer).message = true then
            some { s with worker := .offer now e }
          else some { s with worker := .relock now e none }
      | _ => none
  | .makePanics =>
      match s.worker with
      | .fire _ e =>
          if (s.timers e.timer).kind = .every then some { s with worker := .dead } else none
      | _ => none
  | .offerReturns answer =>
      match s.worker with
      | .offering now e gone =>
          -- A `try_send` to a mailbox whose `Receiver` was gone when it began is refused as `Closed`.
          if (gone = true → answer = .closed) ∧
              (answer = .closed → s.gone (s.timers e.timer).target = true) then
            some { s with worker := .offered now e answer }
          else none
      | _ => none
  | .wake =>
      match s.worker with
      | .wait _ _ _ => some { s with worker := .wake }
      | _ => none
  | .dropPanics =>
      match s.worker with
      -- The message that came back from `try_send`.
      | .offered _ _ answer => if answer = .accepted then none else some { s with worker := .dead }
      -- The entry of a cancelled or finished timer, with the lock held.
      | .check _ e =>
          if (s.timers e.timer).cancelled then
            some { s with locked := false, poisoned := true, worker := .dead }
          else none
      | .recheck _ e next =>
          if next = none ∨ (s.timers e.timer).cancelled = true then
            some { s with locked := false, poisoned := true, worker := .dead }
          else none
      | _ => none

end Timers

end AetherFlow.Timer
