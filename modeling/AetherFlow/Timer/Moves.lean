/-
Module: AetherFlow.Timer.Moves
Purpose: What the heap and the steps of the timer service can do, said once. `peek` returns the entry that
  comes first; a step of a registering call, of the worker or of anybody is one of a few moves, each
  with where its party stood and what the step found.
Trusted boundary: none
Main exports: earliest_spec, deadline_le_of_earliest, update_rel, field_update, ScheduleMove, WorkerMove, Move, move_of_step
-/
import AetherFlow.Timer.Worker

namespace AetherFlow.Timer

open Mpsc (SendAnswer)
open Transition

/-! ### The heap -/

theorem Entry.first_iff {e f : Entry} :
    e.first f = true ↔ e.deadline < f.deadline ∨ e.deadline = f.deadline ∧ e.seq ≤ f.seq := by
  simp [Entry.first]

theorem earliest_eq_none_iff {heap : List Entry} : earliest heap = none ↔ heap = [] := by
  cases heap with
  | nil => exact ⟨fun _ => rfl, fun _ => rfl⟩
  | cons e heap =>
      rw [earliest]
      split
      · simp
      · split <;> simp

/-- `peek` returns an entry of the heap that comes before every other. -/
theorem earliest_spec {heap : List Entry} {e : Entry} (found : earliest heap = some e) :
    e ∈ heap ∧ ∀ f ∈ heap, e.first f = true := by
  induction heap generalizing e with
  | nil => cases found
  | cons g heap inductionHypothesis =>
      have self : g.first g = true := Entry.first_iff.2 (.inr ⟨rfl, le_rfl⟩)
      rw [earliest] at found
      split at found
      · rename_i empty
        cases found
        rw [earliest_eq_none_iff.1 empty]
        exact ⟨List.mem_singleton_self _, fun f member => by rw [List.mem_singleton.1 member]; exact self⟩
      · rename_i least below
        obtain ⟨member, before⟩ := inductionHypothesis below
        split at found
        · rename_i ahead
          cases found
          refine ⟨List.mem_cons_self, ?_⟩
          intro f there
          rcases List.mem_cons.1 there with rfl | there
          · exact self
          · have later := before f there
            rw [Entry.first_iff] at ahead later ⊢
            omega
        · rename_i behind
          cases found
          refine ⟨List.mem_cons_of_mem _ member, ?_⟩
          intro f there
          rcases List.mem_cons.1 there with rfl | there
          · rw [Entry.first_iff] at behind ⊢
            omega
          · exact before f there

/-- No entry of the heap is due earlier than the one `peek` returns. -/
theorem deadline_le_of_earliest {heap : List Entry} {e f : Entry} (found : earliest heap = some e)
    (member : f ∈ heap) : e.deadline ≤ f.deadline := by
  have := Entry.first_iff.1 ((earliest_spec found).2 f member)
  omega

/-! ### One timer changes -/

/-- What every timer has to itself, it has to the timer after a change that allows it. -/
theorem update_rel {R : TimerInfo → TimerInfo → Prop} (same : ∀ info, R info info)
    {timers : Nat → TimerInfo} {u : Nat} {info : TimerInfo} (changed : R (timers u) info) (v : Nat) :
    R (timers v) (Function.update timers u info v) := by
  by_cases here : v = u
  · subst here
    rw [Function.update_self]
    exact changed
  · rw [Function.update_of_ne here]
    exact same _

/-- A part that the change leaves alone. -/
theorem field_update {β : Type*} (field : TimerInfo → β) {timers : Nat → TimerInfo} {u : Nat}
    {info : TimerInfo} (same : field info = field (timers u)) (v : Nat) :
    field (Function.update timers u info v) = field (timers v) :=
  update_rel (R := fun info info' => field info' = field info) (fun _ => rfl) same v

/-- A target that is gone stays so. -/
theorem dropped_update {gone : Nat → Bool} (target : Nat) {u : Nat} (dropped : gone u = true) :
    Function.update gone target true u = true := by
  by_cases here : u = target
  · subst here
    exact Function.update_self _ _ _
  · exact (Function.update_of_ne here _ _).trans dropped

/-! ### What a step can be -/

section Moves

variable {s t : Timers}

/-- A step of the call that registers timer `u`. -/
inductive ScheduleMove (s : Timers) (u : Nat) : Timers → Prop where
  | shared (call : (s.timers u).call = .shared) : ScheduleMove s u
      { s.setCall u .fetchSeq with
        worker := match s.worker with
          | .unstarted => .lock
          | pc => pc }
  | fetchSeq (call : (s.timers u).call = .fetchSeq) : ScheduleMove s u
      { s.setCall u (.lock s.nextSeq) with nextSeq := (s.nextSeq + 1) % 2 ^ 64 }
  | refused {seq : Nat} (call : (s.timers u).call = .lock seq) :
      ScheduleMove s u (s.setCall u .panicked)
  | lock {seq : Nat} (call : (s.timers u).call = .lock seq) (free : s.locked = false) :
      ScheduleMove s u { s.setCall u (.push seq) with locked := true }
  | push {seq : Nat} (call : (s.timers u).call = .push seq) : ScheduleMove s u
      { s.setCall u .notify with
        heap := ⟨u, (s.timers u).registered + (s.timers u).delay, seq⟩ :: s.heap
        locked := false }
  | notify (call : (s.timers u).call = .notify) : ScheduleMove s u
      { s.setCall u .returned with worker := Timers.notifyOne s.worker }

theorem scheduleMove_of_step {u : Nat} (moved : s.scheduleStep u (s.timers u).call = some t) :
    ScheduleMove s u t := by
  cases call : (s.timers u).call with
  | unregistered | returned | panicked => rw [call] at moved; cases moved
  | shared =>
      rw [call] at moved
      cases moved
      exact .shared call
  | fetchSeq =>
      rw [call] at moved
      cases moved
      exact .fetchSeq call
  | lock seq =>
      rw [call] at moved
      simp only [Timers.scheduleStep] at moved
      split at moved
      · cases moved
      · rename_i free
        split at moved <;> cases moved
        · exact .refused call
        · exact .lock call (Bool.not_eq_true _ ▸ free)
  | push seq =>
      rw [call] at moved
      cases moved
      exact .push call
  | notify =>
      rw [call] at moved
      cases moved
      exact .notify call

/-- A step of `run` that nothing outside decides. -/
inductive WorkerMove (s : Timers) : Timers → Prop where
  | lock (stands : s.worker = .lock ∨ s.worker = .wake) (free : s.locked = false) :
      WorkerMove s { s with locked := true, worker := .top }
  | top (stands : s.worker = .top) : WorkerMove s { s with worker := .peek s.clock }
  | pop {now : Nat} {top : Entry} (stands : s.worker = .peek now)
      (found : earliest s.heap = some top) (due : top.deadline ≤ now) :
      WorkerMove s { s with heap := s.heap.erase top, worker := .check now top }
  /-- Nothing more is due. -/
  | rest {now : Nat} (stands : s.worker = .peek now) (later : ∀ e ∈ s.heap, now < e.deadline) :
      WorkerMove s { s with worker := .sleep }
  | skip {now : Nat} {e : Entry} (stands : s.worker = .check now e)
      (cancelled : (s.timers e.timer).cancelled = true) : WorkerMove s { s with worker := .peek now }
  | fire {now : Nat} {e : Entry} (stands : s.worker = .check now e)
      (active : (s.timers e.timer).cancelled = false) :
      WorkerMove s { s.beginFire e.timer with locked := false, worker := .fire now e }
  | offer {now : Nat} {e : Entry} (stands : s.worker = .offer now e) : WorkerMove s
      { s.beginOffer e.timer with
        worker := .offering now e (s.gone (s.timers e.timer).target) }
  | fired {now : Nat} {e : Entry} {answer : SendAnswer} (stands : s.worker = .offered now e answer) :
      WorkerMove s
        { s.setTimer e.timer { s.timers e.timer with
            stopped := (s.timers e.timer).stopped || (s.nextDeadline e.timer answer).isNone } with
          worker := .relock now e (s.nextDeadline e.timer answer) }
  | relock {now : Nat} {e : Entry} {next : Option Nat} (stands : s.worker = .relock now e next)
      (free : s.locked = false) :
      WorkerMove s { s with locked := true, worker := .recheck now e next }
  /-- The entry is not pushed again. -/
  | letGo {now : Nat} {e : Entry} {next : Option Nat} (stands : s.worker = .recheck now e next)
      (ends : next = none ∨ (s.timers e.timer).cancelled = true) :
      WorkerMove s { s with worker := .peek now }
  | pushAgain {now deadline : Nat} {e : Entry} (stands : s.worker = .recheck now e (some deadline)) :
      WorkerMove s { s with heap := { e with deadline := deadline } :: s.heap, worker := .peek now }
  | sleep (stands : s.worker = .sleep) : WorkerMove s { s with worker := .park s.clock s.timeout }
  | park {readAt timeout : Nat} (stands : s.worker = .park readAt timeout) :
      WorkerMove s { s with locked := false, worker := .wait readAt timeout false }

theorem workerMove_of_step (moved : s.workerStep s.worker = some t) : WorkerMove s t := by
  cases stands : s.worker with
  | unstarted | fire | offering | wait | dead => rw [stands] at moved; cases moved
  | lock =>
      rw [stands] at moved
      simp only [Timers.workerStep] at moved
      split at moved <;> cases moved
      rename_i free
      exact .lock (.inl stands) (Bool.not_eq_true _ ▸ free)
  | wake =>
      rw [stands] at moved
      simp only [Timers.workerStep] at moved
      split at moved <;> cases moved
      rename_i free
      exact .lock (.inr stands) (Bool.not_eq_true _ ▸ free)
  | top =>
      rw [stands] at moved
      cases moved
      exact .top stands
  | peek now =>
      rw [stands] at moved
      simp only [Timers.workerStep] at moved
      split at moved
      · rename_i top found
        split at moved <;> cases moved
        · rename_i due
          exact .pop stands found due
        · rename_i early
          refine .rest stands fun e member => ?_
          have := deadline_le_of_earliest found member
          omega
      · rename_i none
        cases moved
        refine .rest stands fun e member => ?_
        rw [earliest_eq_none_iff.1 none] at member
        cases member
  | check now e =>
      rw [stands] at moved
      simp only [Timers.workerStep] at moved
      split at moved <;> cases moved
      · rename_i cancelled
        exact .skip stands cancelled
      · rename_i active
        exact .fire stands (Bool.not_eq_true _ ▸ active)
  | offer now e =>
      rw [stands] at moved
      cases moved
      exact .offer stands
  | offered now e answer =>
      rw [stands] at moved
      cases moved
      exact .fired stands
  | relock now e next =>
      rw [stands] at moved
      simp only [Timers.workerStep] at moved
      split at moved <;> cases moved
      rename_i free
      exact .relock stands (Bool.not_eq_true _ ▸ free)
  | recheck now e next =>
      rw [stands] at moved
      simp only [Timers.workerStep] at moved
      split at moved
      · split at moved <;> cases moved
        · rename_i cancelled
          exact .letGo stands (.inr cancelled)
        · exact .pushAgain stands
      · cases moved
        exact .letGo stands (.inl rfl)
  | sleep =>
      rw [stands] at moved
      cases moved
      exact .sleep stands
  | park readAt timeout =>
      rw [stands] at moved
      cases moved
      exact .park stands

/-- One action of anybody. -/
inductive Move (s : Timers) : TimerAct → Timers → Prop where
  | tick {d : Nat} : Move s (.tick d) { s with clock := s.clock + d }
  | sendAfter {target delay : Nat} :
      Move s (.sendAfter target delay) (s.register .after target delay)
  | sendEvery {target interval : Nat} (positive : 0 < interval) :
      Move s (.sendEvery target interval) (s.register .every target interval)
  | schedule {u : Nat} {t : Timers} (move : ScheduleMove s u t) : Move s (.schedule u) t
  | cancel {u : Nat} (returned : (s.timers u).call = .returned) : Move s (.cancel u)
      (s.setTimer u { s.timers u with
        cancelled := true
        passedAtCancel :=
          if (s.timers u).cancelled then (s.timers u).passedAtCancel else s.worker.passed u })
  | dropReceiver {target : Nat} :
      Move s (.dropReceiver target) { s with gone := Function.update s.gone target true }
  | worker {t : Timers} (move : WorkerMove s t) : Move s .worker t
  | made {now : Nat} {e : Entry} (stands : s.worker = .fire now e) :
      Move s .made { s with worker := .offer now e }
  /-- The closure of a `send_after` has no message. -/
  | missing {now : Nat} {e : Entry} (stands : s.worker = .fire now e)
      (after : (s.timers e.timer).kind = .after) (taken : (s.timers e.timer).message = false) :
      Move s .made { s with worker := .relock now e none }
  | makePanics {now : Nat} {e : Entry} (stands : s.worker = .fire now e) :
      Move s .makePanics { s with worker := .dead }
  | offerReturns {now : Nat} {e : Entry} {gone : Bool} {answer : SendAnswer}
      (stands : s.worker = .offering now e gone) (refused : gone = true → answer = .closed) :
      Move s (.offerReturns answer) { s with worker := .offered now e answer }
  | wake {readAt timeout : Nat} {notified : Bool} (stands : s.worker = .wait readAt timeout notified) :
      Move s .wake { s with worker := .wake }
  /-- The destructor of a message panics. -/
  | messagePanics {now : Nat} {e : Entry} {answer : SendAnswer}
      (stands : s.worker = .offered now e answer) : Move s .dropPanics { s with worker := .dead }
  /-- The destructor of an entry panics, under the lock. -/
  | entryPanics {now : Nat} {e : Entry}
      (stands : s.worker = .check now e ∨ ∃ next, s.worker = .recheck now e next) :
      Move s .dropPanics { s with locked := false, poisoned := true, worker := .dead }

theorem move_of_step {a : TimerAct} (moved : s.step a = some t) : Move s a t := by
  cases a with
  | tick d =>
      cases moved
      exact .tick
  | sendAfter target delay =>
      cases moved
      exact .sendAfter
  | sendEvery target interval =>
      obtain ⟨positive, rfl⟩ := guarded moved
      exact .sendEvery positive
  | schedule u => exact .schedule (scheduleMove_of_step moved)
  | cancel u =>
      obtain ⟨returned, rfl⟩ := guarded moved
      exact .cancel returned
  | dropReceiver target =>
      cases moved
      exact .dropReceiver
  | worker => exact .worker (workerMove_of_step moved)
  | made =>
      simp only [Timers.step] at moved
      split at moved
      · rename_i now e stands
        split at moved <;> cases moved
        · exact .made stands
        · rename_i missing
          push Not at missing
          refine .missing stands ?_ (Bool.not_eq_true _ ▸ missing.2)
          cases kind : (s.timers e.timer).kind with
          | after => rfl
          | every => exact absurd kind missing.1
      · cases moved
  | makePanics =>
      simp only [Timers.step] at moved
      split at moved
      · rename_i stands
        obtain ⟨_, rfl⟩ := guarded moved
        exact .makePanics stands
      · cases moved
  | offerReturns answer =>
      simp only [Timers.step] at moved
      split at moved
      · rename_i stands
        obtain ⟨⟨refused, _⟩, rfl⟩ := guarded moved
        exact .offerReturns stands refused
      · cases moved
  | wake =>
      simp only [Timers.step] at moved
      split at moved <;> cases moved
      rename_i stands
      exact .wake stands
  | dropPanics =>
      simp only [Timers.step] at moved
      split at moved
      · rename_i stands
        split at moved <;> cases moved
        exact .messagePanics stands
      · rename_i stands
        obtain ⟨_, rfl⟩ := guarded moved
        exact .entryPanics (.inl stands)
      · rename_i stands
        obtain ⟨_, rfl⟩ := guarded moved
        exact .entryPanics (.inr ⟨_, stands⟩)
      · cases moved

end Moves

end AetherFlow.Timer
