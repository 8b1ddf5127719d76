/-
Module: AetherFlow.Timer.Wakeup
Purpose: The lock on the timer heap and the sleep of the worker. `notify_one` is called outside the lock
  and is lost on a worker that does not wait; the worker then looks at the heap under the lock before
  it sleeps again, and nobody can push between that look and the wait. So an entry that a sleeping,
  unnotified worker has not taken into account belongs to a call that is still to notify it.
Trusted boundary: none
Main exports: WorkerPc.locking, LockInv, LockInv.step, Awake, awake_of_run, no_lost_wakeup
-/
import AetherFlow.Timer.Invariant

namespace AetherFlow.Timer

open Mpsc (SendAnswer)
open Transition

/-! ### The lock -/

/-- The worker holds the lock. -/
def WorkerPc.locking : WorkerPc → Bool
  | .top | .peek _ | .check _ _ | .recheck _ _ _ | .sleep | .park _ _ => true
  | _ => false

/-- The lock is held by the worker or by one call that is about to push. -/
structure LockInv (s : Timers) : Prop where
  worker : s.worker.locking = true → s.locked = true
  pusher : ∀ u seq, (s.timers u).call = .push seq → s.locked = true ∧ s.worker.locking = false
  one_pusher : ∀ u u' seq seq', (s.timers u).call = .push seq → (s.timers u').call = .push seq' →
    u = u'
  holder : s.locked = true → s.worker.locking = true ∨ ∃ u seq, (s.timers u).call = .push seq

namespace LockInv

variable {s t : Timers}

theorem start : LockInv .start where
  worker locking := by cases locking
  pusher u seq call := by cases call
  one_pusher u u' seq seq' call := by cases call
  holder locked := by cases locked

/-- A step that neither takes nor gives back the lock. -/
theorem keep (inv : LockInv s) (locked : t.locked = s.locked)
    (locking : t.worker.locking = s.worker.locking)
    (calls : ∀ u seq, (t.timers u).call = .push seq ↔ (s.timers u).call = .push seq) :
    LockInv t where
  worker := by
    rw [locking, locked]
    exact inv.worker
  pusher u seq call := by
    rw [locked, locking]
    exact inv.pusher u seq ((calls u seq).1 call)
  one_pusher u u' seq seq' call call' :=
    inv.one_pusher u u' seq seq' ((calls u seq).1 call) ((calls u' seq').1 call')
  holder held := by
    rw [locked] at held
    rw [locking]
    refine (inv.holder held).imp_right ?_
    rintro ⟨u, seq, call⟩
    exact ⟨u, seq, (calls u seq).2 call⟩

theorem workerLocks (inv : LockInv s) (free : s.locked = false) (locked : t.locked = true)
    (locking : t.worker.locking = true)
    (calls : ∀ u seq, (t.timers u).call = .push seq → (s.timers u).call = .push seq) :
    LockInv t := by
  have none : ∀ u seq, (t.timers u).call ≠ .push seq := by
    intro u seq call
    have := (inv.pusher u seq (calls u seq call)).1
    rw [free] at this
    cases this
  exact ⟨fun _ => locked, fun u seq call => absurd call (none u seq),
    fun u _ seq _ call => absurd call (none u seq), fun _ => .inl locking⟩

theorem workerUnlocks (inv : LockInv s) (held : s.worker.locking = true) (free : t.locked = false)
    (locking : t.worker.locking = false)
    (calls : ∀ u seq, (t.timers u).call = .push seq → (s.timers u).call = .push seq) :
    LockInv t := by
  have none : ∀ u seq, (t.timers u).call ≠ .push seq := by
    intro u seq call
    have := (inv.pusher u seq (calls u seq call)).2
    rw [held] at this
    cases this
  refine ⟨?_, fun u seq call => absurd call (none u seq),
    fun u _ seq _ call => absurd call (none u seq), ?_⟩
  · rw [locking]
    exact fun never => by cases never
  · rw [free]
    exact fun never => by cases never

/-- A change to one call. -/
theorem push_update_iff {timers : Nat → TimerInfo} {u v seq : Nat} {info : TimerInfo} :
    (Function.update timers u info v).call = .push seq ↔
      v = u ∧ info.call = .push seq ∨ v ≠ u ∧ (timers v).call = .push seq := by
  by_cases here : v = u
  · subst here
    simp
  · simp [here]

theorem callLocks {u seq : Nat} {info : TimerInfo} (inv : LockInv s) (free : s.locked = false)
    (timers : t.timers = Function.update s.timers u info) (call : info.call = .push seq)
    (locked : t.locked = true) (worker : t.worker = s.worker) : LockInv t := by
  have idle : s.worker.locking = false := by
    cases locking : s.worker.locking with
    | false => rfl
    | true => rw [inv.worker locking] at free; cases free
  have none : ∀ v seq, (s.timers v).call ≠ .push seq := by
    intro v seq pushing
    have := (inv.pusher v seq pushing).1
    rw [free] at this
    cases this
  have only : ∀ v seq', (t.timers v).call = .push seq' → v = u := by
    intro v seq' pushing
    rw [timers, push_update_iff] at pushing
    rcases pushing with ⟨here, _⟩ | ⟨_, pushing⟩
    · exact here
    · exact absurd pushing (none v seq')
  refine ⟨fun _ => locked, fun v seq' _ => ⟨locked, by rw [worker]; exact idle⟩, ?_, fun _ => .inr ?_⟩
  · intro v v' seq' seq'' one two
    rw [only v seq' one, only v' seq'' two]
  · exact ⟨u, seq, by rw [timers, push_update_iff]; exact .inl ⟨rfl, call⟩⟩

theorem callUnlocks {u seq : Nat} {info : TimerInfo} (inv : LockInv s)
    (pushing : (s.timers u).call = .push seq) (timers : t.timers = Function.update s.timers u info)
    (call : ∀ seq, info.call ≠ .push seq) (free : t.locked = false) (worker : t.worker = s.worker) :
    LockInv t := by
  have none : ∀ v seq', (t.timers v).call ≠ .push seq' := by
    intro v seq' other
    rw [timers, push_update_iff] at other
    rcases other with ⟨_, here⟩ | ⟨apart, other⟩
    · exact call seq' here
    · exact apart (inv.one_pusher v u seq' seq other pushing)
  have idle := (inv.pusher u seq pushing).2
  refine ⟨?_, fun v seq' other => absurd other (none v seq'),
    fun v _ seq' _ other => absurd other (none v seq'), ?_⟩
  · rw [worker, idle]
    exact fun never => by cases never
  · rw [free]
    exact fun never => by cases never

end LockInv

/-- A step of `schedule`. -/
theorem LockInv.schedule {s t : Timers} {u : Nat} (inv : LockInv s) (move : ScheduleMove s u t) :
    LockInv t := by
  have quietly : ∀ {pc : SchedulePc}, (∀ seq, (s.timers u).call ≠ .push seq) →
      (∀ seq, pc ≠ .push seq) → ∀ v seq,
        (Function.update s.timers u { s.timers u with call := pc } v).call = .push seq ↔
          (s.timers v).call = .push seq := by
    intro pc before after v seq
    rw [push_update_iff]
    by_cases here : v = u
    · subst here
      simp [before seq, after seq]
    · simp [here]
  cases move with
  | shared call =>
      refine inv.keep rfl ?_ (quietly (by simp [call]) (by simp))
      cases stands : s.worker <;> simp [WorkerPc.locking]
  | fetchSeq call | refused call => exact inv.keep rfl rfl (quietly (by simp [call]) (by simp))
  | lock call free => exact inv.callLocks free rfl rfl rfl rfl
  | push call => exact inv.callUnlocks call rfl (by simp) rfl rfl
  | notify call =>
      refine inv.keep rfl ?_ (quietly (by simp [call]) (by simp))
      cases stands : s.worker <;> simp [Timers.notifyOne, WorkerPc.locking]

/-- A change to a timer that leaves its call alone. -/
theorem call_of_update {s t : Timers} {u : Nat} {info : TimerInfo}
    (timers : t.timers = Function.update s.timers u info)
    (same : info.call = (s.timers u).call) (v : Nat) : (t.timers v).call = (s.timers v).call := by
  rw [timers]
  exact field_update TimerInfo.call same v

/-- The worker's steps. -/
theorem LockInv.workerStep {s t : Timers} (inv : LockInv s) (move : WorkerMove s t) : LockInv t := by
  cases move with
  | lock stands free | relock stands free => exact inv.workerLocks free rfl rfl fun _ _ => id
  | top stands | pop stands | rest stands | skip stands | letGo stands | pushAgain stands
  | sleep stands => exact inv.keep rfl (by rw [stands]; rfl) fun _ _ => .rfl
  | fire stands =>
      refine inv.workerUnlocks (by rw [stands]; rfl) rfl rfl fun v seq call => ?_
      rw [call_of_update rfl (by rfl)] at call
      exact call
  | offer stands | fired stands =>
      refine inv.keep rfl (by rw [stands]; rfl) fun v seq => ?_
      rw [call_of_update rfl (by rfl)]
  | park stands => exact inv.workerUnlocks (by rw [stands]; rfl) rfl rfl fun _ _ => id

/-- Every action keeps the lock's books. -/
theorem LockInv.step {s t : Timers} {a : TimerAct} (inv : LockInv s) (timerInv : TimerInv s)
    (moved : s.step a = some t) : LockInv t := by
  have registered : ∀ kind target delay, LockInv (s.register kind target delay) := by
    intro kind target delay
    refine inv.keep rfl rfl fun v seq => push_update_iff.trans ?_
    by_cases here : v = s.issued
    · simp [here, timerInv.unissued s.issued le_rfl]
    · simp [here]
  cases move_of_step moved with
  | tick | dropReceiver => exact inv.keep rfl rfl fun _ _ => .rfl
  | sendAfter | sendEvery => exact registered _ _ _
  | schedule move => exact inv.schedule move
  | cancel returned =>
      refine inv.keep rfl rfl fun v seq => ?_
      rw [call_of_update rfl (by rfl)]
  | worker move => exact inv.workerStep move
  | made stands | missing stands | makePanics stands | offerReturns stands | wake stands
  | messagePanics stands => exact inv.keep rfl (by rw [stands]; rfl) fun _ _ => .rfl
  | entryPanics stands =>
      refine inv.workerUnlocks ?_ rfl rfl fun _ _ => id
      rcases stands with stands | ⟨next, stands⟩ <;> rw [stands] <;> rfl

/-! ### The sleep -/

/-- The entry is due after the sleep that was computed at `readAt`. -/
def Covered (readAt timeout : Nat) (e : Entry) : Prop := timeout = 0 ∨ readAt + timeout ≤ e.deadline

/-- A worker about to sleep has taken every entry into account; one that sleeps and was not notified,
    every entry but those whose call has not come to `notify_one`. -/
def Awake (s : Timers) : Prop :=
  match s.worker with
  | .park readAt timeout => ∀ e ∈ s.heap, Covered readAt timeout e
  | .wait readAt timeout false =>
      ∀ e ∈ s.heap, Covered readAt timeout e ∨ (s.timers e.timer).call = .notify
  | _ => True

/-- The timeout reaches to the earliest deadline, if there is one. -/
theorem covered_timeout {s : Timers} {e : Entry} (member : e ∈ s.heap) :
    Covered s.clock s.timeout e := by
  rw [Timers.timeout]
  split
  · rename_i top found
    have := deadline_le_of_earliest found member
    rw [Covered]
    omega
  · rename_i none
    rw [earliest_eq_none_iff.1 none] at member
    cases member

namespace Awake

variable {s t : Timers}

/-- A step after which the worker is neither about to sleep nor asleep unnotified. -/
theorem of_busy (park : ∀ readAt timeout, t.worker ≠ .park readAt timeout)
    (wait : ∀ readAt timeout, t.worker ≠ .wait readAt timeout false) : Awake t := by
  rw [Awake]
  split
  · rename_i stands
    exact absurd stands (park _ _)
  · rename_i stands
    exact absurd stands (wait _ _)
  · trivial

/-- A step that leaves the worker where it is, adds no entry and takes no call away from
    `notify_one`. -/
theorem keep (awake : Awake s) (worker : t.worker = s.worker) (heap : t.heap = s.heap)
    (calls : ∀ v, (s.timers v).call = .notify → (t.timers v).call = .notify) : Awake t := by
  rw [Awake] at awake ⊢
  rw [worker, heap]
  split
  · rename_i stands
    rw [stands] at awake
    exact awake
  · rename_i stands
    rw [stands] at awake
    intro e member
    exact (awake e member).imp_right (calls e.timer)
  · trivial

/-- A push by a call that has yet to notify. Its lock keeps the worker from standing between the look
    at the heap and the wait. -/
theorem pushed {e : Entry} (awake : Awake s) (idle : s.worker.locking = false)
    (worker : t.worker = s.worker) (heap : t.heap = e :: s.heap)
    (own : (t.timers e.timer).call = .notify)
    (calls : ∀ v, (s.timers v).call = .notify → (t.timers v).call = .notify) : Awake t := by
  rw [Awake] at awake ⊢
  rw [worker, heap]
  split
  · rename_i stands
    rw [stands] at idle
    cases idle
  · rename_i stands
    rw [stands] at awake
    intro f member
    rcases List.mem_cons.1 member with rfl | member
    · exact .inr own
    · exact (awake f member).imp_right (calls f.timer)
  · trivial

/-- A notification counts for a worker that waits. One that is about to wait misses it, and knows the
    entry already. -/
theorem notified (awake : Awake s) (worker : t.worker = Timers.notifyOne s.worker)
    (heap : t.heap = s.heap) : Awake t := by
  rw [Awake] at awake ⊢
  rw [worker, heap]
  cases stands : s.worker with
  | park readAt timeout =>
      rw [stands] at awake
      exact awake
  | unstarted | lock | top | peek | check | fire | offer | offering | offered | relock | recheck
  | sleep | wait | wake | dead => trivial

theorem schedule {u : Nat} (awake : Awake s) (lock : LockInv s) (move : ScheduleMove s u t) :
    Awake t := by
  have others : ∀ {pc : SchedulePc}, (s.timers u).call ≠ .notify → ∀ v,
      (s.timers v).call = .notify → ((s.setCall u pc).timers v).call = .notify := by
    intro pc differs v call
    by_cases here : v = u
    · rw [here] at call
      exact absurd call differs
    · exact (congrArg TimerInfo.call (Function.update_of_ne here _ _)).trans call
  cases move with
  | shared call =>
      cases stands : s.worker with
      | unstarted => exact of_busy (fun _ _ there => by cases there) (fun _ _ there => by cases there)
      | lock | top | peek | check | fire | offer | offering | offered | relock | recheck | sleep
      | park | wait | wake | dead =>
          exact awake.keep stands.symm rfl (others (by simp [call]))
  | fetchSeq call | refused call | lock call => exact awake.keep rfl rfl (others (by simp [call]))
  | push call =>
      have own : ((s.setCall u .notify).timers u).call = .notify := by
        simp [Timers.setCall, Timers.setTimer]
      exact awake.pushed (lock.pusher u _ call).2 rfl rfl own (others (by simp [call]))
  | notify call => exact awake.notified rfl rfl

theorem workerStep (awake : Awake s) (move : WorkerMove s t) : Awake t := by
  cases move with
  | sleep => exact fun e member => covered_timeout member
  | park stands =>
      rw [Awake, stands] at awake
      exact fun e member => .inl (awake e member)
  | lock | top | pop | rest | skip | fire | offer | fired | relock | letGo | pushAgain =>
      exact of_busy (fun _ _ there => by cases there) (fun _ _ there => by cases there)

/-- Every action keeps the account of the entries. -/
theorem step {a : TimerAct} (awake : Awake s) (lock : LockInv s) (timerInv : TimerInv s)
    (moved : s.step a = some t) : Awake t := by
  have registered : ∀ kind target delay, Awake (s.register kind target delay) := by
    intro kind target delay
    refine awake.keep rfl rfl fun v call => ?_
    by_cases here : v = s.issued
    · rw [here, timerInv.unissued s.issued le_rfl] at call
      cases call
    · exact (congrArg TimerInfo.call (Function.update_of_ne here _ _)).trans call
  cases move_of_step moved with
  | tick | dropReceiver => exact awake.keep rfl rfl fun _ => id
  | sendAfter | sendEvery => exact registered _ _ _
  | schedule move => exact awake.schedule lock move
  | cancel returned =>
      refine awake.keep rfl rfl fun v call => ?_
      rw [call_of_update rfl (by rfl)]
      exact call
  | worker move => exact awake.workerStep move
  | made | missing | makePanics | offerReturns | wake | messagePanics | entryPanics =>
      exact of_busy (fun _ _ there => by cases there) (fun _ _ there => by cases there)

end Awake

/-- The three accounts hold in every reachable state. -/
theorem awake_of_run {s : Timers} (run : Reach Timers.step Free .start s) :
    TimerInv s ∧ LockInv s ∧ Awake s := by
  refine run.invariant (P := fun s => TimerInv s ∧ LockInv s ∧ Awake s)
    ⟨.start, .start, trivial⟩ ?_
  rintro u a v ⟨timerInv, lock, awake⟩ _ moved
  exact ⟨timerInv.step moved, lock.step timerInv moved, awake.step lock timerInv moved⟩

/-- A worker that is blocked in `wait_timeout` and was not notified sleeps past no entry, except those
    whose call has pushed them and is yet to notify it. -/
theorem no_lost_wakeup {s : Timers} {readAt timeout : Nat}
    (run : Reach Timers.step Free .start s) (blocked : s.worker = .wait readAt timeout false) :
    timeout = 0 ∨ ∀ e ∈ s.heap, readAt + timeout ≤ e.deadline ∨
      (s.timers e.timer).call = .notify := by
  obtain ⟨_, _, awake⟩ := awake_of_run run
  rw [Awake, blocked] at awake
  by_cases never : timeout = 0
  · exact .inl never
  · refine .inr fun e member => ?_
    rcases awake e member with covered | pending
    · exact .inl (covered.resolve_left never)
    · exact .inr pending

/-- Timer 0 is due at 50 and the worker sleeps for it; timer 1 is due at 13, is pushed during the sleep
    and has not notified the worker. -/
def earlierPushed : List TimerAct :=
  [.sendAfter 0 50, .schedule 0, .schedule 0, .schedule 0, .schedule 0, .schedule 0, .tick 3,
    .worker, .worker, .worker, .worker, .worker, .sendAfter 0 10, .schedule 1, .schedule 1,
    .schedule 1, .schedule 1]

theorem no_lost_wakeup_earlierPushed :
    ∃ s, exec Timers.step .start earlierPushed = some s ∧ s.worker = .wait 3 47 false ∧
      s.heap.map Entry.deadline = [13, 50] ∧
      ((47 : Nat) = 0 ∨ ∀ e ∈ s.heap, 3 + 47 ≤ e.deadline ∨ (s.timers e.timer).call = .notify) := by
  obtain ⟨s, executed, blocked, heap⟩ : ∃ s, exec Timers.step .start earlierPushed = some s ∧
      s.worker = .wait 3 47 false ∧ s.heap.map Entry.deadline = [13, 50] := ⟨_, rfl, rfl, rfl⟩
  exact ⟨s, executed, blocked, heap, no_lost_wakeup (reach_of_exec executed) blocked⟩

end AetherFlow.Timer
