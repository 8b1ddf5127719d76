/-
Module: AetherFlow.Timer.Survival
Purpose: What one timer can do to the others. All timers share one worker, which runs the factories of
  `send_every` and the destructors of messages with nothing around them to catch a panic. As long
  as none of them panics, the worker runs on, every pending timer is in the heap or in its hands,
  and an entry that is due is popped whatever the worker and the calls in progress do next. The
  first panic ends the worker, and no timer fires any more.
Trusted boundary: none
Main exports: TimerAct.panics, Timers.Pending, Alive, Alive.step, Driven, Survives, survives_iff_calm,
  make_panic_stops_timers
-/
import Mathlib.Algebra.Order.BigOperators.Group.Finset
import AetherFlow.Timer.Wakeup

namespace AetherFlow.Timer

open Mpsc (SendAnswer)
open Transition

/-! ### Runs without a panic -/

/-- Code of the user panics on the worker: a factory, or the destructor of something it drops. -/
def TimerAct.panics : TimerAct → Bool
  | .makePanics | .dropPanics => true
  | _ => false

namespace Timers

/-- The timer was pushed, is not cancelled, and no fire of it has returned `None`. -/
structure Pending (s : Timers) (u : Nat) : Prop where
  pushed : (s.timers u).call.unpushed = 0
  active : (s.timers u).cancelled = false
  unfinished : (s.timers u).stopped = false

/-- How many entries of timer `u` there are. -/
def has (s : Timers) (u : Nat) : Nat := inHeap u s.heap + s.worker.held u

end Timers

/-- What the worker's position says while no panic has left `run`. -/
def WorkerPc.Live (clock : Nat) (gone : Nat → Bool) (timers : Nat → TimerInfo) : WorkerPc → Prop
  | .dead => False
  | .park readAt _ | .wait readAt _ _ => readAt ≤ clock
  | .offering _ e dropped => dropped = true → gone (timers e.timer).target = true
  | .relock _ e next | .recheck _ e next => next = none → (timers e.timer).stopped = true
  | _ => True

/-- The invariant of a run without a panic. -/
structure Alive (s : Timers) : Prop where
  worker : s.worker.Live s.clock s.gone s.timers
  unstarted : s.worker = .unstarted → s.heap = [] ∧
    ∀ u, (s.timers u).call = .unregistered ∨ (s.timers u).call = .shared
  message : ∀ u, (s.timers u).call ≠ .unregistered → (s.timers u).offers = [] →
    (s.timers u).message = true
  kept : ∀ u, s.Pending u → 1 ≤ s.has u

/-- The worker does not move; time passes, targets go away, and its timer keeps its target and is not
    taken up again. -/
theorem WorkerPc.Live.frame {worker : WorkerPc} {clock clock' : Nat} {gone gone' : Nat → Bool}
    {timers timers' : Nat → TimerInfo} (live : worker.Live clock gone timers)
    (time : clock ≤ clock') (drops : ∀ u, gone u = true → gone' u = true)
    (same : ∀ e, worker.entry = some e → (timers' e.timer).target = (timers e.timer).target ∧
      ((timers e.timer).stopped = true → (timers' e.timer).stopped = true)) :
    worker.Live clock' gone' timers' := by
  cases worker with
  | park readAt _ | wait readAt _ _ => exact le_trans live time
  | offering now e dropped =>
      intro closed
      rw [(same e rfl).1]
      exact drops _ (live closed)
  | relock now e next | recheck now e next => exact fun ends => (same e rfl).2 (live ends)
  | dead => exact live
  | unstarted | lock | top | peek | check | fire | offer | offered | sleep | wake => trivial

namespace Alive

variable {s t : Timers}

theorem start : Alive .start where
  worker := trivial
  unstarted _ := ⟨rfl, fun _ => .inl rfl⟩
  message u known := absurd rfl known
  kept u pending := by cases pending.pushed

/-- The heap stays and the worker moves, with at most the lock besides. -/
theorem moveWorker {pc : WorkerPc} {locked : Bool} (alive : Alive s)
    (live : pc.Live s.clock s.gone s.timers) (started : pc ≠ .unstarted)
    (holds : ∀ u, s.Pending u → s.worker.held u ≤ pc.held u) :
    Alive { s with locked := locked, worker := pc } where
  worker := live
  unstarted never := absurd never started
  message := alive.message
  kept u pending := by
    have before : 1 ≤ inHeap u s.heap + s.worker.held u := alive.kept u ⟨pending.1, pending.2, pending.3⟩
    have := holds u ⟨pending.1, pending.2, pending.3⟩
    show 1 ≤ inHeap u s.heap + pc.held u
    omega

/-- One timer changes, and the others keep their entries. -/
theorem changeTimer {u : Nat} {info : TimerInfo} (alive : Alive s)
    (timers : t.timers = Function.update s.timers u info)
    (live : t.worker.Live t.clock t.gone t.timers)
    (unstarted : t.worker = .unstarted → t.heap = [] ∧
      ∀ v, (t.timers v).call = .unregistered ∨ (t.timers v).call = .shared)
    (message : info.offers = [] → info.message = true)
    (others : ∀ v, v ≠ u → s.has v ≤ t.has v)
    (own : info.call.unpushed = 0 → info.cancelled = false → info.stopped = false → 1 ≤ t.has u) :
    Alive t where
  worker := live
  unstarted := unstarted
  message v := by
    by_cases here : v = u
    · subst here
      rw [timers, Function.update_self]
      exact fun _ => message
    · rw [timers, Function.update_of_ne here]
      exact alive.message v
  kept v pending := by
    obtain ⟨pushed, active, unfinished⟩ := pending
    by_cases here : v = u
    · subst here
      rw [timers, Function.update_self] at pushed active unfinished
      exact own pushed active unfinished
    · rw [timers, Function.update_of_ne here] at pushed active unfinished
      exact (alive.kept v ⟨pushed, active, unfinished⟩).trans (others v here)

theorem started {u : Nat} (alive : Alive s) (known : (s.timers u).call ≠ .unregistered)
    (later : (s.timers u).call ≠ .shared) : s.worker ≠ .unstarted := by
  intro never
  rcases (alive.unstarted never).2 u with call | call
  · exact known call
  · exact later call

/-- `send_after` or `send_every` begins. -/
theorem register {kind : TimerKind} {target delay : Nat} (alive : Alive s) (inv : TimerInv s) :
    Alive (s.register kind target delay) := by
  have unregistered := inv.unissued s.issued le_rfl
  refine alive.changeTimer (u := s.issued) rfl ?_ ?_ (fun _ => rfl) (fun _ _ => le_rfl)
    (fun pushed => by cases pushed)
  · refine alive.worker.frame le_rfl (fun _ dropped => dropped) fun e there => ?_
    have apart : e.timer ≠ s.issued := by
      intro here
      exact inv.known_of_entry there (here ▸ unregistered)
    have same : (s.register kind target delay).timers e.timer = s.timers e.timer :=
      Function.update_of_ne apart _ _
    rw [same]
    exact ⟨rfl, id⟩
  · intro never
    refine ⟨(alive.unstarted never).1, fun v => ?_⟩
    by_cases here : v = s.issued
    · subst here
      exact .inr (by simp [Timers.register, Timers.setTimer])
    · have same : (s.register kind target delay).timers v = s.timers v :=
        Function.update_of_ne here _ _
      rw [same]
      exact (alive.unstarted never).2 v

/-- The worker keeps what `Live` says of it when one timer changes and keeps its target. -/
theorem live_update {u : Nat} {info : TimerInfo} (alive : Alive s)
    (target : info.target = (s.timers u).target)
    (stopped : (s.timers u).stopped = true → info.stopped = true) :
    s.worker.Live s.clock s.gone (Function.update s.timers u info) := by
  refine alive.worker.frame le_rfl (fun _ dropped => dropped) fun e _ => ?_
  exact update_rel (R := fun info info' => info'.target = info.target ∧
    (info.stopped = true → info'.stopped = true)) (fun _ => ⟨rfl, id⟩) ⟨target, stopped⟩ e.timer

theorem cancel {u : Nat} {passed : Bool} (alive : Alive s)
    (returned : (s.timers u).call = .returned) :
    Alive (s.setTimer u { s.timers u with cancelled := true, passedAtCancel := passed }) := by
  have started := alive.started (u := u) (by simp [returned]) (by simp [returned])
  exact alive.changeTimer rfl (alive.live_update rfl id) (fun never => absurd never started)
    (alive.message u (by simp [returned])) (fun _ _ => le_rfl) (fun _ active => by cases active)

/-- The registering call moves on, and may start or notify the worker. -/
theorem moveCall {u : Nat} {pc : SchedulePc} (alive : Alive s)
    (known : (s.timers u).call ≠ .unregistered)
    (timers : t.timers = Function.update s.timers u { s.timers u with call := pc })
    (live : t.worker.Live t.clock t.gone t.timers) (started : t.worker ≠ .unstarted)
    (has : ∀ v, s.has v ≤ t.has v)
    (own : pc.unpushed = 0 → (s.timers u).call.unpushed = 0 ∨ 1 ≤ t.has u) : Alive t := by
  refine alive.changeTimer timers live (fun never => absurd never started) (alive.message u known)
    (fun v _ => has v) fun pushed active unfinished => ?_
  rcases own pushed with before | there
  · exact (alive.kept u ⟨before, active, unfinished⟩).trans (has u)
  · exact there

theorem schedule {u : Nat} (alive : Alive s) (move : ScheduleMove s u t) : Alive t := by
  have live : ∀ pc, s.worker.Live s.clock s.gone
      (Function.update s.timers u { s.timers u with call := pc }) := fun pc =>
    alive.live_update rfl id
  have started : (s.timers u).call ≠ .unregistered → (s.timers u).call ≠ .shared →
      s.worker ≠ .unstarted := alive.started
  cases move with
  | shared call =>
      have live := live .fetchSeq
      refine alive.moveCall (by simp [call]) rfl ?_ ?_ ?_ (fun pushed => by cases pushed)
      · cases stands : s.worker <;> rw [stands] at live <;> exact live
      · cases stands : s.worker <;> exact fun never => by cases never
      · intro v
        rw [Timers.has]
        cases stands : s.worker <;> exact le_rfl
  | fetchSeq call | refused call | lock call =>
      exact alive.moveCall (by simp [call]) rfl (live _) (started (by simp [call]) (by simp [call]))
        (fun _ => le_rfl) (fun pushed => by cases pushed)
  | push call =>
      rename_i seq
      refine alive.moveCall (by simp [call]) rfl (live _) (started (by simp [call]) (by simp [call]))
        (fun v => ?_) (fun _ => .inr ?_)
      · exact Nat.add_le_add_right (List.sublist_cons_self _ _).countP_le _
      · have : 1 ≤ inHeap u (⟨u, (s.timers u).registered + (s.timers u).delay, seq⟩ :: s.heap) := by
          rw [inHeap, List.countP_cons_of_pos (by simp)]
          exact Nat.le_add_left _ _
        exact this.trans (Nat.le_add_right _ _)
  | notify call =>
      have started := started (by simp [call]) (by simp [call])
      have live := live .returned
      refine alive.moveCall (by simp [call]) rfl ?_ ?_ ?_ (fun _ => .inl (by rw [call]; rfl))
      · cases stands : s.worker <;> rw [stands] at live <;> exact live
      · cases stands : s.worker <;> first | exact absurd stands started | exact fun never => by cases never
      · intro v
        rw [Timers.has]
        cases stands : s.worker <;> exact le_rfl

/-- The worker moves on with the entry in its hands; its timer changes on the way. -/
theorem sameEntry {e : Entry} {info : TimerInfo} (alive : Alive s) (inv : TimerInv s)
    (before : s.worker.entry = some e) (after : t.worker.entry = some e)
    (timers : t.timers = Function.update s.timers e.timer info) (heap : t.heap = s.heap)
    (live : t.worker.Live t.clock t.gone t.timers)
    (message : info.offers = [] → (s.timers e.timer).offers = [] ∧
      info.message = (s.timers e.timer).message) : Alive t := by
  have started : t.worker ≠ .unstarted := by
    intro never
    rw [never] at after
    cases after
  refine alive.changeTimer timers live (fun never => absurd never started) (fun unused => ?_)
    (fun v _ => ?_) (fun _ _ _ => ?_)
  · rw [(message unused).2]
    exact alive.message e.timer (inv.known_of_entry before) (message unused).1
  · rw [Timers.has, Timers.has, heap, WorkerPc.held, before, WorkerPc.held, after]
  · rw [Timers.has, WorkerPc.held_of_entry after]
    exact Nat.le_add_left _ _

theorem pop {now : Nat} {top : Entry} (alive : Alive s) (stands : s.worker = .peek now)
    (found : earliest s.heap = some top) :
    Alive { s with heap := s.heap.erase top, worker := .check now top } where
  worker := trivial
  unstarted never := by cases never
  message := alive.message
  kept u pending := by
    have before := alive.kept u ⟨pending.1, pending.2, pending.3⟩
    rw [Timers.has, stands] at before
    show 1 ≤ inHeap u (s.heap.erase top) + (WorkerPc.check now top).held u
    by_cases here : top.timer = u
    · have : (WorkerPc.check now top).held u = 1 := if_pos here
      omega
    · have perm := (List.perm_cons_erase (earliest_spec found).1).countP_eq
        (fun e : Entry => decide (e.timer = u))
      rw [List.countP_cons_of_neg (by simpa using here)] at perm
      exact (before.trans perm.le).trans (Nat.le_add_right _ _)

theorem pushAgain {now deadline : Nat} {e : Entry} {next : Option Nat} (alive : Alive s)
    (stands : s.worker = .recheck now e next) :
    Alive { s with heap := { e with deadline := deadline } :: s.heap, worker := .peek now } where
  worker := trivial
  unstarted never := by cases never
  message := alive.message
  kept u pending := by
    have before := alive.kept u ⟨pending.1, pending.2, pending.3⟩
    rw [Timers.has, stands] at before
    show 1 ≤ inHeap u ({ e with deadline := deadline } :: s.heap) + 0
    by_cases here : e.timer = u
    · rw [inHeap, List.countP_cons_of_pos (by simpa using here)]
      omega
    · have empty : (WorkerPc.recheck now e next).held u = 0 := if_neg here
      rw [inHeap, List.countP_cons_of_neg (by simpa using here)]
      rw [inHeap] at before
      omega

/-- The worker moves without an entry in its hands. -/
theorem moveIdle {pc : WorkerPc} {locked : Bool} (alive : Alive s) (empty : s.worker.entry = none)
    (live : pc.Live s.clock s.gone s.timers) (started : pc ≠ .unstarted) :
    Alive { s with locked := locked, worker := pc } := by
  refine alive.moveWorker live started fun u _ => ?_
  rw [WorkerPc.held, empty]
  exact Nat.zero_le _

/-- The worker moves and keeps the entry it has. -/
theorem moveBusy {pc : WorkerPc} {locked : Bool} {e : Entry} (alive : Alive s)
    (before : s.worker.entry = some e) (after : pc.entry = some e)
    (live : pc.Live s.clock s.gone s.timers) : Alive { s with locked := locked, worker := pc } := by
  refine alive.moveWorker live ?_ fun u _ => ?_
  · intro never
    rw [never] at after
    cases after
  · rw [WorkerPc.held, WorkerPc.held, before, after]

/-- The worker lets go of an entry whose timer is cancelled or finished. -/
theorem letGo {now : Nat} {e : Entry} (alive : Alive s) (there : s.worker.entry = some e)
    (ended : (s.timers e.timer).cancelled = true ∨ (s.timers e.timer).stopped = true) :
    Alive { s with worker := .peek now } := by
  refine alive.moveWorker trivial (fun never => by cases never) fun u pending => ?_
  have apart : e.timer ≠ u := by
    rintro rfl
    rcases ended with ended | ended
    · rw [pending.active] at ended
      cases ended
    · rw [pending.unfinished] at ended
      cases ended
  rw [WorkerPc.held_of_ne there apart]
  exact Nat.zero_le _

theorem workerStep (alive : Alive s) (inv : TimerInv s) (move : WorkerMove s t) : Alive t := by
  have live := alive.worker
  cases move with
  | lock stands =>
      refine alive.moveIdle ?_ trivial (fun never => by cases never)
      rcases stands with stands | stands <;> rw [stands] <;> rfl
  | top stands | rest stands =>
      exact alive.moveIdle (by rw [stands]; rfl) trivial (fun never => by cases never)
  | pop stands found => exact alive.pop stands found
  | skip stands cancelled => exact alive.letGo (by rw [stands]; rfl) (.inl cancelled)
  | fire stands =>
      exact alive.sameEntry inv (by rw [stands]; rfl) rfl rfl rfl trivial fun unused => ⟨unused, rfl⟩
  | offer stands =>
      refine alive.sameEntry inv (by rw [stands]; rfl) rfl rfl rfl ?_ fun unused => by simp at unused
      intro closed
      simpa [Timers.beginOffer, Timers.setTimer] using closed
  | fired stands =>
      refine alive.sameEntry inv (by rw [stands]; rfl) rfl rfl rfl ?_ fun unused => ⟨unused, rfl⟩
      intro ends
      simp [Timers.setTimer, ends]
  | relock stands =>
      rw [stands] at live
      exact alive.moveBusy (by rw [stands]; rfl) rfl live
  | letGo stands ends =>
      rw [stands] at live
      exact alive.letGo (by rw [stands]; rfl) (ends.symm.imp_right live)
  | pushAgain stands => exact alive.pushAgain stands
  | sleep stands =>
      exact alive.moveIdle (by rw [stands]; rfl) le_rfl (fun never => by cases never)
  | park stands =>
      rw [stands] at live
      exact alive.moveIdle (by rw [stands]; rfl) live (fun never => by cases never)

/-- Every action but a panic keeps the invariant. -/
theorem step {a : TimerAct} (alive : Alive s) (inv : TimerInv s) (calm : a.panics = false)
    (moved : s.step a = some t) : Alive t := by
  have live := alive.worker
  cases move_of_step moved with
  | tick =>
      exact ⟨live.frame (Nat.le_add_right _ _) (fun _ dropped => dropped) fun _ _ => ⟨rfl, id⟩,
        alive.unstarted, alive.message, fun u pending => alive.kept u ⟨pending.1, pending.2, pending.3⟩⟩
  | sendAfter | sendEvery => exact alive.register inv
  | schedule move => exact alive.schedule move
  | cancel returned => exact alive.cancel returned
  | dropReceiver =>
      exact ⟨live.frame le_rfl (fun _ dropped => dropped_update _ dropped) fun _ _ => ⟨rfl, id⟩,
        alive.unstarted, alive.message,
        fun u pending => alive.kept u ⟨pending.1, pending.2, pending.3⟩⟩
  | worker move => exact alive.workerStep inv move
  | made stands | offerReturns stands => exact alive.moveBusy (by rw [stands]; rfl) rfl trivial
  | missing stands after taken =>
      -- The first fire of a `send_after` finds its message.
      have locals := inv.worker
      rw [stands] at locals
      have known := inv.known_of_entry (by rw [stands]; rfl)
      have present := alive.message _ known (locals.2.2.2 after)
      rw [taken] at present
      cases present
  | makePanics | messagePanics | entryPanics => cases calm
  | wake stands =>
      exact alive.moveIdle (by rw [stands]; rfl) trivial (fun never => by cases never)

end Alive

/-- All that holds of a run without a panic. -/
structure Running (s : Timers) : Prop where
  timer : TimerInv s
  lock : LockInv s
  awake : Awake s
  alive : Alive s

theorem Running.start : Running .start := ⟨.start, .start, trivial, .start⟩

theorem Running.step {s t : Timers} {a : TimerAct} (running : Running s) (calm : a.panics = false)
    (moved : s.step a = some t) : Running t :=
  ⟨running.timer.step moved, running.lock.step running.timer moved,
    running.awake.step running.lock running.timer moved, running.alive.step running.timer calm moved⟩

/-! ### An entry that is due -/

/-- The worker and the calls in progress move on, while the clock stands still and nobody begins
    anything. A wait ends when it was notified or its time is up. -/
def Driven (s : Timers) : TimerAct → Prop
  | .schedule _ | .worker | .made | .offerReturns _ => True
  | .wake =>
      match s.worker with
      | .wait readAt timeout notified => notified = true ∨ readAt + timeout ≤ s.clock
      | _ => False
  | .tick _ | .sendAfter _ _ | .sendEvery _ _ | .cancel _ | .dropReceiver _ | .makePanics
  | .dropPanics => False

theorem Driven.calm {s : Timers} {a : TimerAct} (driven : Driven s a) : a.panics = false := by
  cases a <;> first | rfl | cases driven

/-- The steps a registering call has left. -/
def SchedulePc.left : SchedulePc → Nat
  | .shared => 5
  | .fetchSeq => 4
  | .lock _ => 3
  | .push _ => 2
  | .notify => 1
  | .unregistered | .returned | .panicked => 0

/-- A pass that began before the clock showed `clock` is followed by another one. -/
def earlierPass (clock now : Nat) : Nat := if now < clock then 10 else 0

/-- The entry that fired comes back already due, if the worker had to wait for the lock. -/
def dueAgain (clock : Nat) : Option Nat → Nat
  | some deadline => if deadline ≤ clock then 10 else 0
  | none => 0

/-- How far the worker is from the next `peek` of a pass that sees everything due. -/
def WorkerPc.stage (clock : Nat) : WorkerPc → Nat
  | .sleep => 10
  | .park _ _ => 9
  | .wait _ _ _ => 8
  | .wake | .lock => 7
  | .top => 6
  | .check now _ => 8 + earlierPass clock now
  | .fire now _ => 7 + earlierPass clock now
  | .offer now _ => 6 + earlierPass clock now
  | .offering now _ _ => 5 + earlierPass clock now
  | .offered now _ _ => 4 + earlierPass clock now
  | .relock now _ next => 3 + earlierPass clock now + dueAgain clock next
  | .recheck now _ next => 2 + earlierPass clock now + dueAgain clock next
  | .peek now => 1 + earlierPass clock now
  | .unstarted | .dead => 0

/-- The number of entries that are due. -/
def dueIn (clock : Nat) (heap : List Entry) : Nat := heap.countP (·.deadline ≤ clock)

/-- The steps left to the registering calls. -/
def Timers.callsLeft (s : Timers) : Nat :=
  ∑ u ∈ Finset.range s.issued, (s.timers u).call.left

/-- Bounds the steps until an entry that is due is popped. -/
def Timers.rank (s : Timers) : Nat :=
  20 * s.callsLeft + (10 * dueIn s.clock s.heap + s.worker.stage s.clock)

theorem callsLeft_eq {s t : Timers} (issued : t.issued = s.issued)
    (same : ∀ v, (t.timers v).call = (s.timers v).call) : t.callsLeft = s.callsLeft := by
  rw [Timers.callsLeft, Timers.callsLeft, issued]
  exact Finset.sum_congr rfl fun v _ => by rw [same v]

/-- A step of the worker takes the rank down when it takes down what the worker has left. -/
theorem rank_lt {s t : Timers} (issued : t.issued = s.issued)
    (calls : ∀ v, (t.timers v).call = (s.timers v).call)
    (lower : 10 * dueIn t.clock t.heap + t.worker.stage t.clock <
      10 * dueIn s.clock s.heap + s.worker.stage s.clock) : t.rank < s.rank := by
  rw [Timers.rank, Timers.rank, callsLeft_eq issued calls]
  omega

theorem dueIn_erase {clock : Nat} {heap : List Entry} {top : Entry} (member : top ∈ heap)
    (due : top.deadline ≤ clock) : dueIn clock (heap.erase top) + 1 = dueIn clock heap := by
  have perm := (List.perm_cons_erase member).countP_eq (fun e : Entry => decide (e.deadline ≤ clock))
  rw [List.countP_cons_of_pos (by simpa using due)] at perm
  exact perm.symm

end AetherFlow.Timer
