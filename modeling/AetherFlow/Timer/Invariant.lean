/-
Module: AetherFlow.Timer.Invariant
Purpose: When timers fire. A timer has at most one entry, wherever it is: still with the thread that
  registers it, in the heap, or in the worker's hands. Each entry's deadline is late enough for the
  fire it stands for, and what a cancelled timer or a timer whose target is gone may still do is
  bounded by where the worker stands. Every step of anybody keeps this, panics included.
Trusted boundary: none
Main exports: Ready, Spaced, TimerOk, TimerInv, TimerInv.step, TimerSafe
-/
import AetherFlow.Timer.Moves

namespace AetherFlow.Timer

open Mpsc (SendAnswer)
open Transition

/-! ### One timer -/

/-- How many entries of timer `t` are in the heap. -/
def inHeap (t : Nat) (heap : List Entry) : Nat := heap.countP (·.timer = t)

/-- How many entries of timer `t` the worker has in its hands. -/
def WorkerPc.held (t : Nat) (pc : WorkerPc) : Nat :=
  match pc.entry with
  | some e => if e.timer = t then 1 else 0
  | none => 0

/-- The entry has not reached the heap yet; it never will if the call panicked. -/
def SchedulePc.unpushed : SchedulePc → Nat
  | .notify | .returned => 0
  | _ => 1

/-- A fire at `d` or later is late enough for the timer. -/
structure Ready (info : TimerInfo) (d : Nat) : Prop where
  due : info.registered + info.delay ≤ d
  began : ∀ o ∈ info.began, o + info.delay ≤ d
  offers : ∀ o ∈ info.offers, o + info.delay ≤ d
  unfired : info.kind = .after → info.began = [] ∧ info.offers = []

/-- The fires so far were late enough and far enough apart. -/
structure Spaced (info : TimerInfo) (clock : Nat) : Prop where
  registered : info.registered ≤ clock
  began : ∀ o ∈ info.began, info.registered + info.delay ≤ o ∧ o ≤ clock
  offers : ∀ o ∈ info.offers, info.registered + info.delay ≤ o ∧ o ≤ clock
  began_apart : info.began.Pairwise (· + info.delay ≤ ·)
  offers_apart : info.offers.Pairwise (· + info.delay ≤ ·)
  once : info.kind = .after → info.began.length ≤ 1 ∧ info.offers.length ≤ 1

/-- Where the worker may stand with a timer whose last fire has begun. -/
def WorkerPc.Ending (t : Nat) : WorkerPc → Prop
  | .check _ e => e.timer ≠ t
  | .offering _ e gone => e.timer = t → gone = true
  | .offered _ e answer => e.timer = t → answer = .closed
  | .relock _ e next | .recheck _ e next => e.timer = t → next = none
  | _ => True

/-- What holds of timer `t`, next to the heap, the dropped targets and the worker. -/
structure TimerOk (clock : Nat) (heap : List Entry) (gone : Nat → Bool) (worker : WorkerPc) (t : Nat)
    (info : TimerInfo) : Prop where
  positive : info.kind = .every → 0 < info.delay
  spaced : Spaced info clock
  one_place : inHeap t heap + worker.held t + info.call.unpushed ≤ 1
  unused : info.call.unpushed = 1 → info.began = [] ∧ info.offers = []
  uncancelled : info.cancelled = false → info.offersSinceCancel = 0
  cancelled : info.cancelled = true → info.offersSinceCancel + (worker.passed t).toNat ≤ 1
  cancelled_early : info.cancelled = true → info.passedAtCancel = false →
    info.offersSinceCancel = 0 ∧ worker.passed t = false
  gone_once : info.beganSinceGone ≤ 1
  ending : 1 ≤ info.beganSinceGone → gone info.target = true ∧ inHeap t heap = 0 ∧
    info.call.unpushed = 0 ∧ worker.Ending t

/-- The worker's locals. -/
def WorkerPc.Ok (clock : Nat) (timers : Nat → TimerInfo) : WorkerPc → Prop
  | .peek now | .offering now _ _ | .offered now _ _ => now ≤ clock
  | .check now e => now ≤ clock ∧ e.deadline ≤ now ∧ Ready (timers e.timer) e.deadline
  | .fire now e | .offer now e =>
      now ≤ clock ∧ (timers e.timer).registered + (timers e.timer).delay ≤ clock ∧
        (∀ o ∈ (timers e.timer).offers, o + (timers e.timer).delay ≤ clock) ∧
        ((timers e.timer).kind = .after → (timers e.timer).offers = [])
  | .relock now e next | .recheck now e next =>
      now ≤ clock ∧ ∀ d, next = some d → now < d ∧ Ready (timers e.timer) d
  | _ => True

/-- The invariant of the timer service. -/
structure TimerInv (s : Timers) : Prop where
  timer : ∀ t, TimerOk s.clock s.heap s.gone s.worker t (s.timers t)
  heap : ∀ e ∈ s.heap, Ready (s.timers e.timer) e.deadline
  worker : s.worker.Ok s.clock s.timers
  unissued : ∀ t, s.issued ≤ t → (s.timers t).call = .unregistered

/-! ### What a step of somebody else leaves alone -/

/-- With respect to timer `t` the worker has moved on without picking anything up. -/
structure Quieter (t : Nat) (worker worker' : WorkerPc) : Prop where
  held : worker'.held t ≤ worker.held t
  passed : worker'.passed t = true → worker.passed t = true
  ending : worker.Ending t → worker'.Ending t

namespace Quieter

variable {t : Nat} {worker worker' : WorkerPc}

theorem refl (t : Nat) (worker : WorkerPc) : Quieter t worker worker := ⟨le_rfl, id, id⟩

/-- A worker that has no entry of `t` in its hands. -/
theorem of_elsewhere (elsewhere : ∀ e, worker'.entry = some e → e.timer ≠ t) :
    Quieter t worker worker' := by
  cases worker' with
  | unstarted | lock | top | peek | sleep | park | wait | wake | dead =>
      exact ⟨Nat.zero_le _, fun passed => by simp [WorkerPc.passed] at passed, fun _ => trivial⟩
  | check | fire | offer | offering | offered | relock | recheck =>
      have apart := elsewhere _ rfl
      refine ⟨?_, ?_, ?_⟩
      · simp [WorkerPc.held, WorkerPc.entry, apart]
      · simp [WorkerPc.passed, apart]
      · simp [WorkerPc.Ending, apart]

theorem of_none (empty : worker'.entry = none) : Quieter t worker worker' :=
  of_elsewhere fun e there => by rw [empty] at there; cases there

end Quieter

theorem WorkerPc.held_of_entry {worker : WorkerPc} {e : Entry} (there : worker.entry = some e) :
    worker.held e.timer = 1 := by
  simp [WorkerPc.held, there]

theorem WorkerPc.held_of_ne {worker : WorkerPc} {e : Entry} {t : Nat} (there : worker.entry = some e)
    (apart : e.timer ≠ t) : worker.held t = 0 := by
  simp [WorkerPc.held, there, apart]

/-- The parts of a timer that say when it may fire. -/
structure SameRecord (info info' : TimerInfo) : Prop where
  kind : info'.kind = info.kind
  delay : info'.delay = info.delay
  registered : info'.registered = info.registered
  began : info'.began = info.began
  offers : info'.offers = info.offers

theorem SameRecord.refl (info : TimerInfo) : SameRecord info info := ⟨rfl, rfl, rfl, rfl, rfl⟩

theorem Ready.congr {info info' : TimerInfo} {d : Nat} (ready : Ready info d)
    (same : SameRecord info info') : Ready info' d := by
  obtain ⟨kind, delay, registered, began, offers⟩ := same
  refine ⟨?_, ?_, ?_, ?_⟩
  · rw [registered, delay]
    exact ready.due
  · rw [began, delay]
    exact ready.began
  · rw [offers, delay]
    exact ready.offers
  · rw [kind, began, offers]
    exact ready.unfired

theorem Spaced.congr {info info' : TimerInfo} {clock : Nat} (spaced : Spaced info clock)
    (same : SameRecord info info') : Spaced info' clock := by
  obtain ⟨kind, delay, registered, began, offers⟩ := same
  refine ⟨?_, ?_, ?_, ?_, ?_, ?_⟩
  · rw [registered]
    exact spaced.registered
  · rw [began, registered, delay]
    exact spaced.began
  · rw [offers, registered, delay]
    exact spaced.offers
  · rw [began, delay]
    exact spaced.began_apart
  · rw [offers, delay]
    exact spaced.offers_apart
  · rw [kind, began, offers]
    exact spaced.once

theorem Spaced.of_unfired {info : TimerInfo} {clock : Nat} (registered : info.registered ≤ clock)
    (began : info.began = []) (offers : info.offers = []) : Spaced info clock where
  registered := registered
  began o member := by rw [began] at member; cases member
  offers o member := by rw [offers] at member; cases member
  began_apart := by rw [began]; exact List.Pairwise.nil
  offers_apart := by rw [offers]; exact List.Pairwise.nil
  once _ := by rw [began, offers]; exact ⟨Nat.zero_le _, Nat.zero_le _⟩

theorem Spaced.later {info : TimerInfo} {clock clock' : Nat} (spaced : Spaced info clock)
    (le : clock ≤ clock') : Spaced info clock' :=
  { spaced with
    registered := spaced.registered.trans le
    began := fun o member => ⟨(spaced.began o member).1, (spaced.began o member).2.trans le⟩
    offers := fun o member => ⟨(spaced.offers o member).1, (spaced.offers o member).2.trans le⟩ }

/-- A timer that a step does not change: time has passed, entries left the heap, targets were dropped,
    the worker moved on. -/
theorem TimerOk.frame {clock clock' : Nat} {heap heap' : List Entry} {gone gone' : Nat → Bool}
    {worker worker' : WorkerPc} {t : Nat} {info : TimerInfo}
    (ok : TimerOk clock heap gone worker t info) (time : clock ≤ clock')
    (heaps : inHeap t heap' ≤ inHeap t heap) (drops : ∀ u, gone u = true → gone' u = true)
    (quieter : Quieter t worker worker') : TimerOk clock' heap' gone' worker' t info where
  positive := ok.positive
  spaced := ok.spaced.later time
  one_place := by
    have := ok.one_place
    have := quieter.held
    omega
  unused := ok.unused
  uncancelled := ok.uncancelled
  cancelled was := by
    have before := ok.cancelled was
    cases passed : worker'.passed t with
    | false =>
        simp only [Bool.toNat_false]
        omega
    | true =>
        rw [quieter.passed passed] at before
        exact before
  cancelled_early was early := by
    obtain ⟨none, notPassed⟩ := ok.cancelled_early was early
    refine ⟨none, ?_⟩
    cases passed : worker'.passed t with
    | false => rfl
    | true => rw [quieter.passed passed] at notPassed; cases notPassed
  gone_once := ok.gone_once
  ending began := by
    obtain ⟨target, empty, pushed, stands⟩ := ok.ending began
    exact ⟨drops _ target, by omega, pushed, quieter.ending stands⟩

/-- The worker's locals depend on the timer of its entry alone. -/
theorem WorkerPc.Ok.frame {worker : WorkerPc} {clock clock' : Nat} {timers timers' : Nat → TimerInfo}
    (ok : worker.Ok clock timers) (time : clock ≤ clock')
    (same : ∀ e, worker.entry = some e → SameRecord (timers e.timer) (timers' e.timer)) :
    worker.Ok clock' timers' := by
  cases worker with
  | unstarted | lock | top | sleep | park | wait | wake | dead => trivial
  | peek now => exact Nat.le_trans ok time
  | offering now e gone => exact Nat.le_trans ok time
  | offered now e answer => exact Nat.le_trans ok time
  | check now e =>
      obtain ⟨le, due, ready⟩ := ok
      exact ⟨le.trans time, due, ready.congr (same e rfl)⟩
  | fire now e | offer now e =>
      obtain ⟨le, due, offers, unoffered⟩ := ok
      obtain ⟨kind, delay, registered, _, offered⟩ := same e rfl
      refine ⟨le.trans time, ?_⟩
      rw [kind, delay, registered, offered]
      exact ⟨due.trans time, fun o member => (offers o member).trans time, unoffered⟩
  | relock now e next | recheck now e next =>
      obtain ⟨le, ready⟩ := ok
      refine ⟨le.trans time, fun d there => ?_⟩
      exact ⟨(ready d there).1, (ready d there).2.congr (same e rfl)⟩

namespace TimerInv

variable {s t : Timers}

theorem start : TimerInv .start where
  timer t :=
    { positive := fun every => by cases every
      spaced := .of_unfired (Nat.zero_le _) rfl rfl
      one_place := le_rfl
      unused := fun _ => ⟨rfl, rfl⟩
      uncancelled := fun _ => rfl
      cancelled := fun was => by cases was
      cancelled_early := fun was => by cases was
      gone_once := Nat.zero_le _
      ending := fun began => by cases began }
  heap e member := by cases member
  worker := trivial
  unissued _ _ := rfl

/-- A step that changes no timer: time, targets, the worker's position, and entries that leave the
    heap. -/
theorem quiet (inv : TimerInv s) (timers : t.timers = s.timers) (issued : t.issued = s.issued)
    (time : s.clock ≤ t.clock) (heap : ∀ e ∈ t.heap, e ∈ s.heap)
    (heaps : ∀ u, inHeap u t.heap ≤ inHeap u s.heap)
    (drops : ∀ u, s.gone u = true → t.gone u = true)
    (quieter : ∀ u, Quieter u s.worker t.worker) (worker : t.worker.Ok t.clock s.timers) :
    TimerInv t where
  timer u := by
    rw [timers]
    exact (inv.timer u).frame time (heaps u) drops (quieter u)
  heap e member := by
    rw [timers]
    exact inv.heap e (heap e member)
  worker := by rw [timers]; exact worker
  unissued u late := by
    rw [timers]
    exact inv.unissued u (issued ▸ late)

/-- A step of the worker alone, with at most the lock besides. -/
theorem moveWorker {pc : WorkerPc} {locked poisoned : Bool} (inv : TimerInv s)
    (quieter : ∀ u, Quieter u s.worker pc) (worker : pc.Ok s.clock s.timers) :
    TimerInv { s with locked := locked, poisoned := poisoned, worker := pc } :=
  inv.quiet rfl rfl le_rfl (fun _ member => member) (fun _ => le_rfl) (fun _ gone => gone) quieter
    worker

/-- A step that changes timer `u` and leaves the others alone. -/
theorem changeTimer {u : Nat} {info : TimerInfo} (inv : TimerInv s)
    (timers : t.timers = Function.update s.timers u info) (clock : t.clock = s.clock)
    (gone : t.gone = s.gone) (heaps : ∀ v, v ≠ u → inHeap v t.heap ≤ inHeap v s.heap)
    (quieter : ∀ v, v ≠ u → Quieter v s.worker t.worker)
    (own : TimerOk t.clock t.heap t.gone t.worker u info)
    (heap : ∀ e ∈ t.heap, e.timer ≠ u → e ∈ s.heap)
    (ownHeap : ∀ e ∈ t.heap, e.timer = u → Ready info e.deadline)
    (worker : t.worker.Ok t.clock t.timers)
    (unissued : ∀ v, t.issued ≤ v → v ≠ u ∧ s.issued ≤ v ∨ (t.timers v).call = .unregistered) :
    TimerInv t where
  timer v := by
    by_cases here : v = u
    · subst here
      rw [timers, Function.update_self]
      exact own
    · rw [timers, Function.update_of_ne here]
      exact (inv.timer v).frame clock.ge (heaps v here) (fun w dropped => by rw [gone]; exact dropped)
        (quieter v here)
  heap e member := by
    by_cases here : e.timer = u
    · rw [timers, here, Function.update_self]
      exact ownHeap e member here
    · rw [timers, Function.update_of_ne here]
      exact inv.heap e (heap e member here)
  worker := worker
  unissued v late := by
    rcases unissued v late with ⟨apart, late⟩ | there
    · rw [timers, Function.update_of_ne apart]
      exact inv.unissued v late
    · exact there

/-! ### Registration and cancellation -/

/-- `send_after` or `send_every` begins. -/
theorem register {kind : TimerKind} {target delay : Nat} (inv : TimerInv s)
    (positive : kind = .every → 0 < delay) : TimerInv (s.register kind target delay) := by
  have unregistered := inv.unissued s.issued le_rfl
  have place := (inv.timer s.issued).one_place
  have one : (s.timers s.issued).call.unpushed = 1 := by rw [unregistered]; rfl
  have empty : inHeap s.issued s.heap = 0 := by omega
  have idle : s.worker.held s.issued = 0 := by omega
  have absent : ∀ e ∈ s.heap, e.timer ≠ s.issued := by
    intro e member here
    have := List.countP_eq_zero.1 empty e member
    simp [here] at this
  have elsewhere : ∀ e, s.worker.entry = some e → e.timer ≠ s.issued := by
    intro e there here
    have := WorkerPc.held_of_entry there
    rw [here] at this
    omega
  refine inv.changeTimer (u := s.issued) rfl rfl rfl (fun _ _ => le_rfl) (fun _ _ => .refl _ _) ?_
    (fun _ member _ => member) (fun e member here => absurd here (absent e member)) ?_ ?_
  · exact
      { positive := positive
        spaced := .of_unfired le_rfl rfl rfl
        one_place := show inHeap s.issued s.heap + s.worker.held s.issued + 1 ≤ 1 by omega
        unused := fun _ => ⟨rfl, rfl⟩
        uncancelled := fun _ => rfl
        cancelled := fun was => by cases was
        cancelled_early := fun was => by cases was
        gone_once := Nat.zero_le _
        ending := fun began => by cases began }
  · refine inv.worker.frame le_rfl fun e there => ?_
    have same : (s.register kind target delay).timers e.timer = s.timers e.timer :=
      Function.update_of_ne (elsewhere e there) _ _
    rw [same]
    exact .refl _
  · intro v late
    have late' : s.issued + 1 ≤ v := late
    exact .inl ⟨by omega, by omega⟩

theorem lt_issued {u : Nat} (inv : TimerInv s) (known : (s.timers u).call ≠ .unregistered) :
    u < s.issued := by
  by_contra late
  exact known (inv.unissued u (not_lt.1 late))

/-- A change of timer `u` that is not in its record of fires changes no entry's readiness. -/
theorem sameRecord_update {timers : Nat → TimerInfo} {u : Nat} {info : TimerInfo}
    (same : SameRecord (timers u) info) (v : Nat) :
    SameRecord (timers v) (Function.update timers u info v) :=
  update_rel (R := SameRecord) .refl same v

/-- A change of timer `u` that is not in its record of fires, while the worker moves on. -/
theorem annotate {u : Nat} {info : TimerInfo} (inv : TimerInv s)
    (known : (s.timers u).call ≠ .unregistered) (same : SameRecord (s.timers u) info)
    (timers : t.timers = Function.update s.timers u info) (clock : t.clock = s.clock)
    (gone : t.gone = s.gone) (heap : t.heap = s.heap) (issued : t.issued = s.issued)
    (quieter : ∀ v, v ≠ u → Quieter v s.worker t.worker)
    (own : TimerOk s.clock s.heap s.gone t.worker u info)
    (worker : t.worker.Ok s.clock s.timers) : TimerInv t := by
  have below := inv.lt_issued known
  refine inv.changeTimer timers clock gone (fun v _ => by rw [heap]) quieter ?_
    (fun e member _ => heap ▸ member) ?_ ?_ ?_
  · rw [clock, heap, gone]
    exact own
  · intro e member here
    have ready := inv.heap e (heap ▸ member)
    rw [here] at ready
    exact ready.congr same
  · rw [clock, timers]
    exact worker.frame le_rfl fun e _ => sameRecord_update same e.timer
  · intro v late
    rw [issued] at late
    exact .inl ⟨by omega, late⟩

/-- The registering call moves on without touching the heap; it may wake or start the worker. -/
theorem setCall {u : Nat} {pc : SchedulePc} (inv : TimerInv s)
    (known : (s.timers u).call ≠ .unregistered)
    (pushed : pc.unpushed = (s.timers u).call.unpushed)
    (timers : t.timers = Function.update s.timers u { s.timers u with call := pc })
    (clock : t.clock = s.clock) (gone : t.gone = s.gone) (heap : t.heap = s.heap)
    (issued : t.issued = s.issued) (quieter : ∀ v, Quieter v s.worker t.worker)
    (worker : t.worker.Ok s.clock s.timers) : TimerInv t := by
  have ok : TimerOk s.clock s.heap s.gone t.worker u (s.timers u) :=
    (inv.timer u).frame le_rfl le_rfl (fun _ dropped => dropped) (quieter u)
  have same : SameRecord (s.timers u) { s.timers u with call := pc } := ⟨rfl, rfl, rfl, rfl, rfl⟩
  refine inv.annotate known same timers clock gone heap issued (fun v _ => quieter v) ?_ worker
  exact
    { positive := ok.positive
      spaced := ok.spaced.congr same
      one_place := by
        have := ok.one_place
        rw [← pushed] at this
        exact this
      unused := fun one => ok.unused (pushed ▸ one)
      uncancelled := ok.uncancelled
      cancelled := ok.cancelled
      cancelled_early := ok.cancelled_early
      gone_once := ok.gone_once
      ending := by
        intro began
        have := ok.ending began
        rw [← pushed] at this
        exact this }

/-- `schedule` pushes the entry. -/
theorem push {u seq : Nat} (inv : TimerInv s) (call : (s.timers u).call = .push seq)
    (timers : t.timers = Function.update s.timers u { s.timers u with call := .notify })
    (clock : t.clock = s.clock) (gone : t.gone = s.gone) (issued : t.issued = s.issued)
    (heap : t.heap = ⟨u, (s.timers u).registered + (s.timers u).delay, seq⟩ :: s.heap)
    (worker : t.worker = s.worker) : TimerInv t := by
  have ok := inv.timer u
  have one : (s.timers u).call.unpushed = 1 := by rw [call]; rfl
  have place := ok.one_place
  obtain ⟨began, offers⟩ := ok.unused one
  have below := inv.lt_issued (u := u) (by rw [call]; simp)
  have same : SameRecord (s.timers u) { s.timers u with call := .notify } :=
    ⟨rfl, rfl, rfl, rfl, rfl⟩
  have elsewhere : ∀ v, v ≠ u → inHeap v t.heap = inHeap v s.heap := by
    intro v apart
    rw [heap, inHeap, List.countP_cons_of_neg (by simpa using apart.symm)]
    rfl
  have here : inHeap u t.heap = inHeap u s.heap + 1 := by
    rw [heap, inHeap, List.countP_cons_of_pos (by simp)]
    rfl
  refine inv.changeTimer timers clock gone (fun v apart => (elsewhere v apart).le)
    (fun v _ => by rw [worker]; exact .refl _ _) ?_ ?_ ?_ ?_ ?_
  · rw [clock, gone, worker]
    exact
      { positive := ok.positive
        spaced := ok.spaced.congr same
        one_place := show inHeap u t.heap + s.worker.held u + 0 ≤ 1 by omega
        unused := fun none => by cases none
        uncancelled := ok.uncancelled
        cancelled := ok.cancelled
        cancelled_early := ok.cancelled_early
        gone_once := ok.gone_once
        ending := by
          intro fired
          obtain ⟨_, _, pushed, _⟩ := ok.ending fired
          omega }
  · intro e member apart
    rw [heap] at member
    rcases List.mem_cons.1 member with rfl | member
    · exact absurd rfl apart
    · exact member
  · intro e member own
    rw [heap] at member
    rcases List.mem_cons.1 member with rfl | member
    · refine ⟨le_rfl, ?_, ?_, fun _ => ⟨began, offers⟩⟩
      · show ∀ o ∈ (s.timers u).began, _
        rw [began]
        exact fun o none => by cases none
      · show ∀ o ∈ (s.timers u).offers, _
        rw [offers]
        exact fun o none => by cases none
    · have ready := inv.heap e member
      rw [own] at ready
      exact ready.congr same
  · rw [clock, timers, worker]
    exact inv.worker.frame le_rfl fun e _ => sameRecord_update same e.timer
  · intro v late
    rw [issued] at late
    exact .inl ⟨by omega, late⟩

/-- `cancel` returns. -/
theorem cancel {u : Nat} (inv : TimerInv s) (returned : (s.timers u).call = .returned) :
    TimerInv (s.setTimer u { s.timers u with
      cancelled := true
      passedAtCancel :=
        if (s.timers u).cancelled then (s.timers u).passedAtCancel else s.worker.passed u }) := by
  have ok := inv.timer u
  refine inv.annotate (by rw [returned]; simp) ?_ rfl rfl rfl rfl rfl
    (fun _ _ => .refl _ _) ?_ inv.worker
  · exact ⟨rfl, rfl, rfl, rfl, rfl⟩
  exact
    { positive := ok.positive
      spaced := ok.spaced.congr ⟨rfl, rfl, rfl, rfl, rfl⟩
      one_place := ok.one_place
      unused := ok.unused
      uncancelled := fun never => by cases never
      cancelled := by
        intro _
        cases was : (s.timers u).cancelled with
        | true => exact ok.cancelled was
        | false =>
            have none := ok.uncancelled was
            have one : (s.worker.passed u).toNat ≤ 1 := Bool.toNat_le _
            show (s.timers u).offersSinceCancel + (s.worker.passed u).toNat ≤ 1
            omega
      cancelled_early := by
        intro _ early
        cases was : (s.timers u).cancelled with
        | true =>
            simp only [was, if_true] at early
            exact ok.cancelled_early was early
        | false =>
            simp only [was, Bool.false_eq_true, if_false] at early
            exact ⟨ok.uncancelled was, early⟩
      gone_once := ok.gone_once
      ending := ok.ending }

/-- A step of `schedule`. -/
theorem schedule {u : Nat} (inv : TimerInv s) (move : ScheduleMove s u t) : TimerInv t := by
  have worker := inv.worker
  cases move with
  | shared call =>
      refine inv.setCall (by rw [call]; simp) (by rw [call]; rfl) rfl rfl rfl rfl rfl ?_ ?_
      · intro v
        cases there : s.worker <;> first | exact .refl _ _ | exact .of_none rfl
      · cases there : s.worker <;> rw [there] at worker <;> exact worker
  | fetchSeq call | refused call | lock call =>
      exact inv.setCall (by rw [call]; simp) (by rw [call]; rfl) rfl rfl rfl rfl rfl
        (fun _ => .refl _ _) worker
  | push call => exact inv.push call rfl rfl rfl rfl rfl rfl
  | notify call =>
      refine inv.setCall (by rw [call]; simp) (by rw [call]; rfl) rfl rfl rfl rfl rfl ?_ ?_
      · intro v
        cases there : s.worker <;> first | exact .refl _ _ | exact .of_none rfl
      · cases there : s.worker <;> rw [there] at worker <;> exact worker

/-! ### The worker -/

/-- The entry in the worker's hands keeps its timer registered. -/
theorem known_of_entry {e : Entry} (inv : TimerInv s) (there : s.worker.entry = some e) :
    (s.timers e.timer).call ≠ .unregistered := by
  intro unregistered
  have place := (inv.timer e.timer).one_place
  rw [unregistered, WorkerPc.held_of_entry there] at place
  simp [SchedulePc.unpushed] at place

/-- The worker pops the earliest entry, which is due. -/
theorem pop {now : Nat} {top : Entry} (inv : TimerInv s) (stands : s.worker = .peek now)
    (found : earliest s.heap = some top) (due : top.deadline ≤ now) :
    TimerInv { s with heap := s.heap.erase top, worker := .check now top } := by
  obtain ⟨member, _⟩ := earliest_spec found
  have time : now ≤ s.clock := by
    have := inv.worker
    rw [stands] at this
    exact this
  have erased : ∀ u, inHeap u (s.heap.erase top) ≤ inHeap u s.heap := fun u =>
    (List.erase_sublist ..).countP_le
  have own : inHeap top.timer (s.heap.erase top) + 1 = inHeap top.timer s.heap := by
    have perm := (List.perm_cons_erase member).countP_eq (fun e : Entry => decide (e.timer = top.timer))
    rw [List.countP_cons_of_pos (by simp)] at perm
    exact perm.symm
  have idle : ∀ u, s.worker.held u = 0 := by
    intro u
    rw [stands]
    rfl
  refine ⟨?_, ?_, ⟨time, due, inv.heap top member⟩, inv.unissued⟩
  · intro u
    have ok := inv.timer u
    by_cases here : top.timer = u
    · subst here
      have place := ok.one_place
      have idle := idle top.timer
      have held : (WorkerPc.check now top).held top.timer = 1 := WorkerPc.held_of_entry rfl
      exact { ok with
        one_place := show inHeap top.timer (s.heap.erase top) +
            (WorkerPc.check now top).held top.timer + (s.timers top.timer).call.unpushed ≤ 1 by
          omega
        cancelled := by
          have := ok.cancelled
          rw [stands] at this
          exact this
        cancelled_early := by
          have := ok.cancelled_early
          rw [stands] at this
          exact this
        ending := by
          intro fired
          have := (ok.ending fired).2.1
          omega }
    · exact ok.frame le_rfl (erased u) (fun _ dropped => dropped)
        (.of_elsewhere fun e there => by cases there; exact here)
  · intro e there
    exact inv.heap e (List.mem_of_mem_erase there)

/-- The entry's turn has come and it is not cancelled: `fire` begins. -/
theorem beginFire {now : Nat} {e : Entry} (inv : TimerInv s) (stands : s.worker = .check now e)
    (active : (s.timers e.timer).cancelled = false) :
    TimerInv { s.beginFire e.timer with locked := false, worker := .fire now e } := by
  have there : s.worker.entry = some e := by rw [stands]; rfl
  have ok := inv.timer e.timer
  have place := ok.one_place
  have held := WorkerPc.held_of_entry there
  have held' : (WorkerPc.fire now e).held e.timer = 1 := WorkerPc.held_of_entry rfl
  have below := inv.lt_issued (inv.known_of_entry there)
  obtain ⟨time, due, ready⟩ : now ≤ s.clock ∧ e.deadline ≤ now ∧
      Ready (s.timers e.timer) e.deadline := by
    have := inv.worker
    rw [stands] at this
    exact this
  have late : e.deadline ≤ s.clock := due.trans time
  have first : (s.timers e.timer).beganSinceGone = 0 := by
    by_contra fired
    have := (ok.ending (by omega)).2.2.2
    rw [stands] at this
    exact this rfl
  have empty : inHeap e.timer s.heap = 0 := by omega
  refine inv.changeTimer (u := e.timer) rfl rfl rfl (fun _ _ => le_rfl)
    (fun v apart => .of_elsewhere fun e' there' => by cases there'; exact apart.symm) ?_
    (fun _ member _ => member) ?_ ?_ (fun v late => .inl ⟨(below.trans_le late).ne', late⟩)
  · exact
      { positive := ok.positive
        spaced :=
          { registered := ok.spaced.registered
            began := by
              intro o member
              rcases List.mem_append.1 member with member | member
              · exact ok.spaced.began o member
              · obtain rfl := List.mem_singleton.1 member
                exact ⟨ready.due.trans late, le_rfl⟩
            offers := ok.spaced.offers
            began_apart := by
              refine List.pairwise_append.2 ⟨ok.spaced.began_apart, List.pairwise_singleton _ _, ?_⟩
              intro o member o' last
              obtain rfl := List.mem_singleton.1 last
              exact (ready.began o member).trans late
            offers_apart := ok.spaced.offers_apart
            once := by
              intro after
              obtain ⟨began, offers⟩ := ready.unfired after
              refine ⟨?_, (ok.spaced.once after).2⟩
              show ((s.timers e.timer).began ++ [s.clock]).length ≤ 1
              rw [began]
              exact le_rfl }
        one_place := show inHeap e.timer s.heap + (WorkerPc.fire now e).held e.timer +
            (s.timers e.timer).call.unpushed ≤ 1 by omega
        unused := fun one => by
          have : (s.timers e.timer).call.unpushed = 1 := one
          omega
        uncancelled := ok.uncancelled
        cancelled := fun was => by
          have : (s.timers e.timer).cancelled = true := was
          rw [active] at this
          cases this
        cancelled_early := fun was => by
          have : (s.timers e.timer).cancelled = true := was
          rw [active] at this
          cases this
        gone_once := by
          show (s.timers e.timer).beganSinceGone + (s.gone (s.timers e.timer).target).toNat ≤ 1
          have := Bool.toNat_le (s.gone (s.timers e.timer).target)
          omega
        ending := by
          intro fired
          have fired' : 1 ≤ (s.timers e.timer).beganSinceGone +
            (s.gone (s.timers e.timer).target).toNat := fired
          refine ⟨?_, empty, ?_, trivial⟩
          · show s.gone (s.timers e.timer).target = true
            cases gone : s.gone (s.timers e.timer).target with
            | true => rfl
            | false =>
                rw [gone, first] at fired'
                cases fired'
          · show (s.timers e.timer).call.unpushed = 0
            omega }
  · intro e' member own
    have := List.countP_eq_zero.1 empty e' member
    simp [own] at this
  · show now ≤ s.clock ∧ _
    have same : (s.beginFire e.timer).timers e.timer = { s.timers e.timer with
        began := (s.timers e.timer).began ++ [s.clock]
        beganSinceGone := (s.timers e.timer).beganSinceGone +
          (s.gone (s.timers e.timer).target).toNat } := Function.update_self _ _ _
    rw [same]
    exact ⟨time, ready.due.trans late, fun o member => (ready.offers o member).trans late,
      fun after => (ready.unfired after).2⟩

/-- The message is there and `try_send` begins. -/
theorem beginOffer {now : Nat} {e : Entry} (inv : TimerInv s) (stands : s.worker = .offer now e) :
    TimerInv { s.beginOffer e.timer with
      worker := .offering now e (s.gone (s.timers e.timer).target) } := by
  have there : s.worker.entry = some e := by rw [stands]; rfl
  have ok := inv.timer e.timer
  have place := ok.one_place
  have held := WorkerPc.held_of_entry there
  have held' : (WorkerPc.offering now e (s.gone (s.timers e.timer).target)).held e.timer = 1 :=
    WorkerPc.held_of_entry rfl
  have passed : s.worker.passed e.timer = true := by rw [stands]; simp [WorkerPc.passed]
  have below := inv.lt_issued (inv.known_of_entry there)
  obtain ⟨time, due, apart, unoffered⟩ : now ≤ s.clock ∧
      (s.timers e.timer).registered + (s.timers e.timer).delay ≤ s.clock ∧
      (∀ o ∈ (s.timers e.timer).offers, o + (s.timers e.timer).delay ≤ s.clock) ∧
      ((s.timers e.timer).kind = .after → (s.timers e.timer).offers = []) := by
    have := inv.worker
    rw [stands] at this
    exact this
  have empty : inHeap e.timer s.heap = 0 := by omega
  refine inv.changeTimer (u := e.timer) rfl rfl rfl (fun _ _ => le_rfl)
    (fun v apart => .of_elsewhere fun e' there' => by cases there'; exact apart.symm) ?_
    (fun _ member _ => member) ?_ time (fun v late => .inl ⟨(below.trans_le late).ne', late⟩)
  · exact
      { positive := ok.positive
        spaced :=
          { registered := ok.spaced.registered
            began := ok.spaced.began
            offers := by
              intro o member
              rcases List.mem_append.1 member with member | member
              · exact ok.spaced.offers o member
              · obtain rfl := List.mem_singleton.1 member
                exact ⟨due, le_rfl⟩
            began_apart := ok.spaced.began_apart
            offers_apart := by
              refine List.pairwise_append.2 ⟨ok.spaced.offers_apart, List.pairwise_singleton _ _, ?_⟩
              intro o member o' last
              obtain rfl := List.mem_singleton.1 last
              exact apart o member
            once := by
              intro after
              refine ⟨(ok.spaced.once after).1, ?_⟩
              show ((s.timers e.timer).offers ++ [s.clock]).length ≤ 1
              rw [unoffered after]
              exact le_rfl }
        one_place := show inHeap e.timer s.heap +
            (WorkerPc.offering now e (s.gone (s.timers e.timer).target)).held e.timer +
            (s.timers e.timer).call.unpushed ≤ 1 by omega
        unused := fun one => by
          have : (s.timers e.timer).call.unpushed = 1 := one
          omega
        uncancelled := by
          intro active
          have active' : (s.timers e.timer).cancelled = false := active
          show (s.timers e.timer).offersSinceCancel + (s.timers e.timer).cancelled.toNat = 0
          rw [active', ok.uncancelled active']
          rfl
        cancelled := by
          intro was
          have was' : (s.timers e.timer).cancelled = true := was
          have before := ok.cancelled was'
          rw [passed] at before
          show (s.timers e.timer).offersSinceCancel + (s.timers e.timer).cancelled.toNat + 0 ≤ 1
          rw [was']
          exact before
        cancelled_early := by
          intro was early
          have := (ok.cancelled_early was early).2
          rw [passed] at this
          cases this
        gone_once := ok.gone_once
        ending := by
          intro fired
          obtain ⟨gone, empty, pushed, _⟩ := ok.ending fired
          exact ⟨gone, empty, pushed, fun _ => gone⟩ }
  · intro e' member own
    have := List.countP_eq_zero.1 empty e' member
    simp [own] at this

/-- Only a periodic timer whose target is there gets another deadline. -/
theorem nextDeadline_eq_some {u d : Nat} {answer : SendAnswer}
    (next : s.nextDeadline u answer = some d) :
    (s.timers u).kind = .every ∧ answer ≠ .closed ∧ d = s.clock + (s.timers u).delay := by
  unfold Timers.nextDeadline at next
  cases kind : (s.timers u).kind <;> cases answer <;> simp_all

/-- `fire` returns, with a deadline an interval from now for a periodic timer whose target is there. -/
theorem fired {now : Nat} {e : Entry} {answer : SendAnswer} (inv : TimerInv s)
    (stands : s.worker = .offered now e answer) :
    TimerInv { s.setTimer e.timer { s.timers e.timer with
        stopped := (s.timers e.timer).stopped || (s.nextDeadline e.timer answer).isNone } with
      worker := .relock now e (s.nextDeadline e.timer answer) } := by
  have there : s.worker.entry = some e := by rw [stands]; rfl
  have time : now ≤ s.clock := by
    have := inv.worker
    rw [stands] at this
    exact this
  have ok := inv.timer e.timer
  have closed : answer = .closed → s.nextDeadline e.timer answer = none := by
    intro gone
    rw [Option.eq_none_iff_forall_ne_some]
    exact fun d next => (nextDeadline_eq_some next).2.1 gone
  have quieter : Quieter e.timer s.worker (.relock now e (s.nextDeadline e.timer answer)) := by
    rw [stands]
    refine ⟨le_rfl, fun passed => ?_, fun ending own => closed (ending own)⟩
    cases passed
  have moved := ok.frame le_rfl le_rfl (fun _ dropped => dropped) quieter
  refine inv.annotate (inv.known_of_entry there) ?_ rfl rfl rfl rfl rfl
    (fun v apart => .of_elsewhere fun e' there' => by cases there'; exact apart.symm) ?_ ?_
  · exact ⟨rfl, rfl, rfl, rfl, rfl⟩
  · exact
      { positive := moved.positive
        spaced := moved.spaced.congr ⟨rfl, rfl, rfl, rfl, rfl⟩
        one_place := moved.one_place
        unused := moved.unused
        uncancelled := moved.uncancelled
        cancelled := moved.cancelled
        cancelled_early := moved.cancelled_early
        gone_once := moved.gone_once
        ending := moved.ending }
  · refine ⟨time, fun d next => ?_⟩
    obtain ⟨every, _, rfl⟩ := nextDeadline_eq_some next
    have positive := ok.positive every
    refine ⟨by omega, ?_, ?_, ?_, fun after => ?_⟩
    · exact Nat.add_le_add_right ok.spaced.registered _
    · exact fun o member => Nat.add_le_add_right (ok.spaced.began o member).2 _
    · exact fun o member => Nat.add_le_add_right (ok.spaced.offers o member).2 _
    · rw [every] at after
      cases after

/-- A periodic entry goes back into the heap. -/
theorem pushAgain {now deadline : Nat} {e : Entry} (inv : TimerInv s)
    (stands : s.worker = .recheck now e (some deadline)) :
    TimerInv { s with heap := { e with deadline := deadline } :: s.heap, worker := .peek now } := by
  have there : s.worker.entry = some e := by rw [stands]; rfl
  have held := WorkerPc.held_of_entry there
  obtain ⟨time, ready⟩ : now ≤ s.clock ∧ ∀ d, some deadline = some d → now < d ∧
      Ready (s.timers e.timer) d := by
    have := inv.worker
    rw [stands] at this
    exact this
  refine ⟨?_, ?_, time, inv.unissued⟩
  · intro u
    have ok := inv.timer u
    have quieter : Quieter u s.worker (.peek now) := .of_none rfl
    by_cases here : e.timer = u
    · subst here
      have place := ok.one_place
      have more : inHeap e.timer ({ e with deadline := deadline } :: s.heap) =
          inHeap e.timer s.heap + 1 := List.countP_cons_of_pos (by simp)
      have moved := ok.frame le_rfl le_rfl (fun _ dropped => dropped) quieter
      exact { moved with
        one_place := show inHeap e.timer ({ e with deadline := deadline } :: s.heap) + 0 +
            (s.timers e.timer).call.unpushed ≤ 1 by omega
        ending := by
          intro fired
          have stops := (ok.ending fired).2.2.2
          rw [stands] at stops
          cases stops rfl }
    · have same : inHeap u ({ e with deadline := deadline } :: s.heap) = inHeap u s.heap :=
        List.countP_cons_of_neg (by simpa using here)
      exact ok.frame le_rfl same.le (fun _ dropped => dropped) quieter
  · intro e' member
    rcases List.mem_cons.1 member with rfl | member
    · exact (ready deadline rfl).2
    · exact inv.heap e' member

/-- A step of `run` keeps the entry it has in its hands, unless it lets it go. -/
theorem sameEntry {pc : WorkerPc} {e : Entry} {locked poisoned : Bool} (inv : TimerInv s)
    (there : pc.entry = some e) (own : Quieter e.timer s.worker pc)
    (worker : pc.Ok s.clock s.timers) :
    TimerInv { s with locked := locked, poisoned := poisoned, worker := pc } := by
  refine inv.moveWorker (fun u => ?_) worker
  by_cases here : e.timer = u
  · exact here ▸ own
  · refine .of_elsewhere fun e' there' => ?_
    rw [there] at there'
    cases there'
    exact here

/-- The worker's steps. -/
theorem workerStep (inv : TimerInv s) (move : WorkerMove s t) : TimerInv t := by
  have locals := inv.worker
  cases move with
  | lock | sleep | park | rest => exact inv.moveWorker (fun _ => .of_none rfl) trivial
  | top => exact inv.moveWorker (fun _ => .of_none rfl) le_rfl
  | pop stands found due => exact inv.pop stands found due
  | skip stands | letGo stands =>
      rw [stands] at locals
      exact inv.moveWorker (fun _ => .of_none rfl) locals.1
  | fire stands active => exact inv.beginFire stands active
  | offer stands => exact inv.beginOffer stands
  | fired stands => exact inv.fired stands
  | relock stands =>
      rw [stands] at locals
      refine inv.sameEntry rfl ?_ locals
      rw [stands]
      exact ⟨le_rfl, fun passed => (by cases passed), id⟩
  | pushAgain stands => exact inv.pushAgain stands

/-- Every action of anybody keeps the invariant. -/
theorem step {a : TimerAct} (inv : TimerInv s) (moved : s.step a = some t) : TimerInv t := by
  have locals := inv.worker
  cases move_of_step moved with
  | tick =>
      exact inv.quiet rfl rfl (Nat.le_add_right _ _) (fun _ member => member) (fun _ => le_rfl)
        (fun _ dropped => dropped) (fun _ => .refl _ _)
        (locals.frame (Nat.le_add_right _ _) fun _ _ => .refl _)
  | sendAfter => exact inv.register fun every => by cases every
  | sendEvery positive => exact inv.register fun _ => positive
  | schedule move => exact inv.schedule move
  | cancel returned => exact inv.cancel returned
  | dropReceiver =>
      exact inv.quiet rfl rfl le_rfl (fun _ member => member) (fun _ => le_rfl)
        (fun _ dropped => dropped_update _ dropped) (fun _ => .refl _ _) locals
  | worker move => exact inv.workerStep move
  | made stands =>
      rw [stands] at locals
      refine inv.sameEntry rfl ?_ locals
      rw [stands]
      exact ⟨le_rfl, fun passed => passed, fun _ => trivial⟩
  | missing stands =>
      rw [stands] at locals
      refine inv.sameEntry rfl ?_ ⟨locals.1, fun d next => by cases next⟩
      rw [stands]
      exact ⟨le_rfl, fun passed => (by cases passed), fun _ _ => rfl⟩
  | offerReturns stands refused =>
      rw [stands] at locals
      refine inv.sameEntry rfl ?_ locals
      rw [stands]
      exact ⟨le_rfl, fun passed => (by cases passed), fun ending own => refused (ending own)⟩
  | makePanics | wake | messagePanics | entryPanics =>
      exact inv.moveWorker (fun _ => .of_none rfl) trivial

theorem of_run (run : Reach Timers.step Free .start s) : TimerInv s :=
  run.invariant start fun _ _ _ inv _ moved => inv.step moved

end TimerInv

/-! ### When timers fire -/

/-- What timer `t` has done so far. -/
structure TimerSafe (s : Timers) (t : Nat) : Prop where
  after_once : (s.timers t).kind = .after → (s.timers t).offers.length ≤ 1
  not_early : ∀ o ∈ (s.timers t).offers, (s.timers t).registered + (s.timers t).delay ≤ o
  began_not_early : ∀ o ∈ (s.timers t).began, (s.timers t).registered + (s.timers t).delay ≤ o
  apart : (s.timers t).kind = .every → (s.timers t).offers.Pairwise (· + (s.timers t).delay ≤ ·) ∧
    (s.timers t).began.Pairwise (· + (s.timers t).delay ≤ ·)
  cancelled : (s.timers t).cancelled = true → (s.timers t).offersSinceCancel ≤ 1 ∧
    ((s.timers t).passedAtCancel = false → (s.timers t).offersSinceCancel = 0)
  target_gone : (s.timers t).kind = .every → (s.timers t).beganSinceGone ≤ 1 ∧
    (1 ≤ (s.timers t).beganSinceGone → ∀ e ∈ s.heap, e.timer ≠ t)

/-- In every run every timer fires late enough, far enough apart, at most once more after it was
    cancelled and at most once more after its target went away. -/
theorem timerSafe_of_run {s : Timers} (run : Reach Timers.step Free .start s) (t : Nat) :
    TimerSafe s t := by
  have ok := (TimerInv.of_run run).timer t
  refine ⟨fun after => (ok.spaced.once after).2, fun o member => (ok.spaced.offers o member).1,
    fun o member => (ok.spaced.began o member).1,
    fun _ => ⟨ok.spaced.offers_apart, ok.spaced.began_apart⟩, ?_, ?_⟩
  · intro was
    exact ⟨(Nat.le_add_right _ _).trans (ok.cancelled was),
      fun early => (ok.cancelled_early was early).1⟩
  · intro _
    refine ⟨ok.gone_once, fun began e member here => ?_⟩
    have empty := (ok.ending began).2.1
    have := List.countP_eq_zero.1 empty e member
    simp [here] at this

/-- A periodic timer: it is registered, fires, goes back into the heap, is popped again, and is cancelled
    while its second message is being made; that one is still sent, and it is the last. -/
def cancelledLate : List TimerAct :=
  [.sendEvery 0 5, .schedule 0, .schedule 0, .schedule 0, .schedule 0, .schedule 0, .tick 5,
    .worker, .worker, .worker, .worker, .made, .worker, .offerReturns .accepted, .worker, .worker,
    .worker, .tick 7, .worker, .worker, .worker, .wake, .worker, .worker, .worker, .worker,
    .cancel 0, .made, .worker, .offerReturns .full, .worker, .worker, .worker, .tick 9, .worker,
    .worker, .worker, .wake, .worker, .worker]

theorem timerSafe_of_cancelledLate :
    ∃ s, exec Timers.step .start cancelledLate = some s ∧ (s.timers 0).offers = [5, 12] ∧
      (s.timers 0).offersSinceCancel = 1 ∧ s.heap = [] ∧ TimerSafe s 0 := by
  obtain ⟨s, executed, offers, since, heap⟩ : ∃ s, exec Timers.step .start cancelledLate = some s ∧
      (s.timers 0).offers = [5, 12] ∧ (s.timers 0).offersSinceCancel = 1 ∧ s.heap = [] :=
    ⟨_, rfl, rfl, rfl, rfl⟩
  exact ⟨s, executed, offers, since, heap, timerSafe_of_run (reach_of_exec executed) 0⟩

end AetherFlow.Timer
