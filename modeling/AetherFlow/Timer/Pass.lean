/-
Module: AetherFlow.Timer.Pass
Purpose: One pass of `run` over the heap. The inner loop is watched from the time it takes `now` to the
  time it finds nothing more due: what leaves the heap and what comes back to it, which flags it finds
  and what it fires. Nobody registers a timer in the meantime; the clock goes on, handles cancel and
  targets go away as they like.
Trusted boundary: none
Main exports: Pass, Pass.step, PassStart, PassLaw, passLaw_of_exec
-/
import Mathlib.Data.List.Perm.Subperm
import AetherFlow.Timer.Survival

namespace AetherFlow.Timer

open Mpsc (SendAnswer)
open Transition

/-! ### The pass and what is seen of it -/

/-- The worker is in the inner loop, in the pass that read the clock at `now`. -/
def WorkerPc.inLoop (now : Nat) : WorkerPc → Bool
  | .peek n | .check n _ | .fire n _ | .offer n _ | .offering n _ _ | .offered n _ _ | .relock n _ _
  | .recheck n _ _ => n == now
  | _ => false

/-- The steps of `run`, those included that user code or the mailbox decides. -/
def TimerAct.ofWorker : TimerAct → Bool
  | .worker | .made | .offerReturns _ => true
  | _ => false

/-- Nobody registers, and nothing panics. -/
def TimerAct.duringPass : TimerAct → Bool
  | .tick _ | .cancel _ | .dropReceiver _ | .worker | .made | .offerReturns _ => true
  | _ => false

/-- A fire that is over: the deadline it returned and the flag the worker then found. -/
structure Finish where
  entry : Entry
  next : Option Nat
  cancelled : Bool

/-- The entry of a timer that is still active, with its new deadline. -/
def Finish.again (finish : Finish) : Option Entry :=
  match finish.next, finish.cancelled with
  | some deadline, false => some { finish.entry with deadline := deadline }
  | _, _ => none

/-- A pass: the timers, and what was seen of the worker so far. -/
structure Pass where
  timers : Timers
  /-- What has left the heap, in order. -/
  popped : List Entry
  /-- What was checked, with the flag that was found. -/
  checked : List (Entry × Bool)
  fired : List Entry
  finished : List Finish
  /-- What has come into the heap. -/
  pushed : List Entry

namespace Pass

def start (s : Timers) : Pass where
  timers := s
  popped := []
  checked := []
  fired := []
  finished := []
  pushed := []

/-- The check that ends when the worker of `s` goes on to `after`. -/
def checks (s : Timers) (after : WorkerPc) : List (Entry × Bool) :=
  match s.worker, after with
  | .check _ _, .check _ _ => []
  | .check _ e, _ => [(e, (s.timers e.timer).cancelled)]
  | _, _ => []

def fires : WorkerPc → WorkerPc → List Entry
  | .check _ e, .fire _ _ => [e]
  | _, _ => []

def finishes (s : Timers) (after : WorkerPc) : List Finish :=
  match s.worker, after with
  | .recheck _ _ _, .recheck _ _ _ => []
  | .recheck _ e next, _ => [⟨e, next, (s.timers e.timer).cancelled⟩]
  | _, _ => []

/-- The pass after a step to `t`. -/
def after (p : Pass) (t : Timers) : Pass where
  timers := t
  popped := p.popped ++ p.timers.heap.diff t.heap
  checked := p.checked ++ checks p.timers t.worker
  fired := p.fired ++ fires p.timers.worker t.worker
  finished := p.finished ++ finishes p.timers t.worker
  pushed := p.pushed ++ t.heap.diff p.timers.heap

/-- An action of anybody while the loop runs. -/
def step (now : Nat) (p : Pass) (a : TimerAct) : Option Pass :=
  if p.timers.worker.inLoop now then (p.timers.step a).map p.after else none

end Pass

/-- The inner loop begins: the heap is any heap. The clock does not go back, and `send_every` has refused
    the interval zero. -/
structure PassStart (now : Nat) (s : Timers) : Prop where
  worker : s.worker = .peek now
  time : now ≤ s.clock
  positive : ∀ u, (s.timers u).kind = .every → 0 < (s.timers u).delay

/-- Every pass of every run begins so. -/
theorem passStart_of_run {s : Timers} {now : Nat} (run : Reach Timers.step Free .start s)
    (worker : s.worker = .peek now) : PassStart now s := by
  have inv := TimerInv.of_run run
  have time := inv.worker
  rw [worker] at time
  exact ⟨worker, time, fun u => (inv.timer u).positive⟩

/-- A pass is a piece of a run. -/
theorem reach_of_pass {now : Nat} {labels : List TimerAct} {p p' : Pass}
    (executed : exec (Pass.step now) p labels = some p') :
    Reach Timers.step Free p.timers p'.timers := by
  refine (reach_of_exec executed).project Pass.timers fun q a r _ stepped => ?_
  obtain ⟨_, stepped⟩ := Option.ite_none_right_eq_some.1 stepped
  obtain ⟨t, moved, rfl⟩ := Option.map_eq_some_iff.1 stepped
  exact .single trivial moved

/-! ### What leaves the heap and what comes in -/

theorem append_diff_left {α : Type*} [DecidableEq α] (x y : List α) : (x ++ y).diff x = y := by
  induction x with
  | nil => rfl
  | cons a x inductionHypothesis =>
      rw [List.cons_append, List.diff_cons, List.erase_cons_head]
      exact inductionHypothesis

theorem diff_eq_singleton {α : Type*} [DecidableEq α] {l x : List α} {a : α} (perm : l.Perm (a :: x)) :
    l.diff x = [a] := by
  have same := (perm.trans (List.perm_append_singleton a x).symm).diff_right x
  rw [append_diff_left] at same
  exact List.perm_singleton.1 same

theorem diff_eq_nil {α : Type*} [DecidableEq α] {l x : List α} (part : l.Sublist x) : l.diff x = [] := by
  have none : (l.diff x).Sublist (x.diff x) := part.diff_right
  have self := append_diff_left x []
  rw [List.append_nil] at self
  rw [self] at none
  exact List.sublist_nil.1 none

/-! ### The invariant of the loop -/

/-- What `send_after` or `send_every` has fixed of the timers. -/
def SameTimers (timers timers' : Nat → TimerInfo) : Prop :=
  ∀ u, (timers' u).kind = (timers u).kind ∧ (timers' u).delay = (timers u).delay ∧
    (timers' u).target = (timers u).target

/-- What a fire may return in the pass of `now`: a deadline beyond `now` for a periodic timer, none for a
    one-shot or a timer whose target is gone. -/
structure Ends (timers : Nat → TimerInfo) (gone : Nat → Bool) (now : Nat) (e : Entry)
    (next : Option Nat) : Prop where
  again : ∀ d, next = some d → now < d ∧ (timers e.timer).kind = .every
  stops : next = none → (timers e.timer).kind = .after ∨ gone (timers e.timer).target = true

/-- What the worker knows where it stands in the pass of `now`. -/
def WorkerPc.Standing (s : Timers) (now : Nat) : WorkerPc → Prop
  | .peek n | .check n _ => n = now
  | .fire n _ | .offer n _ => n = now ∧ s.locked = false
  | .offering n e gone =>
      n = now ∧ s.locked = false ∧ (gone = true → s.gone (s.timers e.timer).target = true)
  | .offered n e answer =>
      n = now ∧ s.locked = false ∧ (answer = .closed → s.gone (s.timers e.timer).target = true)
  | .relock n e next => n = now ∧ s.locked = false ∧ Ends s.timers s.gone now e next
  | .recheck n e next => n = now ∧ Ends s.timers s.gone now e next
  | .sleep => True
  | _ => False

/-- The popped entry whose flag is still to be checked. -/
def WorkerPc.unchecked : WorkerPc → List Entry
  | .check _ e => [e]
  | _ => []

/-- The entry whose fire is not over. -/
def WorkerPc.firing : WorkerPc → List Entry
  | .fire _ e | .offer _ e | .offering _ e _ | .offered _ e _ | .relock _ e _ | .recheck _ e _ => [e]
  | _ => []

structure PassInv (now : Nat) (s : Timers) (p : Pass) : Prop where
  worker : p.timers.worker.Standing p.timers now
  rested : p.timers.worker = .sleep → ∀ e ∈ p.timers.heap, now < e.deadline
  time : now ≤ p.timers.clock
  positive : ∀ u, (p.timers.timers u).kind = .every → 0 < (p.timers.timers u).delay
  same : SameTimers s.timers p.timers.timers
  conserved : (p.popped ++ p.timers.heap).Perm (s.heap ++ p.pushed)
  due : ∀ e ∈ p.popped, e.deadline ≤ now
  ended : ∀ finish ∈ p.finished, Ends p.timers.timers p.timers.gone now finish.entry finish.next
  sorted : p.popped.Pairwise fun e f => e.first f = true
  ahead : ∀ e ∈ p.popped, ∀ f ∈ p.timers.heap, e.first f = true
  checked : p.popped = p.checked.map Prod.fst ++ p.timers.worker.unchecked
  fired : p.fired = (p.checked.filter fun check => !check.2).map Prod.fst
  finished : p.fired = p.finished.map Finish.entry ++ p.timers.worker.firing
  pushed : p.pushed = p.finished.filterMap Finish.again

theorem PassInv.start {now : Nat} {s : Timers} (starts : PassStart now s) :
    PassInv now s (.start s) where
  worker := by
    rw [Pass.start, starts.worker]
    rfl
  rested stands := by
    rw [Pass.start, starts.worker] at stands
    cases stands
  time := starts.time
  positive := starts.positive
  same u := ⟨rfl, rfl, rfl⟩
  conserved := by simp [Pass.start]
  due e member := by cases member
  ended finish member := by cases member
  sorted := .nil
  ahead e member := by cases member
  checked := by simp [Pass.start, starts.worker, WorkerPc.unchecked]
  fired := rfl
  finished := by simp [Pass.start, starts.worker, WorkerPc.firing]
  pushed := rfl

namespace SameTimers

theorem refl (timers : Nat → TimerInfo) : SameTimers timers timers := fun _ => ⟨rfl, rfl, rfl⟩

theorem trans {timers timers' timers'' : Nat → TimerInfo} (one : SameTimers timers timers')
    (two : SameTimers timers' timers'') : SameTimers timers timers'' := fun u =>
  ⟨(two u).1.trans (one u).1, (two u).2.1.trans (one u).2.1, (two u).2.2.trans (one u).2.2⟩

theorem update {timers : Nat → TimerInfo} {u : Nat} {info : TimerInfo}
    (kind : info.kind = (timers u).kind) (delay : info.delay = (timers u).delay)
    (target : info.target = (timers u).target) :
    SameTimers timers (Function.update timers u info) :=
  update_rel (R := fun info info' => info'.kind = info.kind ∧ info'.delay = info.delay ∧
    info'.target = info.target) (fun _ => ⟨rfl, rfl, rfl⟩) ⟨kind, delay, target⟩

end SameTimers

/-- What a fire has returned depends on what cannot change while nobody registers. -/
theorem Ends.frame {timers timers' : Nat → TimerInfo} {gone gone' : Nat → Bool} {now : Nat} {e : Entry}
    {next : Option Nat} (ends : Ends timers gone now e next) (same : SameTimers timers timers')
    (more : ∀ target, gone target = true → gone' target = true) :
    Ends timers' gone' now e next where
  again d some_ := by
    rw [(same e.timer).1]
    exact ends.again d some_
  stops none_ := by
    rw [(same e.timer).1, (same e.timer).2.2]
    exact (ends.stops none_).imp_right (more _)

/-- And so does where the worker stands. -/
theorem WorkerPc.Standing.frame {s t : Timers} {now : Nat} {pc : WorkerPc} (stands : pc.Standing s now)
    (locked : t.locked = s.locked) (same : SameTimers s.timers t.timers)
    (gone : ∀ target, s.gone target = true → t.gone target = true) : pc.Standing t now := by
  cases pc with
  | fire | offer => exact ⟨stands.1, locked.trans stands.2⟩
  | offering n e | offered n e =>
      refine ⟨stands.1, locked.trans stands.2.1, fun was => ?_⟩
      rw [(same e.timer).2.2]
      exact gone _ (stands.2.2 was)
  | relock => exact ⟨stands.1, locked.trans stands.2.1, stands.2.2.frame same gone⟩
  | recheck => exact ⟨stands.1, stands.2.frame same gone⟩
  | peek | check | sleep => exact stands
  | _ => exact stands.elim

namespace PassInv

variable {now : Nat} {s t : Timers} {p : Pass}

/-- A step that touches neither the heap nor the entry the worker holds. -/
theorem quiet (inv : PassInv now s p) (heap : t.heap = p.timers.heap)
    (clock : p.timers.clock ≤ t.clock) (same : SameTimers p.timers.timers t.timers)
    (gone : ∀ target, p.timers.gone target = true → t.gone target = true)
    (worker : t.worker.Standing t now) (awake : t.worker ≠ .sleep)
    (unchecked : t.worker.unchecked = p.timers.worker.unchecked)
    (firing : t.worker.firing = p.timers.worker.firing)
    (checks : Pass.checks p.timers t.worker = []) (fires : Pass.fires p.timers.worker t.worker = [])
    (finishes : Pass.finishes p.timers t.worker = []) : PassInv now s (p.after t) := by
  have nothing : p.after t = { p with timers := t } := by
    simp [Pass.after, heap, checks, fires, finishes, diff_eq_nil (List.Sublist.refl p.timers.heap)]
  rw [nothing]
  exact
    { inv with
      worker := worker
      rested := fun stands => absurd stands awake
      time := inv.time.trans clock
      positive := fun u every => by
        rw [(same u).2.1]
        exact inv.positive u ((same u).1.symm.trans every)
      same := inv.same.trans same
      conserved := by
        rw [heap]
        exact inv.conserved
      ended := fun finish member => (inv.ended finish member).frame same gone
      ahead := by
        rw [heap]
        exact inv.ahead
      checked := inv.checked.trans (by rw [unchecked])
      finished := inv.finished.trans (by rw [firing]) }

/-- The first of the due entries leaves the heap. -/
theorem pop (inv : PassInv now s p) {top : Entry} (stands : p.timers.worker = .peek now)
    (found : earliest p.timers.heap = some top) (due : top.deadline ≤ now) :
    PassInv now s (p.after { p.timers with
      heap := p.timers.heap.erase top, worker := .check now top }) := by
  obtain ⟨member, before⟩ := earliest_spec found
  have perm := List.perm_cons_erase member
  have shape : p.after { p.timers with
      heap := p.timers.heap.erase top, worker := .check now top } =
      { p with
        timers := { p.timers with heap := p.timers.heap.erase top, worker := .check now top }
        popped := p.popped ++ [top] } := by
    simp [Pass.after, Pass.checks, Pass.fires, Pass.finishes, stands, diff_eq_singleton perm,
      diff_eq_nil List.erase_sublist]
  have checked : p.popped = p.checked.map Prod.fst := by
    rw [inv.checked, stands]
    exact List.append_nil _
  have finished := inv.finished
  rw [stands] at finished
  rw [shape]
  exact
    { inv with
      worker := rfl
      rested := fun never => by cases never
      conserved := by
        refine List.Perm.trans ?_ inv.conserved
        rw [List.append_assoc]
        exact perm.symm.append_left p.popped
      due := fun e there => by
        rcases List.mem_append.1 there with old | new
        · exact inv.due e old
        · rw [List.mem_singleton.1 new]
          exact due
      sorted := by
        refine List.pairwise_append.2 ⟨inv.sorted, List.pairwise_singleton _ _, ?_⟩
        intro e old f new
        rw [List.mem_singleton.1 new]
        exact inv.ahead e old top member
      ahead := fun e there f inside => by
        have inside := List.mem_of_mem_erase inside
        rcases List.mem_append.1 there with old | new
        · exact inv.ahead e old f inside
        · rw [List.mem_singleton.1 new]
          exact before f inside
      checked := congrArg (· ++ [top]) checked
      finished := finished }

/-- Nothing more is due. -/
theorem rest (inv : PassInv now s p) (stands : p.timers.worker = .peek now)
    (later : ∀ e ∈ p.timers.heap, now < e.deadline) :
    PassInv now s (p.after { p.timers with worker := .sleep }) := by
  have shape : p.after { p.timers with worker := .sleep } =
      { p with timers := { p.timers with worker := .sleep } } := by
    simp [Pass.after, Pass.checks, Pass.fires, Pass.finishes, stands,
      diff_eq_nil (List.Sublist.refl p.timers.heap)]
  have checked := inv.checked
  have finished := inv.finished
  rw [stands] at checked finished
  rw [shape]
  exact { inv with worker := trivial, rested := fun _ => later, checked := checked, finished := finished }

/-- A cancelled entry is let go. -/
theorem skip (inv : PassInv now s p) {e : Entry} (stands : p.timers.worker = .check now e)
    (cancelled : (p.timers.timers e.timer).cancelled = true) :
    PassInv now s (p.after { p.timers with worker := .peek now }) := by
  have shape : p.after { p.timers with worker := .peek now } =
      { p with
        timers := { p.timers with worker := .peek now }
        checked := p.checked ++ [(e, true)] } := by
    simp [Pass.after, Pass.checks, Pass.fires, Pass.finishes, stands, cancelled,
      diff_eq_nil (List.Sublist.refl p.timers.heap)]
  have checked : p.popped = (p.checked ++ [(e, true)]).map Prod.fst ++ [] := by
    rw [inv.checked, stands, List.map_append, List.append_nil]
    rfl
  have fired : p.fired = ((p.checked ++ [(e, true)]).filter fun check => !check.2).map Prod.fst := by
    rw [inv.fired, List.filter_append]
    simp
  have finished := inv.finished
  rw [stands] at finished
  rw [shape]
  exact
    { inv with
      worker := rfl
      rested := fun never => by cases never
      checked := checked
      fired := fired
      finished := finished }

/-- An active entry is fired. -/
theorem fire (inv : PassInv now s p) {e : Entry} (stands : p.timers.worker = .check now e)
    (active : (p.timers.timers e.timer).cancelled = false) :
    PassInv now s (p.after
      { p.timers.beginFire e.timer with locked := false, worker := .fire now e }) := by
  have shape : p.after { p.timers.beginFire e.timer with locked := false, worker := .fire now e } =
      { p with
        timers := { p.timers.beginFire e.timer with locked := false, worker := .fire now e }
        checked := p.checked ++ [(e, false)]
        fired := p.fired ++ [e] } := by
    simp [Pass.after, Pass.checks, Pass.fires, Pass.finishes, stands, active, Timers.beginFire,
      Timers.setTimer, diff_eq_nil (List.Sublist.refl p.timers.heap)]
  have same : SameTimers p.timers.timers (p.timers.beginFire e.timer).timers := .update rfl rfl rfl
  have checked : p.popped = (p.checked ++ [(e, false)]).map Prod.fst ++ [] := by
    rw [inv.checked, stands, List.map_append, List.append_nil]
    rfl
  have fired : p.fired ++ [e] =
      ((p.checked ++ [(e, false)]).filter fun check => !check.2).map Prod.fst := by
    rw [inv.fired, List.filter_append, List.map_append]
    rfl
  have finished : p.fired = p.finished.map Finish.entry := by
    rw [inv.finished, stands]
    exact List.append_nil _
  rw [shape]
  exact
    { inv with
      worker := ⟨rfl, rfl⟩
      rested := fun never => by cases never
      positive := fun u every => by
        rw [(same u).2.1]
        exact inv.positive u ((same u).1.symm.trans every)
      same := inv.same.trans same
      ended := fun finish member => (inv.ended finish member).frame same fun _ dropped => dropped
      checked := checked
      fired := fired
      finished := congrArg (· ++ [e]) finished }

/-- The fire is over, and the entry does not go back. -/
theorem letGo (inv : PassInv now s p) {e : Entry} {next : Option Nat}
    (stands : p.timers.worker = .recheck now e next)
    (ends : next = none ∨ (p.timers.timers e.timer).cancelled = true) :
    PassInv now s (p.after { p.timers with worker := .peek now }) := by
  have shape : p.after { p.timers with worker := .peek now } =
      { p with
        timers := { p.timers with worker := .peek now }
        finished := p.finished ++ [⟨e, next, (p.timers.timers e.timer).cancelled⟩] } := by
    simp [Pass.after, Pass.checks, Pass.fires, Pass.finishes, stands,
      diff_eq_nil (List.Sublist.refl p.timers.heap)]
  have gone : (Finish.mk e next (p.timers.timers e.timer).cancelled).again = none := by
    rcases ends with none_ | cancelled
    · rw [none_]
      rfl
    · rw [cancelled]
      cases next <;> rfl
  have checked := inv.checked
  rw [stands] at checked
  have finished : p.fired =
      (p.finished ++ [Finish.mk e next (p.timers.timers e.timer).cancelled]).map Finish.entry ++
        [] := by
    rw [inv.finished, stands, List.map_append, List.append_nil]
    rfl
  have pushed : p.pushed = (p.finished ++
      [Finish.mk e next (p.timers.timers e.timer).cancelled]).filterMap Finish.again := by
    rw [inv.pushed, List.filterMap_append, List.filterMap_cons_none gone]
    exact (List.append_nil _).symm
  have worker := inv.worker
  rw [stands] at worker
  rw [shape]
  exact
    { inv with
      worker := rfl
      rested := fun never => by cases never
      ended := fun finish member => by
        rcases List.mem_append.1 member with old | new
        · exact inv.ended finish old
        · rw [List.mem_singleton.1 new]
          exact worker.2
      checked := checked
      finished := finished
      pushed := pushed }

/-- A periodic entry goes back, with a deadline beyond this pass. -/
theorem pushAgain (inv : PassInv now s p) {e : Entry} {deadline : Nat}
    (stands : p.timers.worker = .recheck now e (some deadline))
    (active : (p.timers.timers e.timer).cancelled = false) :
    PassInv now s (p.after { p.timers with
      heap := { e with deadline := deadline } :: p.timers.heap, worker := .peek now }) := by
  have shape : p.after { p.timers with
      heap := { e with deadline := deadline } :: p.timers.heap, worker := .peek now } =
      { p with
        timers := { p.timers with
          heap := { e with deadline := deadline } :: p.timers.heap, worker := .peek now }
        finished := p.finished ++ [⟨e, some deadline, false⟩]
        pushed := p.pushed ++ [{ e with deadline := deadline }] } := by
    simp [Pass.after, Pass.checks, Pass.fires, Pass.finishes, stands, active,
      diff_eq_nil (List.sublist_cons_self { e with deadline := deadline } p.timers.heap),
      diff_eq_singleton (List.Perm.refl ({ e with deadline := deadline } :: p.timers.heap))]
  have worker := inv.worker
  rw [stands] at worker
  have later := (worker.2.again deadline rfl).1
  have conserved : (p.popped ++ { e with deadline := deadline } :: p.timers.heap).Perm
      (s.heap ++ (p.pushed ++ [{ e with deadline := deadline }])) := by
    rw [← List.append_assoc]
    refine List.perm_middle.trans (List.Perm.trans ?_ (List.perm_append_singleton _ _).symm)
    exact inv.conserved.cons _
  have checked := inv.checked
  rw [stands] at checked
  have finished : p.fired =
      (p.finished ++ [Finish.mk e (some deadline) false]).map Finish.entry ++ [] := by
    rw [inv.finished, stands, List.map_append, List.append_nil]
    rfl
  have pushed : p.pushed ++ [{ e with deadline := deadline }] =
      (p.finished ++ [Finish.mk e (some deadline) false]).filterMap Finish.again := by
    rw [inv.pushed, List.filterMap_append]
    rfl
  rw [shape]
  exact
    { inv with
      worker := rfl
      rested := fun never => by cases never
      conserved := conserved
      ended := fun finish member => by
        rcases List.mem_append.1 member with old | new
        · exact inv.ended finish old
        · rw [List.mem_singleton.1 new]
          exact worker.2
      ahead := fun f there g inside => by
        rcases List.mem_cons.1 inside with rfl | inside
        · exact Entry.first_iff.2 (.inl ((inv.due f there).trans_lt later))
        · exact inv.ahead f there g inside
      checked := checked
      finished := finished
      pushed := pushed }

end PassInv

/-! ### Every step of the loop -/

/-- A bound for the steps until the worker peeks again. -/
def WorkerPc.togo : WorkerPc → Nat
  | .check _ _ => 8
  | .fire _ _ => 7
  | .offer _ _ => 6
  | .offering _ _ _ => 5
  | .offered _ _ _ => 4
  | .relock _ _ _ => 3
  | .recheck _ _ _ => 2
  | .peek _ => 1
  | _ => 0

/-- A bound for the worker's steps in the rest of the pass. -/
def Pass.rank (now : Nat) (p : Pass) : Nat :=
  8 * dueIn now p.timers.heap + p.timers.worker.togo

/-- What the others do does not bring the pass forward. -/
def TimerAct.refund (a : TimerAct) : Nat := if a.ofWorker then 0 else 1

theorem Pass.checks_self (s : Timers) : Pass.checks s s.worker = [] := by
  unfold Pass.checks
  cases s.worker <;> rfl

theorem Pass.fires_self (pc : WorkerPc) : Pass.fires pc pc = [] := by
  cases pc <;> rfl

theorem Pass.finishes_self (s : Timers) : Pass.finishes s s.worker = [] := by
  unfold Pass.finishes
  cases s.worker <;> rfl

theorem WorkerPc.unchecked_of_firing {pc : WorkerPc} {e : Entry} (fires : pc.firing = [e]) :
    pc.unchecked = [] := by
  cases pc <;> first | rfl | cases fires

theorem WorkerPc.togo_of_firing {pc : WorkerPc} {e : Entry} (fires : pc.firing = [e]) :
    2 ≤ pc.togo := by
  cases pc <;> first | cases fires; done | simp [WorkerPc.togo]

/-- While a fire goes on, nothing is checked or finished. -/
theorem Pass.nothing_seen {s : Timers} {pc : WorkerPc} {e : Entry} (fires : s.worker.firing = [e])
    (goesOn : pc.firing = [e]) (lower : pc.togo < s.worker.togo) :
    checks s pc = [] ∧ Pass.fires s.worker pc = [] ∧ finishes s pc = [] := by
  unfold checks finishes
  cases stands : s.worker with
  | fire | offer | offering | offered | relock => exact ⟨rfl, rfl, rfl⟩
  | recheck =>
      rw [stands] at lower
      exact absurd (WorkerPc.togo_of_firing goesOn) (not_le.2 lower)
  | _ =>
      rw [stands] at fires
      cases fires

/-- `fire` returns `None` for a one-shot, or when the target is gone. -/
theorem after_or_closed {s : Timers} {u : Nat} {answer : SendAnswer}
    (none_ : s.nextDeadline u answer = none) : (s.timers u).kind = .after ∨ answer = .closed := by
  unfold Timers.nextDeadline at none_
  cases kind : (s.timers u).kind with
  | after => exact .inl rfl
  | every => cases answer <;> simp_all

/-- `try_send` says `Closed` only of a target that is gone. -/
theorem closed_of_offerReturns {s t : Timers} {now : Nat} {e : Entry} {gone : Bool}
    {answer : SendAnswer} (stands : s.worker = .offering now e gone)
    (moved : s.step (.offerReturns answer) = some t) :
    answer = .closed → s.gone (s.timers e.timer).target = true := by
  rw [Timers.step, stands] at moved
  exact (guarded moved).1.2

namespace PassInv

variable {now : Nat} {s t : Timers} {p : Pass}

/-- A step of somebody else. -/
theorem aside (inv : PassInv now s p) (inLoop : p.timers.worker.inLoop now = true)
    (worker : t.worker = p.timers.worker) (heap : t.heap = p.timers.heap)
    (locked : t.locked = p.timers.locked) (clock : p.timers.clock ≤ t.clock)
    (same : SameTimers p.timers.timers t.timers)
    (gone : ∀ target, p.timers.gone target = true → t.gone target = true) :
    PassInv now s (p.after t) ∧ (p.after t).rank now + 1 ≤ p.rank now + 1 := by
  have awake : p.timers.worker ≠ .sleep := fun stands => by
    rw [stands] at inLoop
    cases inLoop
  constructor
  · refine inv.quiet heap clock same gone ?_ ?_ (by rw [worker]) (by rw [worker]) ?_ ?_ ?_
    · rw [worker]
      exact inv.worker.frame locked same gone
    · rw [worker]
      exact awake
    · rw [worker]
      exact Pass.checks_self _
    · rw [worker]
      exact Pass.fires_self _
    · rw [worker]
      exact Pass.finishes_self _
  · simp only [Pass.rank, Pass.after, heap, worker, le_refl]

/-- A step of the worker while it fires. -/
theorem onward {e : Entry} (inv : PassInv now s p) (heap : t.heap = p.timers.heap)
    (clock : t.clock = p.timers.clock) (same : SameTimers p.timers.timers t.timers)
    (gone : t.gone = p.timers.gone) (worker : t.worker.Standing t now)
    (fires : p.timers.worker.firing = [e]) (goesOn : t.worker.firing = [e])
    (lower : t.worker.togo < p.timers.worker.togo) :
    PassInv now s (p.after t) ∧ (p.after t).rank now + 1 ≤ p.rank now := by
  have gone : ∀ target, p.timers.gone target = true → t.gone target = true := by simp [gone]
  have awake : t.worker ≠ .sleep := fun stands => by
    rw [stands] at goesOn
    cases goesOn
  have seen := Pass.nothing_seen fires goesOn lower
  refine ⟨inv.quiet heap clock.ge same gone worker awake ?_ (goesOn.trans fires.symm) seen.1 seen.2.1
    seen.2.2, ?_⟩
  · rw [WorkerPc.unchecked_of_firing fires, WorkerPc.unchecked_of_firing goesOn]
  · simp only [Pass.rank, Pass.after, heap]
    omega

/-- The worker's own steps. -/
theorem workerStep (inv : PassInv now s p) (inLoop : p.timers.worker.inLoop now = true)
    (moved : p.timers.workerStep p.timers.worker = some t) :
    PassInv now s (p.after t) ∧ (p.after t).rank now + 1 ≤ p.rank now := by
  have standing := inv.worker
  cases workerMove_of_step moved with
  | lock stands =>
      rcases stands with stands | stands <;> (rw [stands] at inLoop; cases inLoop)
  | top stands | sleep stands | park stands =>
      rw [stands] at inLoop
      cases inLoop
  | pop stands found due =>
      rw [stands] at standing
      obtain rfl := standing
      refine ⟨inv.pop stands found due, ?_⟩
      have fewer := dueIn_erase (earliest_spec found).1 due
      simp only [Pass.rank, Pass.after, stands, WorkerPc.togo]
      omega
  | rest stands later =>
      rw [stands] at standing
      obtain rfl := standing
      refine ⟨inv.rest stands later, ?_⟩
      simp only [Pass.rank, Pass.after, stands, WorkerPc.togo]
      omega
  | skip stands cancelled =>
      rw [stands] at standing
      obtain rfl := standing
      refine ⟨inv.skip stands cancelled, ?_⟩
      simp only [Pass.rank, Pass.after, stands, WorkerPc.togo]
      omega
  | fire stands active =>
      rw [stands] at standing
      obtain rfl := standing
      refine ⟨inv.fire stands active, ?_⟩
      simp only [Pass.rank, Pass.after, stands, WorkerPc.togo, Timers.beginFire, Timers.setTimer]
      omega
  | @offer n e stands =>
      rw [stands] at standing
      obtain ⟨rfl, free⟩ := standing
      have same : SameTimers p.timers.timers (p.timers.beginOffer e.timer).timers := .update rfl rfl rfl
      refine inv.onward rfl rfl same rfl ⟨rfl, free, fun dropped => ?_⟩ (by rw [stands]; rfl) rfl
        (by simp [stands, WorkerPc.togo])
      rw [← dropped, (same e.timer).2.2]
      rfl
  | @fired n e answer stands =>
      rw [stands] at standing
      obtain ⟨rfl, free, closed⟩ := standing
      have same : SameTimers p.timers.timers (Function.update p.timers.timers e.timer
        { p.timers.timers e.timer with
          stopped := (p.timers.timers e.timer).stopped ||
            (p.timers.nextDeadline e.timer answer).isNone }) := .update rfl rfl rfl
      have ends : Ends p.timers.timers p.timers.gone n e (p.timers.nextDeadline e.timer answer) := by
        refine ⟨fun d next => ?_, fun none_ => (after_or_closed none_).imp_right closed⟩
        obtain ⟨every, _, rfl⟩ := TimerInv.nextDeadline_eq_some next
        have positive := inv.positive e.timer every
        have time := inv.time
        exact ⟨by omega, every⟩
      exact inv.onward rfl rfl same rfl ⟨rfl, free, ends.frame same fun _ dropped => dropped⟩
        (by rw [stands]; rfl) rfl (by simp [stands, WorkerPc.togo])
  | @relock n e next stands free =>
      rw [stands] at standing
      obtain ⟨rfl, _, ends⟩ := standing
      exact inv.onward rfl rfl (.refl _) rfl ⟨rfl, ends⟩ (by rw [stands]; rfl) rfl
        (by simp [stands, WorkerPc.togo])
  | letGo stands ends =>
      rw [stands] at standing
      obtain ⟨rfl, _⟩ := standing
      refine ⟨inv.letGo stands ends, ?_⟩
      simp only [Pass.rank, Pass.after, stands, WorkerPc.togo]
      omega
  | @pushAgain n deadline e stands =>
      have active : (p.timers.timers e.timer).cancelled = false := by
        rw [← Bool.not_eq_true]
        intro cancelled
        rw [stands, Timers.workerStep] at moved
        simp [cancelled] at moved
      rw [stands] at standing
      obtain ⟨rfl, ends⟩ := standing
      refine ⟨inv.pushAgain stands active, ?_⟩
      -- The entry that comes back is not due in this pass, or the pass might not end.
      have away : dueIn n ({ e with deadline := deadline } :: p.timers.heap) = dueIn n p.timers.heap :=
        List.countP_cons_of_neg (by simpa using (ends.again deadline rfl).1)
      simp only [Pass.rank, Pass.after, stands, WorkerPc.togo, away]
      omega

theorem step (inv : PassInv now s p) {a : TimerAct} (during : a.duringPass = true) {p' : Pass}
    (stepped : p.step now a = some p') :
    PassInv now s p' ∧ p'.rank now + 1 ≤ p.rank now + a.refund := by
  obtain ⟨inLoop, stepped⟩ := Option.ite_none_right_eq_some.1 stepped
  obtain ⟨t, moved, rfl⟩ := Option.map_eq_some_iff.1 stepped
  have standing := inv.worker
  cases move_of_step moved with
  | sendAfter | sendEvery | schedule | makePanics | wake | messagePanics | entryPanics => cases during
  | tick =>
      exact inv.aside inLoop rfl rfl rfl (Nat.le_add_right _ _) (.refl _) fun _ dropped => dropped
  | cancel =>
      exact inv.aside inLoop rfl rfl rfl le_rfl (.update rfl rfl rfl) fun _ dropped => dropped
  | dropReceiver =>
      exact inv.aside inLoop rfl rfl rfl le_rfl (.refl _) fun _ dropped => dropped_update _ dropped
  | worker => exact inv.workerStep inLoop moved
  | made stands =>
      rw [stands] at standing
      obtain ⟨rfl, free⟩ := standing
      exact inv.onward rfl rfl (.refl _) rfl ⟨rfl, free⟩ (by rw [stands]; rfl) rfl
        (by simp [stands, WorkerPc.togo])
  | @missing n e stands after =>
      rw [stands] at standing
      obtain ⟨rfl, free⟩ := standing
      have ends : Ends p.timers.timers p.timers.gone n e none :=
        ⟨fun d never => (by cases never), fun _ => .inl after⟩
      exact inv.onward rfl rfl (.refl _) rfl ⟨rfl, free, ends⟩ (by rw [stands]; rfl) rfl
        (by simp [stands, WorkerPc.togo])
  | offerReturns stands =>
      have closed := closed_of_offerReturns stands moved
      rw [stands] at standing
      obtain ⟨rfl, free, _⟩ := standing
      exact inv.onward rfl rfl (.refl _) rfl ⟨rfl, free, closed⟩ (by rw [stands]; rfl) rfl
        (by simp [stands, WorkerPc.togo])

end PassInv

/-! ### The law of a pass -/

/-- While the loop runs, the worker, its user code or the mailbox can take the next step. -/
theorem PassInv.enabled {now : Nat} {s : Timers} {p : Pass} (inv : PassInv now s p)
    (inLoop : p.timers.worker.inLoop now = true) :
    ∃ a : TimerAct, a.ofWorker = true ∧ (p.step now a).isSome = true := by
  have able : ∃ a : TimerAct, a.ofWorker = true ∧ (p.timers.step a).isSome = true := by
    have standing := inv.worker
    cases stands : p.timers.worker with
    | peek | check | recheck =>
        refine ⟨.worker, rfl, ?_⟩
        rw [Timers.step, stands]
        simp only [Timers.workerStep]
        (repeat' split) <;> rfl
    | offer | offered =>
        refine ⟨.worker, rfl, ?_⟩
        rw [Timers.step, stands]
        rfl
    | relock n e next =>
        rw [stands] at standing
        refine ⟨.worker, rfl, ?_⟩
        simp [Timers.step, stands, Timers.workerStep, standing.2.1]
    | fire n e =>
        refine ⟨.made, rfl, ?_⟩
        rw [Timers.step, stands]
        dsimp only
        split <;> rfl
    | offering n e dropped =>
        rw [stands] at standing
        cases dropped with
        | true =>
            refine ⟨.offerReturns .closed, rfl, ?_⟩
            simp [Timers.step, stands, standing.2.2]
        | false =>
            refine ⟨.offerReturns .accepted, rfl, ?_⟩
            simp [Timers.step, stands]
    | _ =>
        rw [stands] at inLoop
        cases inLoop
  obtain ⟨a, own, able⟩ := able
  refine ⟨a, own, ?_⟩
  rw [Pass.step, if_pos inLoop, Option.isSome_map]
  exact able

/-- The entry a fire sends back has a deadline beyond the pass, and is periodic. -/
theorem PassInv.again_later {now : Nat} {s : Timers} {p : Pass} (inv : PassInv now s p) {e : Entry}
    (member : e ∈ p.pushed) : now < e.deadline ∧ (s.timers e.timer).kind = .every := by
  rw [inv.pushed] at member
  obtain ⟨⟨entry, next, cancelled⟩, there, again⟩ := List.mem_filterMap.1 member
  have ends := inv.ended _ there
  unfold Finish.again at again
  split at again
  · rename_i deadline some_ _
    cases again
    obtain ⟨later, every⟩ := ends.again deadline some_
    exact ⟨later, (inv.same entry.timer).1.symm.trans every⟩
  · cases again

/-- What the inner loop of `run` does in the pass of `now` over the heap of `s`, as far as it has come by
    the actions `labels`. -/
structure PassLaw (now : Nat) (s : Timers) (labels : List TimerAct) (p : Pass) : Prop where
  /-- The loop ends: its steps are bounded by the entries that are due, and it is never stuck. -/
  terminates : labels.countP TimerAct.ofWorker ≤ 8 * dueIn now s.heap + 1
  goes_on : p.timers.worker = .sleep ∨
    ∃ a : TimerAct, a.ofWorker = true ∧ (p.step now a).isSome = true
  /-- Entries are popped in the order of deadline and sequence number, -/
  in_order : p.popped.Pairwise fun e f => e.first f = true
  /-- in the end exactly the due ones, each once. -/
  pops_due : p.timers.worker = .sleep → p.popped.Perm (s.heap.filter fun e => e.deadline ≤ now)
  checks_popped : p.timers.worker = .sleep → p.checked.map Prod.fst = p.popped
  /-- Those are fired whose flag is not set when it is checked. -/
  fires_active : p.fired = (p.checked.filter fun check => !check.2).map Prod.fst
  finishes_fired : p.timers.worker = .sleep → p.finished.map Finish.entry = p.fired
  /-- A fire asks for another one exactly if its timer is periodic and its target is there. -/
  asks_again : ∀ finish ∈ p.finished, ∀ d, finish.next = some d →
    now < d ∧ (s.timers finish.entry.timer).kind = .every
  asks_no_more : ∀ finish ∈ p.finished, finish.next = none →
    (s.timers finish.entry.timer).kind = .after ∨
      p.timers.gone (s.timers finish.entry.timer).target = true
  /-- In the end the heap has what was not due, and the entries that are still active, which come
      later than `now`. -/
  keeps_rest : p.timers.worker = .sleep → p.timers.heap.Perm
    ((s.heap.filter fun e => now < e.deadline) ++ p.finished.filterMap Finish.again)
  later_again : ∀ e ∈ p.finished.filterMap Finish.again,
    now < e.deadline ∧ (s.timers e.timer).kind = .every

theorem PassInv.pops_due {now : Nat} {s : Timers} {p : Pass} (inv : PassInv now s p)
    (asleep : p.timers.worker = .sleep) :
    p.popped.Perm (s.heap.filter fun e => e.deadline ≤ now) ∧
      p.timers.heap.Perm ((s.heap.filter fun e => now < e.deadline) ++ p.pushed) := by
  -- What was in the heap and what came in is what left and what is there; the deadline tells them apart.
  have due := inv.conserved.filter fun e => e.deadline ≤ now
  have later := inv.conserved.filter fun e => now < e.deadline
  rw [List.filter_append, List.filter_append] at due later
  have allDue : p.popped.filter (fun e => e.deadline ≤ now) = p.popped :=
    List.filter_eq_self.2 fun e member => decide_eq_true (inv.due e member)
  have noneDue : p.timers.heap.filter (fun e => e.deadline ≤ now) = [] :=
    List.filter_eq_nil_iff.2 fun e member => by simpa using inv.rested asleep e member
  have noneAgain : p.pushed.filter (fun e => e.deadline ≤ now) = [] :=
    List.filter_eq_nil_iff.2 fun e member => by simpa using (inv.again_later member).1
  have noneLater : p.popped.filter (fun e => now < e.deadline) = [] :=
    List.filter_eq_nil_iff.2 fun e member => by simpa using inv.due e member
  have allLater : p.timers.heap.filter (fun e => now < e.deadline) = p.timers.heap :=
    List.filter_eq_self.2 fun e member => decide_eq_true (inv.rested asleep e member)
  have allAgain : p.pushed.filter (fun e => now < e.deadline) = p.pushed :=
    List.filter_eq_self.2 fun e member => decide_eq_true (inv.again_later member).1
  rw [allDue, noneDue, noneAgain, List.append_nil, List.append_nil] at due
  rw [noneLater, allLater, allAgain, List.nil_append] at later
  exact ⟨due, later⟩

/-- The loop is over, or the worker is in it. -/
theorem PassInv.rests_or_inLoop {now : Nat} {s : Timers} {p : Pass} (inv : PassInv now s p) :
    p.timers.worker = .sleep ∨ p.timers.worker.inLoop now = true := by
  have standing := inv.worker
  cases stands : p.timers.worker with
  | peek | check =>
      rw [stands] at standing
      exact .inr (beq_iff_eq.2 standing)
  | fire | offer | offering | offered | relock | recheck =>
      rw [stands] at standing
      exact .inr (beq_iff_eq.2 standing.1)
  | sleep => exact .inl rfl
  | _ =>
      rw [stands] at standing
      exact standing.elim

/-- Every pass obeys the law, at every moment and over every heap. -/
theorem passLaw_of_exec {now : Nat} {s : Timers} {labels : List TimerAct} {p : Pass}
    (starts : PassStart now s) (during : ∀ a ∈ labels, a.duringPass = true)
    (executed : exec (Pass.step now) (.start s) labels = some p) : PassLaw now s labels p := by
  obtain ⟨inv, spent⟩ := length_le_of_exec (Pass.rank now) TimerAct.refund (PassInv.start starts)
    (fun a member _ _ inv stepped => inv.step (during a member) stepped) executed
  have own : (labels.map TimerAct.refund).sum + labels.countP TimerAct.ofWorker = labels.length :=
    sum_refund_add_countP _ _
  have atFirst : (Pass.start s).rank now = 8 * dueIn now s.heap + 1 := by
    rw [Pass.rank, Pass.start, starts.worker]
    rfl
  have again := inv.pushed
  exact
    { terminates := by omega
      goes_on := inv.rests_or_inLoop.imp_right inv.enabled
      in_order := inv.sorted
      pops_due := fun asleep => (inv.pops_due asleep).1
      checks_popped := fun asleep => by
        rw [inv.checked, asleep]
        exact (List.append_nil _).symm
      fires_active := inv.fired
      finishes_fired := fun asleep => by
        rw [inv.finished, asleep]
        exact (List.append_nil _).symm
      asks_again := fun finish member d next => by
        rw [← (inv.same finish.entry.timer).1]
        exact (inv.ended finish member).again d next
      asks_no_more := fun finish member next => by
        rw [← (inv.same finish.entry.timer).1, ← (inv.same finish.entry.timer).2.2]
        exact (inv.ended finish member).stops next
      keeps_rest := fun asleep => by
        rw [← again]
        exact (inv.pops_due asleep).2
      later_again := fun e member => inv.again_later (again ▸ member) }

end AetherFlow.Timer
