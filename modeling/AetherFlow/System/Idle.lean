/-
Module: AetherFlow.System.Idle
Purpose: The fourth part of `core_loop`: what a core thread does at the end of a round of its loop. A
  round in which an actor was started or a message was handled resets `idle_count`; any other one calls
  `IdleStrategy::idle` with the count. The strategy decides on the length of the streak of quiet rounds
  alone, however long it is: it spins, then yields, then sleeps. Where `spins + yields` overflows, it
  never yields, or the core thread panics.
Trusted boundary: human-reviewed transcription of `IdleStrategy`, `SchedulingPolicy` and of the end of
  the loop in `core/src/system.rs`
Main exports: IdleStrategy, IdleStrategy.idle, SchedulingPolicy, Round, Idling, Idling.step, streak,
  IdleStrategy.phase, RoundInv, rested_of_run, overflow_of_run
-/
import AetherFlow.System.Metered

namespace AetherFlow.System

open Transition

variable {A M : Type*}

/-! ### The knobs -/

/-- `park` is in nanoseconds. -/
inductive IdleStrategy where
  | busySpin
  | backoff (spins yields : UInt32) (park : Nat)
deriving DecidableEq

/-- What a core thread does with its time in a call of `idle`. -/
inductive Rest where
  | spinLoop
  | yieldNow
  | sleep (park : Nat)
deriving DecidableEq

namespace IdleStrategy

/-- `IdleStrategy::backoff()`. -/
def sharedBackoff : IdleStrategy := .backoff 128 128 50000

/-- `IdleStrategy::idle`, or `none` where `spins + yields` panics. -/
def idle (overflowChecks : Bool) (strategy : IdleStrategy) (count : UInt32) : Option Rest :=
  match strategy with
  | .busySpin => some .spinLoop
  | .backoff spins yields park =>
      if count < spins then some .spinLoop
      else if overflowChecks ∧ 2 ^ 32 ≤ spins.toNat + yields.toNat then none
      else if count < spins + yields then some .yieldNow
      else some (.sleep park)

end IdleStrategy

/-- `DEFAULT_BATCH_DRAIN`. -/
def DEFAULT_BATCH_DRAIN : Nat := 128

/-- A policy made by its builder has a batch to drain. -/
structure SchedulingPolicy where
  idle : IdleStrategy
  batchDrain : Nat
  positive : 1 ≤ batchDrain

namespace SchedulingPolicy

/-- `SchedulingPolicy::default`. -/
def default : SchedulingPolicy := ⟨.busySpin, DEFAULT_BATCH_DRAIN, by decide⟩

/-- `SchedulingPolicy::idle`. -/
def withIdle (policy : SchedulingPolicy) (idle : IdleStrategy) : SchedulingPolicy :=
  { policy with idle := idle }

/-- `SchedulingPolicy::batch_drain`, or `none` where its assertion fails. -/
def withBatchDrain (policy : SchedulingPolicy) (n : Nat) : Option SchedulingPolicy :=
  if positive : 1 ≤ n then some ⟨policy.idle, n, positive⟩ else none

/-- The knob that the pass over the actors depends on. -/
def core (policy : SchedulingPolicy) (overflowChecks : Bool) : Policy :=
  ⟨policy.batchDrain, overflowChecks⟩

/-- The assertion refuses nothing but 0. -/
theorem withBatchDrain_eq_none (policy : SchedulingPolicy) {n : Nat} :
    policy.withBatchDrain n = none ↔ n = 0 := by
  unfold withBatchDrain
  split
  · rename_i positive
    exact ⟨nofun, fun zero => absurd positive (by omega)⟩
  · rename_i zero
    exact ⟨fun _ => by omega, fun _ => rfl⟩

end SchedulingPolicy

/-! ### The machine -/

/-- `count.saturating_add(1)`. -/
def saturatingSucc (count : UInt32) : UInt32 := if count.toNat + 1 < 2 ^ 32 then count + 1 else count

/-- The step of the pass that sets `did_work`. After a panic the source sets it when the actor has
    been dropped; where that fails too, nobody reads it again. -/
def Core.worked (s : Core A M) (input : Input A M) : Bool :=
  match s.pc, input with
  | .poll (.first _) (.returned .worked), .internal => true
  | .poll (.first _) (.returned .panicked), .internal => true
  | _, _ => false

/-- The step of the control plane that sets `ctrl_activity`. -/
def Core.active (s : Core A M) (input : Input A M) : Bool :=
  match s.pc, input with
  | .start _, .ran _ .returned => true
  | .start _, .ran _ .panicked => true
  | _, _ => false

/-- The pass is over and the loop goes on. -/
def Core.endsRound (s : Core A M) (input : Input A M) : Bool :=
  match s.pc, input with
  | .visit i, .internal => decide (s.actors.length ≤ i) && !s.shuttingDown
  | _, _ => false

/-- A round of the outer loop that is over: what happened to the actors in it, and how it ended.
    There is no `rest` where it reset the counter. -/
structure Round (A M : Type*) where
  log : List (Entry A M)
  rest : Option Rest

/-- A core thread with the local variables of its idling. -/
structure Idling (A M : Type*) where
  core : Core A M
  ctrlActivity : Bool
  didWork : Bool
  idleCount : UInt32
  /-- The rounds that are over, oldest first, and how long the log was when the last one ended. -/
  rounds : List (Round A M)
  since : Nat

namespace Idling

/-- A core thread just spawned. -/
def new : Idling A M where
  core := .new
  ctrlActivity := false
  didWork := false
  idleCount := 0
  rounds := []
  since := 0

/-- What has happened in the round so far. -/
def current (s : Idling A M) : List (Entry A M) := s.core.log.drop s.since

/-- The next round begins. It sets `did_work` only after its control plane, which does not read it. -/
def nextRound (s : Idling A M) (rest : Option Rest) (idleCount : UInt32) : Idling A M where
  core := s.core
  ctrlActivity := false
  didWork := false
  idleCount := idleCount
  rounds := s.rounds ++ [⟨s.current, rest⟩]
  since := s.core.log.length

/-- The end of a round, where the core has already left its pass. -/
def rest (overflowChecks : Bool) (strategy : IdleStrategy) (s : Idling A M) : Idling A M :=
  if s.didWork || s.ctrlActivity then s.nextRound none 0
  else
    match strategy.idle overflowChecks s.idleCount with
    | some rest => s.nextRound (some rest) (saturatingSucc s.idleCount)
    | none => { s with core := { s.core with pc := .unwound } }

/-- A step of the core thread, or of another thread on its control channel. -/
def step (overflowChecks : Bool) (policy : SchedulingPolicy) (s : Idling A M) (input : Input A M) :
    Option (Idling A M) :=
  (s.core.step (policy.core overflowChecks) input).map fun core =>
    if s.core.endsRound input then { s with core := core }.rest overflowChecks policy.idle
    else
      { s with
        core := core
        ctrlActivity := s.ctrlActivity || s.core.active input
        didWork := s.didWork || s.core.worked input }

end Idling

/-! ### What resting depends on -/

/-- A message was handled, or a new actor was started. -/
def Event.busy : Event A M → Bool
  | .handle _ _ _ | .onStart _ _ => true
  | _ => false

/-- Nothing of the kind happened in this round. -/
def Round.quiet (r : Round A M) : Bool := r.log.all (!·.event.busy)

/-- How many of the last rounds, without a gap, were quiet. -/
def streak (rounds : List (Round A M)) : Nat := (rounds.reverse.takeWhile Round.quiet).length

/-- What `idle` comes to after `n` quiet rounds, whether or not they fit into `idle_count`. -/
def IdleStrategy.phase (overflowChecks : Bool) (strategy : IdleStrategy) (n : Nat) : Option Rest :=
  match strategy with
  | .busySpin => some .spinLoop
  | .backoff spins yields park =>
      if n < spins.toNat then some .spinLoop
      else if 2 ^ 32 ≤ spins.toNat + yields.toNat then
        if overflowChecks then none else some (.sleep park)
      else if n < spins.toNat + yields.toNat then some .yieldNow
      else some (.sleep park)

/-- `spins + yields` is a `u32`. -/
def IdleStrategy.Fits : IdleStrategy → Prop
  | .busySpin => True
  | .backoff spins yields _ => spins.toNat + yields.toNat < 2 ^ 32

instance : DecidablePred IdleStrategy.Fits
  | .busySpin => inferInstanceAs (Decidable True)
  | .backoff spins yields _ => inferInstanceAs (Decidable (spins.toNat + yields.toNat < 2 ^ 32))

/-- The two strategies that come ready made. -/
theorem fits_presets : SchedulingPolicy.default.idle.Fits ∧ IdleStrategy.sharedBackoff.Fits :=
  ⟨trivial, by decide⟩

/-- A round ends as it should after these rounds. -/
structure Round.Rested (overflowChecks : Bool) (strategy : IdleStrategy) (before : List (Round A M))
    (r : Round A M) : Prop where
  resets : r.quiet = false → r.rest = none
  rests : r.quiet = true →
    ∃ rest, r.rest = some rest ∧ strategy.phase overflowChecks (streak before) = some rest

/-! ### The counter -/

theorem toNat_saturatingSucc {count : UInt32} {n : Nat} (counts : count.toNat = min n (2 ^ 32 - 1)) :
    (saturatingSucc count).toNat = min (n + 1) (2 ^ 32 - 1) := by
  unfold saturatingSucc
  split
  · rename_i room
    rw [UInt32.toNat_add, UInt32.toNat_one, Nat.mod_eq_of_lt room]
    omega
  · omega

/-- A saturated counter is past both phases that have an end. -/
theorem idle_eq_phase (overflowChecks : Bool) (strategy : IdleStrategy) {count : UInt32} {n : Nat}
    (counts : count.toNat = min n (2 ^ 32 - 1)) :
    strategy.idle overflowChecks count = strategy.phase overflowChecks n := by
  cases strategy with
  | busySpin => rfl
  | backoff spins yields park =>
      have small := spins.toNat_lt
      have first : count < spins ↔ n < spins.toNat := by
        rw [UInt32.lt_iff_toNat_lt, counts]
        omega
      simp only [IdleStrategy.idle, IdleStrategy.phase, first]
      split
      · rfl
      · rename_i late
        have sum : (spins + yields).toNat = (spins.toNat + yields.toNat) % 2 ^ 32 :=
          UInt32.toNat_add _ _
        by_cases wraps : 2 ^ 32 ≤ spins.toNat + yields.toNat
        · have past : ¬ count < spins + yields := by
            have bound := yields.toNat_lt
            rw [UInt32.lt_iff_toNat_lt, counts, sum]
            omega
          rw [if_pos wraps]
          cases overflowChecks with
          | false => rw [if_neg fun both => Bool.noConfusion both.1, if_neg past]; rfl
          | true => exact if_pos ⟨rfl, wraps⟩
        · have second : count < spins + yields ↔ n < spins.toNat + yields.toNat := by
            rw [UInt32.lt_iff_toNat_lt, counts, sum]
            omega
          rw [if_neg fun both => wraps both.2, if_neg wraps]
          simp only [second]

@[simp] theorem streak_nil : streak ([] : List (Round A M)) = 0 := rfl

theorem streak_append (rounds : List (Round A M)) (r : Round A M) :
    streak (rounds ++ [r]) = if r.quiet then streak rounds + 1 else 0 := by
  unfold streak
  rw [List.reverse_append, List.reverse_singleton, List.singleton_append, List.takeWhile_cons]
  split <;> simp

/-! ### What sets the flags -/

/-- A `poll_one` call for the first message of a visit, which it has taken. -/
def Pc.owes : Pc A M → Bool
  | .poll (.first _) .broken | .poll (.first _) .make | .poll (.first _) (.onRestart _)
  | .poll (.first _) (.replace _) | .poll (.first _) (.returned .worked)
  | .poll (.first _) (.returned .panicked) => true
  | _ => false

/-- Inside the batch of a visit. -/
def Pc.inBatch : Pc A M → Bool
  | .poll (.batch _ _) _ => true
  | _ => false

/-- What a step means for `did_work`. -/
structure WorkStep (s : Core A M) (input : Input A M) (t : Core A M) : Prop where
  owes : s.handles input = none → (t.pc.owes || s.worked input) = s.pc.owes
  handled : s.handles input ≠ none → t.pc.owes = true ∨ s.pc.inBatch = true
  batch : t.pc.inBatch = true → s.worked input = true ∨ s.pc.inBatch = true

section Flags

variable {policy : Policy} {s t : Core A M} {input : Input A M}

/-- A step outside the visits, or from one visit to the next. -/
theorem WorkStep.calm (worked : s.worked input = false) (silent : s.handles input = none)
    (owes : s.pc.owes = false) (owes' : t.pc.owes = false) (batch : t.pc.inBatch = false) :
    WorkStep s input t where
  owes _ := by rw [worked, owes, owes', Bool.or_false]
  handled ends := absurd silent ends
  batch inside := by
    rw [batch] at inside
    cases inside

/-- A poll is over. -/
theorem workStep_polled {cell : Cell A} {site : Site} {outcome : PollOutcome}
    (here : s.pc = .poll site (.returned outcome))
    (goes : (s.polled policy cell site outcome).pc.draining = false) :
    WorkStep s .internal (s.polled policy cell site outcome) := by
  have silent : s.handles .internal = none := rfl
  have batch : ∀ i left : Nat, (Core.batchNext i left : Pc A M).owes = false := by
    intro i left
    unfold Core.batchNext
    split <;> rfl
  cases site with
  | drain => cases outcome <;> cases goes
  | first i =>
      cases outcome with
      | worked =>
          have worked : s.worked .internal = true := by simp [Core.worked, here]
          refine ⟨fun _ => ?_, fun ends => absurd silent ends, fun _ => .inl worked⟩
          rw [worked, here, Bool.or_true]
          rfl
      | panicked =>
          have worked : s.worked .internal = true := by simp [Core.worked, here]
          refine ⟨fun _ => ?_, fun ends => absurd silent ends, fun _ => .inl worked⟩
          rw [worked, here, Bool.or_true]
          rfl
      | empty =>
          have worked : s.worked .internal = false := by simp [Core.worked, here]
          exact .calm worked silent (by rw [here]; rfl) rfl rfl
  | batch i left =>
      have worked : s.worked .internal = false := by simp [Core.worked, here]
      have owes : s.pc.owes = false := by rw [here]; rfl
      have inside : s.pc.inBatch = true := by rw [here]; rfl
      cases outcome with
      | worked =>
          refine ⟨fun _ => ?_, fun ends => absurd silent ends, fun _ => .inr inside⟩
          rw [worked, owes, Bool.or_false]
          exact batch _ _
      | empty | panicked => exact .calm worked silent owes rfl rfl

/-- Inside a poll. -/
theorem workStep_pollNext {site : Site} {pc : PollPc A M} {cell : Cell A} {next : PollNext A M}
    (here : s.pc = .poll site pc) (found : s.actors[site.index]? = some cell)
    (stepped : pollStep policy.overflowChecks cell pc input = some next)
    (alive : (s.pollNext site.index site next).pc.dead = false)
    (goes : (s.pollNext site.index site next).pc.draining = false) :
    WorkStep s input (s.pollNext site.index site next) := by
  cases next with
  | unwound | aborted => cases alive
  | goOn cell' pc' events =>
      have move := pollMove_of_pollStep stepped
      have worked : s.worked input = false := by
        cases move <;> simp [Core.worked, here]
      cases site with
      | drain => cases goes
      | first i =>
          refine ⟨fun silent => ?_, fun ends => .inl ?_, fun inside => by cases inside⟩
          · rw [worked, here, Bool.or_false]
            cases move with
            | handled | broke => simp [Core.handles, here, found] at silent
            | @decided time allowed => cases allowed <;> rfl
            | _ => rfl
          · cases move with
            | handled | broke => rfl
            | _ => simp [Core.handles, here] at ends
      | batch i left =>
          have inside : s.pc.inBatch = true := by rw [here]; rfl
          refine ⟨fun _ => ?_, fun _ => .inr inside, fun _ => .inr inside⟩
          rw [worked, here, Bool.or_false]
          rfl

theorem workStep_of_loopStep (moved : s.loopStep policy input = some t) (alive : t.pc.dead = false)
    (goes : t.pc.draining = false) : WorkStep s input t := by
  unfold Core.loopStep at moved
  split at moved
  · rename_i here
    cases moved
    have worked : s.worked .internal = false := by simp [Core.worked, here]
    have owes : s.pc.owes = false := by rw [here]; rfl
    have batch : s.pc.inBatch = false := by rw [here]; rfl
    refine .calm worked rfl owes ?_ ?_
    · unfold Core.recvControl
      split <;> first | rfl | exact owes
    · unfold Core.recvControl
      split <;> first | rfl | exact batch
  · rename_i cell after outcome here
    cases moved
    have silent : s.handles (.ran after outcome) = none := by
      cases outcome <;> simp [Core.handles, here]
    have worked : s.worked (.ran after outcome) = false := by simp [Core.worked]
    have owes : s.pc.owes = false := by rw [here]; rfl
    cases outcome <;> exact .calm worked silent owes rfl rfl
  · rename_i i here
    cases moved
    have worked : s.worked .internal = false := by simp [Core.worked, here]
    have owes : s.pc.owes = false := by rw [here]; rfl
    refine .calm worked rfl owes ?_ ?_
    · unfold Core.visited
      split
      · rfl
      · split <;> rfl
    · unfold Core.visited
      split
      · rfl
      · split <;> rfl
  · rename_i site outcome here
    obtain ⟨cell, -, rfl⟩ := Option.map_eq_some_iff.1 moved
    exact workStep_polled here goes
  · rename_i site pc here _
    obtain ⟨cell, found, rest⟩ := Option.bind_eq_some_iff.1 moved
    obtain ⟨next, stepped, rfl⟩ := Option.map_eq_some_iff.1 rest
    exact workStep_pollNext here found stepped alive goes
  · rename_i i verdict here
    obtain ⟨cell, -, rfl⟩ := Option.map_eq_some_iff.1 moved
    have worked : s.worked (.closedAndEmpty verdict) = false := by simp [Core.worked]
    have owes : s.pc.owes = false := by rw [here]; rfl
    cases verdict <;> exact .calm worked rfl owes rfl rfl
  · rename_i i outcome here
    obtain ⟨cell, -, rfl⟩ := Option.map_eq_some_iff.1 moved
    have worked : s.worked (.dropped outcome) = false := by simp [Core.worked]
    have owes : s.pc.owes = false := by rw [here]; rfl
    cases outcome <;> exact .calm worked rfl owes rfl rfl
  · rename_i cell resume after outcome here
    cases moved
    have silent : s.handles (.ran after outcome) = none := by
      cases outcome <;> simp [Core.handles, here]
    have worked : s.worked (.ran after outcome) = false := by simp [Core.worked]
    have owes : s.pc.owes = false := by rw [here]; rfl
    cases outcome <;> exact .calm worked silent owes rfl rfl
  · rename_i cell resume outcome here
    cases moved
    have worked : s.worked (.dropped outcome) = false := by simp [Core.worked]
    have owes : s.pc.owes = false := by rw [here]; rfl
    cases outcome <;> cases resume <;> exact .calm worked rfl owes rfl rfl
  · cases moved
    dsimp only at goes alive
    split at goes <;> cases goes
  · cases moved

/-- There is no way back from the drain. -/
theorem not_draining_of_loopStep (moved : s.loopStep policy input = some t)
    (alive : t.pc.dead = false) (goes : t.pc.draining = false) : s.pc.draining = false := by
  by_contra drains
  rw [Bool.not_eq_false] at drains
  cases here : s.pc with
  | drain =>
      cases input with
      | internal =>
          simp only [Core.loopStep, here, Option.some.injEq] at moved
          subst moved
          dsimp only at goes
          split at goes <;> cases goes
      | _ => simp [Core.loopStep, here] at moved
  | poll site pc =>
      cases site with
      | drain =>
          cases pc with
          | returned outcome =>
              cases input with
              | internal =>
                  simp only [Core.loopStep, here] at moved
                  obtain ⟨cell, -, rfl⟩ := Option.map_eq_some_iff.1 moved
                  cases outcome <;> cases goes
              | _ => simp [Core.loopStep, here, pollStep] at moved
          | _ =>
              simp only [Core.loopStep, here] at moved
              obtain ⟨cell, -, rest⟩ := Option.bind_eq_some_iff.1 moved
              obtain ⟨next, -, rfl⟩ := Option.map_eq_some_iff.1 rest
              cases next with
              | goOn _ _ _ => cases goes
              | unwound | aborted => cases alive
      | first _ | batch _ _ => simp [here, Pc.draining] at drains
  | stop cell resume =>
      cases resume with
      | drain =>
          cases input with
          | ran after outcome =>
              simp only [Core.loopStep, here, Option.some.injEq] at moved
              subst moved
              cases outcome with
              | returned | panicked => cases goes
              | aborted => cases alive
          | _ => simp [Core.loopStep, here] at moved
      | control | visit _ => simp [here, Pc.draining] at drains
  | drop cell resume =>
      cases resume with
      | drain =>
          cases input with
          | dropped outcome =>
              simp only [Core.loopStep, here, Option.some.injEq] at moved
              subst moved
              cases outcome with
              | returned => cases goes
              | panicked | aborted => cases alive
          | _ => simp [Core.loopStep, here] at moved
      | control | visit _ => simp [here, Pc.draining] at drains
  | exited => simp [Core.loopStep, here] at moved
  | _ => simp [here, Pc.draining] at drains

/-- Before a step that keeps the loop going, it was going, and the flags change as they should. -/
theorem workStep_of_step (moved : s.step policy input = some t) (alive : t.pc.dead = false)
    (goes : t.pc.draining = false) :
    s.pc.dead = false ∧ s.pc.draining = false ∧ WorkStep s input t := by
  rcases step_cases moved with sent | moved
  · obtain ⟨same, -, -, -⟩ := environment_frame sent
    have neither : s.worked input = false ∧ s.handles input = none := by
      cases input with
      | sendAdd _ _ _ | sendShutdown | disconnect => exact ⟨by simp [Core.worked], rfl⟩
      | _ => cases sent
    refine ⟨same ▸ alive, same ▸ goes, fun _ => ?_, fun ends => absurd neither.2 ends, fun inside => ?_⟩
    · rw [neither.1, same, Bool.or_false]
    · exact .inr (same ▸ inside)
  · exact ⟨alive_of_loopStep moved, not_draining_of_loopStep moved alive goes,
      workStep_of_loopStep moved alive goes⟩

theorem start_of_active (starts : s.active input = true) :
    ∃ cell after outcome, s.pc = .start cell ∧ input = .ran after outcome ∧ outcome ≠ .aborted := by
  unfold Core.active at starts
  split at starts
  · rename_i cell after here
    exact ⟨cell, after, .returned, here, rfl, nofun⟩
  · rename_i cell after here
    exact ⟨cell, after, .panicked, here, rfl, nofun⟩
  · cases starts

theorem start_of_serves {cell : Cell A} (serves : s.Serves cell .waiting) : s.pc = .start cell := by
  cases here : s.pc with
  | start held =>
      simp only [Core.Serves, here, and_true] at serves
      rw [serves]
  | _ => simp [Core.Serves, here] at serves

/-- A step is busy when it starts an actor or ends a `handle` call. -/
theorem busy_of_step (moved : s.step policy input = some t) :
    ∃ es, t.log = s.log ++ es ∧
      es.any (·.event.busy) = (s.active input || (s.handles input).isSome) := by
  cases starts : s.active input with
  | true =>
      obtain ⟨cell, after, outcome, here, rfl, whole⟩ := start_of_active starts
      rcases step_cases moved with sent | moved
      · cases sent
      · simp only [Core.loopStep, here, Option.some.injEq] at moved
        subst moved
        cases outcome with
        | returned => exact ⟨_, rfl, rfl⟩
        | panicked => exact ⟨_, List.append_assoc _ _ _, rfl⟩
        | aborted => exact absurd rfl whole
  | false =>
      cases ends : s.handles input with
      | some id =>
          obtain ⟨inst, seen, msg, outcome, log⟩ := log_of_handles ends moved
          exact ⟨_, log, rfl⟩
      | none =>
          have nothing : ∃ es : List (Entry A M), s.log = s.log ++ es ∧
              es.any (·.event.busy) = (false || (none : Option Nat).isSome) :=
            ⟨[], (List.append_nil _).symm, rfl⟩
          cases step_shape moved with
          | sent _ _ _ _ _ _ _ log _ =>
              rw [log]
              exact nothing
          | quiet _ log _ =>
              rw [log]
              exact nothing
          | moves cell cell' loc loc' rest events serves stepped _ _ _ log _ =>
              refine ⟨_, log, ?_⟩
              cases stepped with
              | started => simp [Core.active, start_of_serves serves] at starts
              | polls move =>
                  obtain ⟨site, at_, found⟩ := poll_of_serves serves
                  cases move with
                  | handled | broke => simp [Core.handles, at_, found] at ends
                  | _ => rfl
              | _ => rfl
          | leaves cell loc rest events serves stepped _ _ log _ =>
              refine ⟨_, log, ?_⟩
              cases stepped with
              | startFailed => simp [Core.active, start_of_serves serves] at starts
              | _ => rfl
          | died died =>
              rcases died.log with same | ⟨cell, _, log⟩
              · rw [same]
                exact nothing
              · exact ⟨_, log, rfl⟩

end Flags

/-! ### Whole runs -/

/-- The rounds so far ended as they should, and the local variables say what the current one and the
    streak before it are like. -/
structure RoundInv (overflowChecks : Bool) (strategy : IdleStrategy) (s : Idling A M) : Prop where
  since : s.since ≤ s.core.log.length
  logs : s.rounds.flatMap Round.log = s.core.log.take s.since
  rested : ∀ before r after, s.rounds = before ++ r :: after →
    r.Rested overflowChecks strategy before
  counts : s.idleCount.toNat = min (streak s.rounds) (2 ^ 32 - 1)
  flags : s.core.pc.dead = false → s.core.pc.draining = false →
    s.current.any (·.event.busy) = (s.didWork || s.ctrlActivity || s.core.pc.owes)
  batch : s.core.pc.inBatch = true → s.didWork = true

section Invariant

variable {overflowChecks : Bool} {policy : SchedulingPolicy} {strategy : IdleStrategy}
  {s t : Idling A M} {input : Input A M}

theorem roundInv_new : RoundInv overflowChecks strategy (Idling.new : Idling A M) where
  since := le_rfl
  logs := rfl
  rested before r after same := by simp [Idling.new] at same
  counts := rfl
  flags _ _ := rfl
  batch inside := by cases inside

/-- One more round is over. -/
theorem rested_append {rounds : List (Round A M)} {last : Round A M}
    (rested : ∀ before r after, rounds = before ++ r :: after →
      r.Rested overflowChecks strategy before)
    (new : last.Rested overflowChecks strategy rounds) (before : List (Round A M)) (r : Round A M)
    (after : List (Round A M)) (same : rounds ++ [last] = before ++ r :: after) :
    r.Rested overflowChecks strategy before := by
  rcases List.eq_nil_or_concat after with rfl | ⟨init, tail, rfl⟩
  · obtain ⟨rfl, lasts⟩ := List.append_inj' same rfl
    cases lasts
    exact new
  · rw [List.concat_eq_append, ← List.cons_append, ← List.append_assoc] at same
    exact rested before r init (List.append_inj' same rfl).1

theorem RoundInv.nextRound (inv : RoundInv overflowChecks strategy s) {rest : Option Rest}
    {idleCount : UInt32} (outside : s.core.pc = .control)
    (rested : (Round.mk s.current rest).Rested overflowChecks strategy s.rounds)
    (counts : idleCount.toNat = min (streak (s.rounds ++ [⟨s.current, rest⟩])) (2 ^ 32 - 1)) :
    RoundInv overflowChecks strategy (s.nextRound rest idleCount) where
  since := le_rfl
  logs := by
    simp only [Idling.nextRound, List.flatMap_append, inv.logs, List.flatMap_singleton, List.take_length]
    exact List.take_append_drop _ _
  rested := rested_append inv.rested rested
  counts := counts
  flags _ _ := by simp [Idling.nextRound, Idling.current, outside, Pc.owes]
  batch inside := by simp [Idling.nextRound, outside, Pc.inBatch] at inside

/-- Where the pass is over, nothing of a visit is left. -/
theorem control_of_endsRound {core t : Core A M} {policy : Policy}
    (ends : core.endsRound input = true) (moved : core.step policy input = some t) :
    t = { core with pc := .control } ∧ ∃ i, core.pc = .visit i := by
  unfold Core.endsRound at ends
  split at ends
  · rename_i i here
    rw [Bool.and_eq_true, decide_eq_true_eq, Bool.not_eq_true'] at ends
    obtain ⟨outside, running⟩ := ends
    rcases step_cases moved with sent | moved
    · cases sent
    · simp only [Core.loopStep, here, Option.some.injEq] at moved
      refine ⟨?_, i, here⟩
      rw [← moved, Core.visited, if_neg (Nat.not_lt.2 outside), running]
      rfl
  · cases ends

theorem RoundInv.rest (inv : RoundInv overflowChecks strategy s) (outside : s.core.pc = .control)
    (flags : s.current.any (·.event.busy) = (s.didWork || s.ctrlActivity)) :
    RoundInv overflowChecks strategy (s.rest overflowChecks strategy) := by
  have quiet : ∀ rest : Option Rest, (Round.mk s.current rest).quiet =
      !(s.didWork || s.ctrlActivity) := by
    intro rest
    rw [← flags, List.not_any_eq_all_not]
    rfl
  unfold Idling.rest
  split
  · rename_i busy
    rw [busy] at quiet
    refine inv.nextRound outside ⟨fun _ => rfl, fun never => ?_⟩ ?_
    · rw [quiet] at never
      cases never
    · rw [streak_append, quiet]
      rfl
  · rename_i idle
    rw [Bool.not_eq_true] at idle
    rw [idle] at quiet
    have phase := idle_eq_phase overflowChecks strategy inv.counts
    split
    · rename_i rest rests
      refine inv.nextRound outside ⟨fun never => ?_, fun _ => ⟨rest, rfl, phase ▸ rests⟩⟩ ?_
      · rw [quiet] at never
        cases never
      · rw [streak_append, quiet]
        exact toNat_saturatingSucc inv.counts
    · refine ⟨inv.since, inv.logs, inv.rested, inv.counts, fun never => ?_, fun never => ?_⟩
      · cases never
      · cases never

theorem roundInv_step (inv : RoundInv overflowChecks policy.idle s)
    (moved : s.step overflowChecks policy input = some t) :
    RoundInv overflowChecks policy.idle t := by
  obtain ⟨core, stepped, rfl⟩ := Option.map_eq_some_iff.1 moved
  split
  · rename_i ends
    obtain ⟨rfl, i, here⟩ := control_of_endsRound ends stepped
    have flags := inv.flags (by rw [here]; rfl) (by rw [here]; rfl)
    rw [here] at flags
    refine RoundInv.rest ⟨inv.since, inv.logs, inv.rested, inv.counts, fun _ _ => ?_, nofun⟩ rfl ?_
    · exact flags
    · exact flags.trans (Bool.or_false _)
  · obtain ⟨es, log, busy⟩ := busy_of_step stepped
    refine ⟨?_, ?_, inv.rested, inv.counts, fun alive goes => ?_, fun inside => ?_⟩
    · rw [log, List.length_append]
      exact inv.since.trans (Nat.le_add_right _ _)
    · rw [log, List.take_append_of_le_length inv.since]
      exact inv.logs
    · obtain ⟨alive', goes', work⟩ := workStep_of_step stepped alive goes
      have current : (core.log.drop s.since) = s.current ++ es := by
        rw [log, List.drop_append_of_le_length inv.since]
        rfl
      change (core.log.drop s.since).any _ = (s.didWork || s.core.worked input ||
        (s.ctrlActivity || s.core.active input) || core.pc.owes)
      rw [current, List.any_append, inv.flags alive' goes', busy]
      cases ends : s.core.handles input with
      | none =>
          rw [← work.owes ends, Option.isSome_none, Bool.or_false]
          ac_rfl
      | some id =>
          rw [Option.isSome_some, Bool.or_true, Bool.or_true]
          rcases work.handled (by simp [ends]) with owes | inside
          · rw [owes, Bool.or_true]
          · rw [inv.batch inside, Bool.true_or, Bool.true_or, Bool.true_or]
    · have alive : core.pc.dead = false ∧ core.pc.draining = false := by
        unfold Pc.inBatch at inside
        split at inside
        · rename_i here
          exact ⟨here ▸ rfl, here ▸ rfl⟩
        · cases inside
      obtain ⟨-, -, work⟩ := workStep_of_step stepped alive.1 alive.2
      rcases work.batch inside with worked | before
      · exact Bool.or_eq_true_iff.2 (.inr worked)
      · exact Bool.or_eq_true_iff.2 (.inl (inv.batch before))

theorem roundInv_of_exec {labels : List (Input A M)}
    (run : exec (Idling.step overflowChecks policy) .new labels = some s) :
    RoundInv overflowChecks policy.idle s :=
  (reach_of_exec run).invariant roundInv_new fun _ _ _ inv _ moved => roundInv_step inv moved

end Invariant

/-! ### Idling leaves the core alone -/

section Bare

variable {overflowChecks : Bool} {policy : SchedulingPolicy}

theorem idle_isSome {strategy : IdleStrategy} (fits : strategy.Fits) (count : UInt32) :
    ∃ rest, strategy.idle overflowChecks count = some rest := by
  cases strategy with
  | busySpin => exact ⟨_, rfl⟩
  | backoff spins yields park =>
      unfold IdleStrategy.idle
      dsimp only
      split
      · exact ⟨_, rfl⟩
      · rw [if_neg fun overflows => Nat.not_le.2 fits overflows.2]
        split <;> exact ⟨_, rfl⟩

theorem rest_core (fits : policy.idle.Fits) (s : Idling A M) :
    (s.rest overflowChecks policy.idle).core = s.core := by
  unfold Idling.rest
  split
  · rfl
  · obtain ⟨rest, rests⟩ := @idle_isSome overflowChecks _ fits s.idleCount
    rw [rests]
    rfl

theorem Idling.step_core (fits : policy.idle.Fits) (s : Idling A M) (input : Input A M) :
    (s.step overflowChecks policy input).map Idling.core =
      s.core.step (policy.core overflowChecks) input := by
  cases stepped : s.core.step (policy.core overflowChecks) input with
  | none => simp [Idling.step, stepped]
  | some core =>
      simp only [Idling.step, stepped, Option.map_some]
      split
      · rw [rest_core fits]
      · rfl

theorem Idling.exec_core (fits : policy.idle.Fits) (s : Idling A M) (labels : List (Input A M)) :
    (exec (Idling.step overflowChecks policy) s labels).map Idling.core =
      exec (Core.step (policy.core overflowChecks)) s.core labels := by
  induction labels generalizing s with
  | nil => rfl
  | cons a labels inductionHypothesis =>
      rw [exec, exec, ← s.step_core fits a]
      cases s.step overflowChecks policy a with
      | none => rfl
      | some u => exact inductionHypothesis u

end Bare

/-! ### How a core thread rests -/

section Rests

variable {overflowChecks : Bool} {policy : SchedulingPolicy} {labels : List (Input A M)} {s : Idling A M}

/-- The rounds that are over divide up all that the core has done. Each of them ended with a reset if
    an actor was started or a message handled in it; if not, with what the strategy has for the length
    of the streak before it, however many rounds that is. And unless `spins + yields` overflows, the
    core is where it would be without any idling. -/
theorem rested_of_run (run : exec (Idling.step overflowChecks policy) .new labels = some s) :
    s.rounds.flatMap Round.log ++ s.current = s.core.log ∧
      (∀ before r after, s.rounds = before ++ r :: after →
        r.Rested overflowChecks policy.idle before) ∧
      (policy.idle.Fits → exec (Core.step (policy.core overflowChecks)) .new labels = some s.core) := by
  have inv := roundInv_of_exec run
  refine ⟨?_, inv.rested, fun fits => ?_⟩
  · rw [inv.logs]
    exact List.take_append_drop _ _
  · have bare := @Idling.exec_core A M overflowChecks policy fits .new labels
    rw [run] at bare
    exact bare.symm

/-- An actor is started, and then three rounds find nothing to do. -/
theorem rested_of_run_startedOnce :
    ∃ s, exec (Idling.step (A := Unit) (M := Nat) true
          (SchedulingPolicy.default.withIdle (.backoff 1 1 50000))) .new
        [.sendAdd () false .never, .internal, .ran () .returned, .internal,
          .internal, .received none, .internal, .closedAndEmpty false, .internal, .internal,
          .internal, .received none, .internal, .closedAndEmpty false, .internal, .internal,
          .internal, .received none, .internal, .closedAndEmpty false, .internal, .internal,
          .internal, .received none, .internal, .closedAndEmpty false, .internal] = some s ∧
      s.rounds.map Round.rest =
        [none, some .spinLoop, some .yieldNow, some (.sleep 50000)] ∧
      s.rounds.flatMap Round.log ++ s.current = s.core.log := by
  have goesOn : ∃ s, exec (Idling.step (A := Unit) (M := Nat) true
          (SchedulingPolicy.default.withIdle (.backoff 1 1 50000))) .new
        [.sendAdd () false .never, .internal, .ran () .returned, .internal,
          .internal, .received none, .internal, .closedAndEmpty false, .internal, .internal,
          .internal, .received none, .internal, .closedAndEmpty false, .internal, .internal,
          .internal, .received none, .internal, .closedAndEmpty false, .internal, .internal,
          .internal, .received none, .internal, .closedAndEmpty false, .internal] = some s ∧
      s.rounds.map Round.rest =
        [none, some .spinLoop, some .yieldNow, some (.sleep 50000)] := ⟨_, rfl, rfl⟩
  obtain ⟨s, run, rests⟩ := goesOn
  exact ⟨s, run, rests, (rested_of_run run).1⟩

/-- Where `spins + yields` overflows, the strategy has an end only to its first phase. -/
theorem phase_of_wraps {spins yields : UInt32} {park : Nat}
    (wraps : 2 ^ 32 ≤ spins.toNat + yields.toNat) (overflowChecks : Bool) (n : Nat) :
    (IdleStrategy.backoff spins yields park).phase overflowChecks n =
      if n < spins.toNat then some .spinLoop
      else if overflowChecks then none else some (.sleep park) := by
  simp only [IdleStrategy.phase, if_pos wraps]

/-- A strategy whose `spins + yields` overflows never yields. Without overflow checks it goes from the
    spins straight to sleeping; with them it kills the core thread, once `spins` quiet rounds were over
    and one more ends. -/
theorem overflow_of_run {spins yields : UInt32} {park : Nat}
    (strategy : policy.idle = .backoff spins yields park)
    (wraps : 2 ^ 32 ≤ spins.toNat + yields.toNat)
    (run : exec (Idling.step overflowChecks policy) .new labels = some s) :
    (∀ r ∈ s.rounds, r.rest ≠ some .yieldNow) ∧
      (overflowChecks = false → ∀ before r after, s.rounds = before ++ r :: after → r.quiet = true →
        r.rest = some (if streak before < spins.toNat then .spinLoop else .sleep park)) ∧
      (overflowChecks = true → streak s.rounds ≤ spins.toNat) ∧
      ∀ input t, s.step overflowChecks policy input = some t → overflowChecks = true →
        s.core.endsRound input = true → s.current.any (·.event.busy) = false →
        streak s.rounds = spins.toNat → t.core.pc = .unwound := by
  have inv := roundInv_of_exec run
  have phase := @phase_of_wraps spins yields park wraps overflowChecks
  rw [← strategy] at phase
  refine ⟨fun r member yields => ?_, fun unchecked before r after split_ quiet => ?_, fun checks => ?_,
    fun input t moved checks ends idle late => ?_⟩
  · obtain ⟨before, after, split_⟩ := List.append_of_mem member
    have rested := inv.rested before r after split_
    cases quiet : r.quiet with
    | false => rw [rested.resets quiet] at yields; cases yields
    | true =>
        obtain ⟨rest, same, phase'⟩ := rested.rests quiet
        rw [phase] at phase'
        cases same.symm.trans yields
        split at phase'
        · cases phase'
        · split at phase' <;> cases phase'
  · obtain ⟨rest, same, phase'⟩ := (inv.rested before r after split_).rests quiet
    rw [phase, unchecked] at phase'
    rw [same, ← phase']
    split <;> rfl
  · rcases List.eq_nil_or_concat s.rounds with none_ | ⟨before, r, last⟩
    · rw [none_]
      exact Nat.zero_le _
    · rw [List.concat_eq_append] at last
      rw [last, streak_append]
      cases quiet : r.quiet with
      | false => exact Nat.zero_le _
      | true =>
          obtain ⟨rest, -, phase'⟩ := (inv.rested before r [] last).rests quiet
          rw [phase, checks] at phase'
          split at phase'
          · assumption
          · cases phase'
  · obtain ⟨core, stepped, rfl⟩ := Option.map_eq_some_iff.1 moved
    obtain ⟨rfl, i, here⟩ := control_of_endsRound ends stepped
    have flags := inv.flags (by rw [here]; rfl) (by rw [here]; rfl)
    have owes : s.core.pc.owes = false := by rw [here]; rfl
    rw [idle, owes, Bool.or_false] at flags
    have dies : policy.idle.idle overflowChecks s.idleCount = none := by
      rw [idle_eq_phase overflowChecks policy.idle inv.counts, phase, if_neg (by omega), if_pos checks]
    rw [if_pos ends]
    unfold Idling.rest
    simp only [← flags, dies, Bool.false_eq_true, if_false]

/-- A core thread without actors spins once, and the next idle round kills it. -/
theorem overflow_of_run_idle :
    ∃ s t, exec (Idling.step (A := Unit) (M := Nat) true
          (SchedulingPolicy.default.withIdle (.backoff 1 4294967295 0))) .new
        [.internal, .internal, .internal] = some s ∧
      s.step true (SchedulingPolicy.default.withIdle (.backoff 1 4294967295 0)) .internal = some t ∧
      t.core.pc = .unwound := by
  have goesOn : ∃ s t, exec (Idling.step (A := Unit) (M := Nat) true
          (SchedulingPolicy.default.withIdle (.backoff 1 4294967295 0))) .new
        [.internal, .internal, .internal] = some s ∧
      s.step true (SchedulingPolicy.default.withIdle (.backoff 1 4294967295 0)) .internal = some t ∧
      s.core.endsRound .internal = true ∧ s.current.any (·.event.busy) = false ∧
      streak s.rounds = 1 := ⟨_, _, rfl, rfl, rfl, rfl, rfl⟩
  obtain ⟨s, t, run, moved, ends, idle, late⟩ := goesOn
  obtain ⟨-, -, -, dies⟩ := overflow_of_run rfl (by decide) run
  exact ⟨s, t, run, moved, dies _ t moved rfl ends idle late⟩

end Rests

end AetherFlow.System
