/-
Module: AetherFlow.System.Containment
Purpose: What user code can do to its core thread. As long as the destructors that `core_loop` runs
  outside its panic boundaries return, no behaviour of any actor ends or blocks the loop, and an
  actor leaves the core only through its own failure or its own orderly end. A destructor that
  panics there takes the core thread down with every actor on it.
Trusted boundary: none
Main exports: Harmless, InRange, Contained, contained_of_run, core_dies_of_destructor
-/
import AetherFlow.System.Lifecycle

namespace AetherFlow.System

open Transition

variable {A M : Type*} {policy : Policy} {s t : Core A M} {input : Input A M}

/-- The restart counter of the actor whose `handle` has just panicked does not overflow. -/
def Countable (policy : Policy) (time : Nat) (actors : List (Cell A)) : Pc A M → Prop
  | .poll site .broken => ∀ cell ∈ actors[site.index]?,
      (allowRestart policy.overflowChecks cell.restartPolicy cell.restarts time).isSome = true
  | _ => True

/-- A destructor that runs outside every panic boundary returns, no destructor panics while a panic
    unwinds, and the restart counter of a panicked actor does not overflow in a checked build. -/
def Harmless (policy : Policy) (s : Core A M) : Input A M → Prop
  | .dropped outcome => outcome = .returned
  | .ran _ outcome => outcome ≠ .aborted
  | .now time => Countable policy time s.actors s.pc
  | _ => True

instance (time : Nat) (actors : List (Cell A)) (pc : Pc A M) :
    Decidable (Countable policy time actors pc) :=
  match pc with
  | .poll _ .broken => inferInstanceAs (Decidable (∀ cell ∈ _, _))
  | .poll _ .recv | .poll _ (.handle _) | .poll _ .make | .poll _ (.onRestart _)
  | .poll _ (.replace _) | .poll _ (.returned _) | .control | .start _ | .visit _ | .closedCheck _
  | .detach _ | .stop _ _ | .drop _ _ | .drain | .exited | .unwound | .aborted => isTrue trivial

instance (input : Input A M) : Decidable (Harmless policy s input) :=
  match input with
  | .dropped _ => inferInstanceAs (Decidable (_ = _))
  | .ran _ _ => inferInstanceAs (Decidable (_ ≠ _))
  | .now _ => inferInstanceAs (Decidable (Countable _ _ _ _))
  | .received _ | .closedAndEmpty _ | .internal | .sendAdd _ _ _ | .sendShutdown | .disconnect =>
      isTrue trivial

/-! ### The loop never gets stuck -/

/-- The index the core works on is one of its actors. -/
def InRange (actors : Nat) : Pc A M → Prop
  | .poll site _ => site.index < actors
  | .closedCheck i | .detach i => i < actors
  | _ => True

theorem batchNext_inRange {i left actors : Nat} (inside : i < actors) :
    InRange actors (Core.batchNext i left : Pc A M) := by
  unfold Core.batchNext
  split
  · trivial
  · exact inside

theorem loopStep_inRange (inRange : InRange s.actors.length s.pc)
    (moved : s.loopStep policy input = some t) : InRange t.actors.length t.pc := by
  unfold Core.loopStep at moved
  split at moved
  · cases moved
    unfold Core.recvControl
    split
    · trivial
    · exact inRange
    · trivial
  · rename_i cell after outcome at_
    cases moved
    cases outcome <;> trivial
  · cases moved
    unfold Core.visited
    split
    · rename_i inside
      exact inside
    · split <;> trivial
  · rename_i site outcome at_
    obtain ⟨cell, found, rfl⟩ := Option.map_eq_some_iff.1 moved
    rw [at_] at inRange
    cases site with
    | first i | batch i left =>
        cases outcome with
        | worked => exact batchNext_inRange inRange
        | empty => first | exact inRange | trivial
        | panicked => exact inRange
    | drain =>
        cases outcome with
        | worked => exact inRange
        | empty | panicked => trivial
  · rename_i site pc at_ _
    obtain ⟨cell, found, rest⟩ := Option.bind_eq_some_iff.1 moved
    obtain ⟨next, stepped, rfl⟩ := Option.map_eq_some_iff.1 rest
    rw [at_] at inRange
    cases next with
    | goOn cell' pc' events =>
        simp only [Core.pollNext, List.length_set]
        exact inRange
    | unwound | aborted => trivial
  · obtain ⟨cell, found, rfl⟩ := Option.map_eq_some_iff.1 moved
    split <;> trivial
  · rename_i i outcome at_
    obtain ⟨cell, found, rfl⟩ := Option.map_eq_some_iff.1 moved
    cases outcome <;> trivial
  · cases moved
    unfold Core.stopped
    split <;> trivial
  · rename_i cell resume outcome at_
    cases moved
    cases outcome with
    | returned => cases resume <;> trivial
    | panicked | aborted => trivial
  · cases moved
    by_cases empty : s.actors.isEmpty = true
    · simp only [empty, if_true]
      trivial
    · simp only [empty, Bool.false_eq_true, if_false]
      simpa [InRange, Site.index, List.length_pos_iff] using empty
  · cases moved

theorem step_inRange (inRange : InRange s.actors.length s.pc)
    (moved : s.step policy input = some t) : InRange t.actors.length t.pc := by
  rcases step_cases moved with moved | moved
  · cases input with
    | sendAdd actor factory restartPolicy | sendShutdown | disconnect =>
        obtain ⟨-, rfl⟩ := guarded moved
        exact inRange
    | _ => cases moved
  · exact loopStep_inRange inRange moved

/-- The loop has a next step whatever the party it waits for answers: user code, a destructor, its
    mailbox, the clock, or nobody. -/
def Core.GoesOn (policy : Policy) (s : Core A M) : Prop :=
  (∀ after outcome, (s.loopStep policy (.ran after outcome)).isSome = true) ∨
    (∀ outcome, (s.loopStep policy (.dropped outcome)).isSome = true) ∨
    (∀ msg, (s.loopStep policy (.received msg)).isSome = true) ∨
    (∀ verdict, (s.loopStep policy (.closedAndEmpty verdict)).isSome = true) ∨
    (∀ time, (s.loopStep policy (.now time)).isSome = true) ∨
    (s.loopStep policy .internal).isSome = true

/-- Inside `poll_one` the loop goes on with every step of it. -/
theorem goesOn_of_poll {site : Site} {pc : PollPc A M} (at_ : s.pc = .poll site pc)
    (inside : site.index < s.actors.length) : s.GoesOn policy := by
  have found := List.getElem?_eq_getElem inside
  cases pc with
  | recv =>
      refine .inr (.inr (.inl fun msg => ?_))
      cases msg <;> simp [Core.loopStep, at_, found, pollStep]
  | handle msg | make | onRestart fresh =>
      refine .inl fun after outcome => ?_
      cases outcome <;> simp [Core.loopStep, at_, found, pollStep]
  | broken =>
      cases supervised : s.actors[site.index].factory with
      | false =>
          refine .inr (.inr (.inr (.inr (.inr ?_))))
          simp [Core.loopStep, at_, found, pollStep, supervised]
      | true =>
          refine .inr (.inr (.inr (.inr (.inl fun time => ?_))))
          simp only [Core.loopStep, at_, found, pollStep, supervised, if_true, Option.bind_some,
            Option.isSome_map]
          split <;> rfl
  | replace fresh =>
      refine .inr (.inl fun outcome => ?_)
      cases outcome <;> simp [Core.loopStep, at_, found, pollStep]
  | returned outcome =>
      refine .inr (.inr (.inr (.inr (.inr ?_))))
      simp [Core.loopStep, at_, found]

/-- A loop that is neither over nor dead goes on. -/
theorem goesOn_of_alive (inRange : InRange s.actors.length s.pc) (alive : s.pc.dead = false) :
    s.pc = .exited ∨ s.GoesOn policy := by
  cases at_ : s.pc with
  | exited => exact .inl rfl
  | unwound | aborted => simp [at_, Pc.dead] at alive
  | poll site pc =>
      rw [at_] at inRange
      exact .inr (goesOn_of_poll at_ inRange)
  | start cell | stop cell resume =>
      exact .inr (.inl fun after outcome => by simp [Core.loopStep, at_])
  | drop cell resume => exact .inr (.inr (.inl fun outcome => by simp [Core.loopStep, at_]))
  | detach i =>
      rw [at_] at inRange
      have found := List.getElem?_eq_getElem inRange
      exact .inr (.inr (.inl fun outcome => by simp [Core.loopStep, at_, found]))
  | closedCheck i =>
      rw [at_] at inRange
      have found := List.getElem?_eq_getElem inRange
      exact .inr (.inr (.inr (.inr (.inl fun verdict => by simp [Core.loopStep, at_, found]))))
  | control | visit i | drain =>
      exact .inr (.inr (.inr (.inr (.inr (.inr (by simp [Core.loopStep, at_]))))))

/-! ### Harmless steps do not kill the core -/

theorem pollStep_lives (policy : Policy) {cell : Cell A} {pc : PollPc A M} {next : PollNext A M}
    (calm : ∀ outcome, input = .dropped outcome → outcome = .returned)
    (unaborted : ∀ after outcome, input = .ran after outcome → outcome ≠ .aborted)
    (counted : pc = .broken → ∀ time, input = .now time →
      (allowRestart policy.overflowChecks cell.restartPolicy cell.restarts time).isSome = true)
    (stepped : pollStep policy.overflowChecks cell pc input = some next) :
    ∃ cell' pc' events, next = .goOn cell' pc' events := by
  unfold pollStep at stepped
  split at stepped
  · cases stepped
    exact ⟨_, _, _, rfl⟩
  · cases stepped
    exact ⟨_, _, _, rfl⟩
  · rename_i msg after outcome
    cases outcome with
    | returned | panicked =>
        cases stepped
        exact ⟨_, _, _, rfl⟩
    | aborted => exact absurd rfl (unaborted after _ rfl)
  · split at stepped
    · cases stepped
    · cases stepped
      exact ⟨_, _, _, rfl⟩
  · rename_i time
    split at stepped
    · have counted := counted rfl time rfl
      split at stepped
      · rename_i overflow
        rw [overflow] at counted
        cases counted
      · cases stepped
        exact ⟨_, _, _, rfl⟩
    · cases stepped
  · rename_i fresh outcome
    cases outcome with
    | returned | panicked =>
        cases stepped
        exact ⟨_, _, _, rfl⟩
    | aborted => exact absurd rfl (unaborted fresh _ rfl)
  · rename_i fresh after outcome
    cases outcome with
    | returned | panicked =>
        cases stepped
        exact ⟨_, _, _, rfl⟩
    | aborted => exact absurd rfl (unaborted after _ rfl)
  · rename_i fresh outcome
    cases calm outcome rfl
    cases stepped
    exact ⟨_, _, _, rfl⟩
  · cases stepped

theorem loopStep_lives (harmless : Harmless policy s input) (alive : s.pc.dead = false)
    (moved : s.loopStep policy input = some t) : t.pc.dead = false := by
  unfold Core.loopStep at moved
  split at moved
  · cases moved
    unfold Core.recvControl
    split
    · rfl
    · exact alive
    · rfl
  · rename_i cell after outcome at_
    cases moved
    cases outcome with
    | returned | panicked => rfl
    | aborted => exact absurd rfl harmless
  · cases moved
    unfold Core.visited
    split
    · rfl
    · split <;> rfl
  · rename_i site outcome at_
    obtain ⟨cell, found, rfl⟩ := Option.map_eq_some_iff.1 moved
    cases site with
    | first i | batch i left =>
        cases outcome with
        | worked =>
            simp only [Core.polled, Core.batchNext]
            split <;> rfl
        | empty | panicked => rfl
    | drain => cases outcome <;> rfl
  · rename_i site pc at_ _
    obtain ⟨cell, found, rest⟩ := Option.bind_eq_some_iff.1 moved
    obtain ⟨next, stepped, rfl⟩ := Option.map_eq_some_iff.1 rest
    obtain ⟨cell', pc', events, rfl⟩ := pollStep_lives policy
      (by rintro outcome rfl; exact harmless) (by rintro after outcome rfl; exact harmless)
      (by rintro rfl time rfl; rw [Harmless, at_] at harmless; exact harmless cell found) stepped
    rfl
  · obtain ⟨cell, found, rfl⟩ := Option.map_eq_some_iff.1 moved
    split <;> rfl
  · rename_i i outcome at_
    obtain ⟨cell, found, rfl⟩ := Option.map_eq_some_iff.1 moved
    cases (harmless : outcome = .returned)
    rfl
  · rename_i cell resume after outcome at_
    cases moved
    have whole : outcome ≠ .aborted := harmless
    simp only [Core.stopped, whole, if_false]
    rfl
  · rename_i cell resume outcome at_
    cases moved
    cases (harmless : outcome = .returned)
    cases resume <;> rfl
  · cases moved
    by_cases empty : s.actors.isEmpty = true
    · simp only [empty, if_true]
      rfl
    · simp only [empty, Bool.false_eq_true, if_false]
      rfl
  · cases moved

theorem step_lives (harmless : Harmless policy s input) (alive : s.pc.dead = false)
    (moved : s.step policy input = some t) : t.pc.dead = false := by
  rcases step_cases moved with moved | moved
  · rw [(environment_frame moved).1]
    exact alive
  · exact loopStep_lives harmless alive moved

/-! ### Who is scheduled -/

/-- An actor that has ended has left. -/
theorem Life.left_of_ended {log : List (Entry A M)} {phase : Phase} (life : Life log phase)
    (ended : phase = .stopped ∨ phase = .detached ∨ ∃ i, phase = .stopping i) :
    ∃ e ∈ log, ∃ why, e.event = .left why := by
  cases life with
  | leaves => exact ⟨_, List.mem_append_right _ (List.mem_singleton.2 rfl), _, rfl⟩
  | detached => exact ⟨_, List.mem_append_right _ (List.mem_singleton.2 rfl), _, rfl⟩
  | stopped life =>
      obtain ⟨id, why, -, last⟩ := life.left_of_stopping
      exact ⟨_, List.mem_append_left _ (List.mem_of_getLast? last), why, rfl⟩
  | _ => simp at ended

theorem Life.nil_of_added {log : List (Entry A M)} (life : Life log .added) : log = [] := by
  cases life
  rfl

/-- An actor that has started and has not left is one of the core's actors. -/
theorem scheduled_of_placed (placed : LivesPlaced s) {id : Nat}
    (started : ∃ e ∈ s.trace id, ∃ a, e.event = .onStart a .returned)
    (stays : ∀ e ∈ s.trace id, ∀ why, e.event ≠ .left why) : ∃ cell ∈ s.actors, cell.id = id := by
  have unended : ∀ phase, Life (s.trace id) phase →
      ¬ (phase = .stopped ∨ phase = .detached ∨ ∃ i, phase = .stopping i) := by
    intro phase life ended
    obtain ⟨e, member, why, left⟩ := life.left_of_ended ended
    exact stays e member why left
  obtain ⟨first, member, -⟩ := started
  have begun : ¬ Life (s.trace id) .added := fun life => by
    rw [life.nil_of_added] at member
    cases member
  have there : id ∈ s.ids := by
    by_contra absent
    by_cases known : id < s.sent
    · rcases placed.gone id known absent with stopped | detached
      · exact unended _ stopped (.inl rfl)
      · exact unended _ detached (.inr (.inl rfl))
    · rw [placed.unknown id (by omega)] at member
      cases member
  obtain ⟨⟨cell, loc⟩, spot, rfl⟩ := Multiset.mem_map.1 there
  have life := placed.present _ spot
  rcases cell_cases spot with ⟨rfl, -⟩ | ⟨rfl, -⟩ | ⟨actor, -⟩
  · exact absurd life begun
  · exact absurd (.inr (.inr ⟨_, rfl⟩)) (unended _ life)
  · exact ⟨cell, actor, rfl⟩

/-! ### Containment -/

/-- No panic has left the core loop, the loop goes on, and every actor that has started and has not
    left by its own doing is still scheduled. -/
structure Contained (policy : Policy) (s : Core A M) : Prop where
  alive : s.pc ≠ .unwound ∧ s.pc ≠ .aborted
  goesOn : s.pc = .exited ∨ s.GoesOn policy
  scheduled : ∀ id, (∃ e ∈ s.trace id, ∃ a, e.event = .onStart a .returned) →
    (∀ e ∈ s.trace id, ∀ why, e.event ≠ .left why) → ∃ cell ∈ s.actors, cell.id = id

/-- In every run whose destructors behave, user code cannot kill its core. -/
theorem contained_of_run (run : CoreRuns policy (Harmless policy) s) : Contained policy s := by
  obtain ⟨life, inRange, alive⟩ := run.invariant
    (P := fun s => LifeInv s ∧ InRange s.actors.length s.pc ∧ s.pc.dead = false)
    ⟨LifeInv.new, trivial, rfl⟩ fun u input v inv harmless moved =>
      ⟨inv.1.step moved, step_inRange inv.2.1 moved, step_lives harmless inv.2.2 moved⟩
  refine ⟨⟨?_, ?_⟩, goesOn_of_alive inRange alive, fun id started stays => ?_⟩
  · intro at_
    rw [at_] at alive
    cases alive
  · intro at_
    rw [at_] at alive
    cases alive
  · exact scheduled_of_placed (life.placed alive) started stays

/-- Two actors; the first one's `handle` panics and it is about to be dropped. -/
def twoActorInputs : List (Input Nat Nat) :=
  [.sendAdd 0 false .never, .sendAdd 10 false .never, .internal, .ran 1 .returned, .internal,
    .ran 11 .returned, .internal, .internal, .received (some 7), .ran 2 .panicked, .internal,
    .internal]

/-- The state after the first actor was dropped and the core went to `pc`. -/
def oneActorLeft (pc : Pc Nat Nat) : Core Nat Nat where
  controls := []
  connected := true
  actors := [{ id := 1, actor := 11, factory := false, restartPolicy := .never }]
  shuttingDown := false
  pc := pc
  log :=
    [⟨0, 0, .onStart 0 .returned⟩, ⟨1, 0, .onStart 10 .returned⟩, ⟨0, 0, .handle 1 7 .panicked⟩,
      ⟨0, 0, .left .detached⟩]
  sent := 2
  sentBefore := none

theorem contained_of_oneActorLeft :
    CoreRuns samplePolicy (Harmless samplePolicy) (oneActorLeft (.visit 0)) ∧
      Contained samplePolicy (oneActorLeft (.visit 0)) := by
  have run : CoreRuns samplePolicy (Harmless samplePolicy) (oneActorLeft (.visit 0)) := by
    refine reach_of_exec_ok ?_ (show exec (Core.step samplePolicy) Core.new
      (twoActorInputs ++ [.dropped .returned]) = some (oneActorLeft (.visit 0)) from rfl)
    simp [twoActorInputs, Harmless]
  exact ⟨run, contained_of_run run⟩

/-- A destructor that panics outside the panic boundaries kills the core: the other actor has started
    and has not left, and the core thread is dead for good. -/
theorem core_dies_of_destructor :
    CoreRuns samplePolicy Free (oneActorLeft .unwound) ∧
      ∀ s, Reach (Core.step samplePolicy) Free (oneActorLeft .unwound) s → s.pc = .unwound := by
  refine ⟨reach_of_exec (show exec (Core.step samplePolicy) Core.new
    (twoActorInputs ++ [.dropped .panicked]) = some (oneActorLeft .unwound) from rfl), ?_⟩
  intro s later
  refine later.invariant (P := fun s => s.pc = .unwound) rfl fun u input v dead _ moved => ?_
  rcases step_cases moved with moved | moved
  · rw [(environment_frame moved).1]
    exact dead
  · have alive := alive_of_loopStep moved
    rw [dead] at alive
    cases alive

end AetherFlow.System
