/-
Module: AetherFlow.System.Shutdown
Purpose: What `System::shutdown` does with messages that were accepted before it. The drain stops at the
  first empty `try_recv`, and `try_recv` reports empty while the producer of the next position has
  reserved it and not yet published its message, whatever is published behind it. In every run in
  which the drain never meets such a gap, every message whose send had returned is handled.
Trusted boundary: none
Main exports: Mailbox.HeadFirst, Undisturbed, Lossless, lossless_of_run, shutdown_loses_message
-/
import AetherFlow.System.Node

namespace AetherFlow.System

open Transition Mpsc

variable {w k : Nat} {A M T : Type*}

/-! ### The condition -/

/-- When some message waits published, so does the first one in line. -/
def HeadFirst (s : Mailbox w T) : Prop :=
  (∃ m ∈ s.accepted.drop s.taken.length, stageOf s.calls m.call = .published) →
    ∃ m ∈ s.accepted[s.taken.length]?, stageOf s.calls m.call = .published

/-- `dequeue` is about to look whether the next position is published. -/
def looks : ConsumerPc w M → Bool
  | .dequeue (.loadSeq _) => true
  | _ => false

/-- No destructor kills the core, no call is lapped, and when the drain looks at the mailbox no
    message is published behind a position that is reserved and not yet published. -/
def Undisturbed (policy : Policy) (s : Node w A T) : NodeAct A T → Prop
  | .core input => Harmless policy s.core input
  | .send a => NotLapped s.box a
  | .recv _ => s.core.pc.draining = true → looks s.box.consumer = true → HeadFirst s.box

instance (s : Mailbox w T) : Decidable (HeadFirst s) :=
  inferInstanceAs (Decidable ((∃ _ ∈ _, _) → ∃ _ ∈ _, _))

instance (policy : Policy) (s : Node w A T) (a : NodeAct A T) :
    Decidable (Undisturbed policy s a) :=
  match a with
  | .core _ => inferInstanceAs (Decidable (Harmless _ _ _))
  | .send _ => inferInstanceAs (Decidable (NotLapped _ _))
  | .recv _ => inferInstanceAs (Decidable (_ → _ → HeadFirst _))

/-! ### Runs of the core and of the mailbox -/

section Runs

variable {policy : Policy} {target capacity : Nat} {s t : Node w A T}

theorem NodeRuns.step {ok : Node w A T → NodeAct A T → Prop}
    (run : NodeRuns policy target ok capacity s) {a : NodeAct A T} (met : ok s a)
    (moved : s.step policy target a = some t) : NodeRuns policy target ok capacity t := by
  obtain ⟨q, made, reached⟩ := run
  exact ⟨q, made, reached.tail met moved⟩

/-- The core's steps on the `Receiver` reserve nothing. -/
theorem notLapped_of_receives {a : Act T} (receives : s.receives target a = true) :
    NotLapped s.box a := by
  cases a with
  | enqueue c => cases receives
  | _ => trivial

/-- A node's mailbox is a mailbox. -/
theorem box_of_step {a : NodeAct A T} (met : Undisturbed policy s a)
    (moved : s.step policy target a = some t) : Reach Mailbox.step NotLapped s.box t.box := by
  obtain ⟨input, rfl, -, -, box⟩ | ⟨act, rfl, -, -, moved, -⟩ | ⟨act, rfl, -, receives, moved, -⟩ |
    ⟨input, rfl, -, receives, moved, -⟩ := Node.step_cases moved
  · rw [box]
    exact Reach.refl _
  · exact Reach.single met moved
  · exact Reach.single (notLapped_of_receives receives) moved
  · exact Reach.single (notLapped_of_receives receives) moved

/-- A node's core is a core. -/
theorem core_of_step {a : NodeAct A T} (met : Undisturbed policy s a)
    (moved : s.step policy target a = some t) :
    Reach (Core.step policy) (Harmless policy) s.core t.core := by
  obtain ⟨input, rfl, -, moved, -⟩ | ⟨act, rfl, -, -, -, core⟩ | ⟨act, rfl, -, -, -, core, -⟩ |
    ⟨input, rfl, -, -, -, told, moved⟩ := Node.step_cases moved
  · exact Reach.single met moved
  · rw [core]
    exact Reach.refl _
  · rw [core]
    exact Reach.refl _
  · refine Reach.single (a := input) ?_ moved
    cases at_ : t.box.consumer with
    | dequeue pc =>
        rw [at_] at told
        cases pc <;> cases told
        trivial
    | closedAndEmpty verdict =>
        rw [at_] at told
        cases told
        trivial
    | _ => simp [at_, answer] at told

theorem NodeRuns.box (run : NodeRuns policy target (Undisturbed policy) capacity s) :
    Runs NotLapped capacity s.box := by
  obtain ⟨q, made, reached⟩ := run
  exact ⟨q, made, reached.project Node.box fun _ _ _ met moved => box_of_step met moved⟩

theorem NodeRuns.core (run : NodeRuns policy target (Undisturbed policy) capacity s) :
    CoreRuns policy (Harmless policy) s.core := by
  obtain ⟨q, -, reached⟩ := run
  exact reached.project Node.core fun _ _ _ met moved => core_of_step met moved

end Runs

/-! ### What the drain's last look says -/

/-- A message once published stays so. -/
theorem published_of_step {s t : Mailbox w T} (handles : HandleInv s) {a : Act T} {c : Nat}
    (published : stageOf s.calls c = .published) (moved : s.step a = some t) :
    stageOf t.calls c = .published := by
  have there : (s.calls c).isSome = true := by
    cases found : s.calls c with
    | none => simp [stageOf, found] at published
    | some call => rfl
  obtain ⟨calls, -, -⟩ | ⟨_, _, _, _, -, calls, -⟩ | ⟨d, call, pc, found, running, -, calls, -⟩ :=
    step_calls_cases moved
  · rw [calls]
    exact published
  · have old : c ≠ s.issued := ((handles.issued c).2 there).ne
    rw [calls, stageOf_update, Function.update_of_ne old]
    exact published
  · have other : c ≠ d := by
      rintro rfl
      rw [stageOf_eq found] at published
      cases at_ : call.pc with
      | returned result =>
          cases result with
          | ok => cases kind : call.kind <;> simp [Call.finished, at_, kind] at running
          | error e => simp [at_, EnqueuePc.stage] at published
      | _ => simp [at_, EnqueuePc.stage] at published
    rw [calls, stageOf_update, Function.update_of_ne other]
    exact published

/-- `try_recv` gives up only at its look at the next position. -/
theorem look_of_empty {s t : Mailbox w T} (running : s.teardown = false)
    (moved : s.consumerStep = some t) (empty : t.consumer = .dequeue (.returned none)) :
    ∃ pos, s.consumer = .dequeue (.loadSeq pos) ∧
      Word.signedGap (s.q.slot pos).seq (pos + 1) < 0 := by
  obtain ⟨_, _, teardown, rfl⟩ | ⟨pc, q, pc', at_, stepped, rfl⟩ | ⟨_, rfl⟩ | ⟨_, rfl⟩ |
    ⟨_, _, rfl⟩ := Mailbox.consumerStep_cases moved
  · rw [running] at teardown
    cases teardown
  · cases pc with
    | loadSeq pos =>
        refine ⟨pos, at_, ?_⟩
        simp only [dequeueStep, Option.some.injEq, Prod.mk.injEq] at stepped
        simp only [Mailbox.afterDequeue, ConsumerPc.dequeue.injEq] at empty
        rw [empty] at stepped
        obtain ⟨-, result⟩ := stepped
        split at result
        · cases result
        · split at result
          · assumption
          · cases result
    | cas pos =>
        simp only [dequeueStep] at stepped
        split at stepped <;> cases stepped <;> cases empty
    | read pos =>
        simp only [dequeueStep] at stepped
        split at stepped <;> cases stepped <;> cases empty
    | _ => cases stepped <;> cases empty
  · dsimp only at empty
    split at empty <;> cases empty
  · cases empty
  · cases empty

/-- When the first position in line is published if any is, an empty `try_recv` leaves no published
    message behind. -/
theorem received_of_look {s t : Mailbox w T} (inv : Inv k s) (fits : k < w)
    (running : s.teardown = false) (moved : s.consumerStep = some t)
    (empty : t.consumer = .dequeue (.returned none))
    (first : looks s.consumer = true → HeadFirst s) {m : Msg T} (member : m ∈ s.accepted)
    (published : stageOf s.calls m.call = .published) : m ∈ s.received := by
  obtain ⟨pos, at_, negative⟩ := look_of_empty running moved empty
  have word : pos = BitVec.ofNat w s.taken.length := by
    have ok := inv.consumer
    rwa [at_] at ok
  have taken : s.taken = s.received := by
    rw [Mailbox.taken, inv.undropped running, List.append_nil]
  have split : s.accepted = s.taken ++ s.accepted.drop s.taken.length :=
    List.prefix_iff_eq_append.1 inv.taken |>.symm
  rw [split, List.mem_append] at member
  rcases member with old | waiting
  · rwa [taken] at old
  · obtain ⟨head, at_head, ready⟩ := first (by rw [at_]; rfl) ⟨m, waiting, published⟩
    rw [word, inv.head_gap_of_ready fits ⟨head, at_head, ready⟩] at negative
    exact absurd negative (by decide)

/-! ### A detached actor has panicked -/

/-- `on_start` or `handle` panicked. -/
def Event.fails : Event A M → Bool
  | .onStart _ .panicked | .handle _ _ .panicked => true
  | _ => false

/-- Phases an actor reaches by a panic only. -/
def Phase.hurt : Phase → Bool
  | .broken _ | .made _ | .failed | .detached => true
  | _ => false

theorem Life.fails_of_hurt {log : List (Entry A M)} {phase : Phase} (life : Life log phase)
    (hurt : phase.hurt = true ∨ ∃ e ∈ log, e.event = .left .detached) :
    ∃ e ∈ log, e.event.fails = true := by
  -- An event that is no removal of a failed actor leaves the panic where it was.
  have earlier : ∀ {log : List (Entry A M)} {last : Entry A M}, last.event ≠ .left .detached →
      ((∃ e ∈ log, e.event = .left .detached) → ∃ e ∈ log, e.event.fails = true) →
      (∃ e ∈ log ++ [last], e.event = .left .detached) →
      ∃ e ∈ log ++ [last], e.event.fails = true := by
    rintro log last other before ⟨e, member, left⟩
    rcases List.mem_append.1 member with old | new
    · obtain ⟨e', member', fails⟩ := before ⟨e, old, left⟩
      exact ⟨e', List.mem_append_left _ member', fails⟩
    · rw [List.mem_singleton.1 new] at left
      exact absurd left other
  induction life with
  | added => simp [Phase.hurt] at hurt
  | started => simp [Phase.hurt] at hurt
  | startFailed => exact ⟨_, List.mem_singleton.2 rfl, rfl⟩
  | handled _ inductionHypothesis =>
      exact earlier (by simp) (inductionHypothesis ∘ .inr) (by simpa [Phase.hurt] using hurt)
  | broke => exact ⟨_, List.mem_append_right _ (List.mem_singleton.2 rfl), rfl⟩
  | gaveUp _ inductionHypothesis => exact inductionHypothesis (.inl rfl)
  | made _ inductionHypothesis | makeFailed _ inductionHypothesis
  | restarted _ inductionHypothesis | restartFailed _ inductionHypothesis
  | detached _ inductionHypothesis =>
      obtain ⟨e, member, fails⟩ := inductionHypothesis (.inl rfl)
      exact ⟨e, List.mem_append_left _ member, fails⟩
  | leaves clean _ inductionHypothesis =>
      exact earlier (by simpa using clean) (inductionHypothesis ∘ .inr)
        (by simpa [Phase.hurt] using hurt)
  | stopped _ inductionHypothesis =>
      exact earlier (by simp) (inductionHypothesis ∘ .inr) (by simpa [Phase.hurt] using hurt)

/-! ### Up to the call of `shutdown` -/

section Phases

variable {policy : Policy} {target capacity : Nat} {s t : Node w A T} {m : Msg T}

/-- The `Receiver` is held by its cell, so `Queue::drop` is not running. -/
theorem running_of_held {box : Mailbox w T} (handles : HandleInv box) (held : box.receiver = .held) :
    box.teardown = false := by
  rw [← Bool.not_eq_true, handles.teardown, handles.strong, held]
  simp

theorem NodeRuns.alive (run : NodeRuns policy target (Undisturbed policy) capacity s) :
    s.core.pc.dead = false := by
  have contained := contained_of_run run.core
  cases at_ : s.core.pc with
  | unwound => exact absurd at_ contained.alive.1
  | aborted => exact absurd at_ contained.alive.2
  | _ => rfl

theorem down_of_step {s t : Core A M} {input : Input A M} (down : s.shuttingDown = true)
    (moved : s.step policy input = some t) : t.shuttingDown = true := by
  rcases step_cases moved with moved | moved
  · rw [(environment_frame moved).2.2.2]
    exact down
  · obtain ⟨-, rfl⟩ | ⟨⟨-, -, same, -⟩, -⟩ := loopStep_frame moved
    · unfold Core.recvControl
      split
      · exact down
      · rfl
      · simp [down]
    · rw [same]
      exact down

/-- Nothing is left for the actor and nothing can come any more, or the loop is shutting down. -/
def Done (s : Node w A T) : Prop :=
  s.core.shuttingDown = true ∨ (s.box.Closed ∧ ∀ m ∈ s.box.accepted, m ∈ s.box.received)

theorem Done.step (done : Done s) (handles : HandleInv s.box) {a : NodeAct A T}
    (met : Undisturbed policy s a) (moved : s.step policy target a = some t) : Done t := by
  rcases done with down | ⟨closed, all⟩
  · refine .inl ?_
    exact (core_of_step met moved).invariant (P := fun core => core.shuttingDown = true) down
      fun _ _ _ down _ moved => down_of_step down moved
  · refine .inr ?_
    exact ((box_of_step met moved).invariant
      (P := fun box => HandleInv box ∧ box.Closed ∧ ∀ m ∈ box.accepted, m ∈ box.received)
      ⟨handles, closed, all⟩ fun u b v kept _ moved => by
        obtain ⟨handles, closed, all⟩ := kept
        refine ⟨handles.step moved, closed.step moved, fun m member => ?_⟩
        rw [closed.step_accepted handles moved] at member
        exact (Mailbox.step_later moved).received.subset (all m member)).2

/-- In every run an actor that is stopped before the drain has received everything. -/
theorem NodeRuns.coupled (run : NodeRuns policy target (Undisturbed policy) capacity s)
    (two : 2 ≤ capacity) : Coupled target (Done s) s := by
  obtain ⟨q, made, reached⟩ := run
  refine (reached.invariant
    (P := fun s => NodeRuns policy target (Undisturbed policy) capacity s ∧ Coupled target (Done s) s)
    ⟨⟨q, made, Reach.refl _⟩, Coupled.new q⟩ ?_).2
  rintro u a v ⟨run, coupled⟩ met moved
  have run' := run.step met moved
  have keeps : Done u → Done v := fun done => done.step run.box.handles met moved
  refine ⟨run', coupled.step moved (running_of_held run.box.handles) run'.alive keeps ?_ ?_⟩
  · intro verdict
    have removal := run'.box.removal two
    refine .inr ⟨removal.closed (by rw [verdict]; rfl), fun m member => ?_⟩
    rwa [removal.drained verdict]
  · intro at_ _ _ _
    exact keeps (.inl (run.core.exits.drains (by rw [at_]; rfl)))

/-! ### From the call of `shutdown` on -/

/-- What is known of a message whose send had returned when `shutdown` was called. -/
structure DrainInv (target : Nat) (m : Msg T) (s : Node w A T) : Prop where
  coupled : Coupled target (m ∈ s.box.received) s
  accepted : m ∈ s.box.accepted
  published : stageOf s.box.calls m.call = .published
  emptied : s.core.pc = .poll .drain (.returned .empty) → ∀ cell, s.core.actors[0]? = some cell →
    cell.id = target → m ∈ s.box.received
  due : target < s.core.sentBefore.getD s.core.sent

/-- When the drain has just found the target's mailbox empty, the message was received. -/
theorem emptied_of_step (inv : DrainInv target m s)
    (run : NodeRuns policy target (Undisturbed policy) capacity s) (two : 2 ≤ capacity)
    {a : NodeAct A T} (met : Undisturbed policy s a) (moved : s.step policy target a = some t)
    (keeps : m ∈ s.box.received → m ∈ t.box.received)
    (at_ : t.core.pc = .poll .drain (.returned .empty)) {cell : Cell A}
    (found : t.core.actors[0]? = some cell) (mine : cell.id = target) : m ∈ t.box.received := by
  -- A step that leaves the core where it is, or is made by another thread on the control channel.
  have same : t.core.pc = s.core.pc → t.core.actors = s.core.actors → m ∈ t.box.received := by
    intro pc actors
    rw [pc] at at_
    rw [actors] at found
    exact keeps (inv.emptied at_ cell found mine)
  obtain ⟨input, rfl, allowed, moved, -⟩ | ⟨act, rfl, -, -, -, core⟩ | ⟨act, rfl, -, -, -, core, -⟩ |
    ⟨input, rfl, -, receives, stepped, told, moved⟩ := Node.step_cases moved
  · rcases step_cases moved with sent | moved
    · obtain ⟨pc, -, actors, -⟩ := environment_frame sent
      exact same pc actors
    · obtain ⟨recv, rfl, actors⟩ := emptied_of_loopStep moved at_
      rw [actors] at found
      simp [Node.allows, Core.receives, recv, Site.index, found, mine] at allowed
  · exact same (by rw [core]) (by rw [core])
  · exact same (by rw [core]) (by rw [core])
  · rcases step_cases moved with sent | moved
    · obtain ⟨pc, -, actors, -⟩ := environment_frame sent
      exact same pc actors
    · obtain ⟨recv, rfl, -⟩ := emptied_of_loopStep moved at_
      have empty : t.box.consumer = .dequeue (.returned none) := by
        cases returned : t.box.consumer with
        | dequeue pc => cases pc <;> simp [returned, answer] at told ⊢; exact told
        | _ => simp [returned, answer] at told
      obtain ⟨k, -, fits, -, ring⟩ := run.box.inv two
      have held : s.box.receiver = .held := by
        simp only [Node.receives, Bool.and_eq_true, beq_iff_eq] at receives
        exact receives.1
      exact keeps (received_of_look ring fits (running_of_held run.box.handles held) stepped empty
        (met (by rw [recv]; rfl)) inv.accepted inv.published)

theorem DrainInv.step (inv : DrainInv target m s)
    (run : NodeRuns policy target (Undisturbed policy) capacity s) (two : 2 ≤ capacity)
    {a : NodeAct A T} (met : Undisturbed policy s a) (moved : s.step policy target a = some t) :
    DrainInv target m t := by
  have run' := run.step met moved
  have keeps : m ∈ s.box.received → m ∈ t.box.received := fun received =>
    (box_of_step met moved).invariant (P := fun box => m ∈ box.received) received
      fun _ _ _ received _ moved => (Mailbox.step_later moved).received.subset received
  obtain ⟨-, accepted, published⟩ := (box_of_step met moved).invariant
    (P := fun box => HandleInv box ∧ m ∈ box.accepted ∧ stageOf box.calls m.call = .published)
    ⟨run.box.handles, inv.accepted, inv.published⟩ fun _ _ _ kept _ moved =>
      ⟨kept.1.step moved, (Mailbox.step_later moved).accepted.subset kept.2.1,
        published_of_step kept.1 kept.2.2 moved⟩
  refine ⟨?_, accepted, published, ?_, ?_⟩
  · refine inv.coupled.step moved (running_of_held run.box.handles) run'.alive keeps ?_ ?_
    · intro verdict
      rwa [(run'.box.removal two).drained verdict]
    · intro at_ cell found mine
      exact keeps (inv.emptied at_ cell found mine)
  · intro at_ cell found mine
    exact emptied_of_step inv run two met moved keeps at_ found mine
  · exact (core_of_step met moved).invariant
      (P := fun core => target < core.sentBefore.getD core.sent) inv.due
      fun _ _ _ due _ moved => due_of_step due moved

/-! ### No message is lost -/

/-- `System::shutdown` has not been called. -/
def Core.Up (s : Core A M) : Prop := s.connected = true ∧ s.sentBefore = none

/-- The thread is over, so that its `join` returns. -/
def Pc.joined : Pc A M → Bool
  | .exited | .unwound => true
  | _ => false

/-- Every message whose send has returned `Ok`, when `shutdown` is called only later, is handled by the
    time the core thread is joined, unless the actor's `on_start` or `handle` panics. -/
def Lossless (policy : Policy) (target : Nat) (ok : Node w A T → NodeAct A T → Prop)
    (s : Node w A T) : Prop :=
  s.core.Up → ∀ c call, s.box.calls c = some call → call.pc = .returned (.ok ()) →
    ∀ t, Reach (Node.step policy target) ok s t → t.core.pc.joined = true →
      (∀ e ∈ t.core.trace target, e.event.fails = false) →
      { call := c, body := call.body } ∈ handledOf (t.core.trace target)

/-- The message of a call that has returned, at the time `shutdown` is called. -/
theorem DrainInv.of_returned (run : NodeRuns policy target (Undisturbed policy) capacity s)
    (two : 2 ≤ capacity) (up : s.core.Up) {c : Nat} {call : Call w T}
    (found : s.box.calls c = some call) (ok : call.pc = .returned (.ok ())) :
    DrainInv target { call := c, body := call.body } s := by
  obtain ⟨connected, unmarked⟩ := up
  obtain ⟨k, -, -, -, ring⟩ := run.box.inv two
  have stage : call.pc.stage = .published := by rw [ok]; rfl
  have accepted := (ring.calls c call found).inside (by simp [stage])
  have running : ¬ s.core.shuttingDown = true := fun down => by
    rw [(run.core.exits.closed down unmarked).1] at connected
    cases connected
  have coupled := run.coupled two
  refine ⟨coupled.weaken fun done => ?_, accepted, ?_, fun at_ => ?_, ?_⟩
  · exact (done.resolve_left running).2 _ accepted
  · rw [stageOf_eq found, stage]
  · exact absurd (run.core.exits.drains (by rw [at_]; rfl)) running
  · rw [unmarked]
    by_contra unsent
    have none_ := (coupled.unsent (by simpa using unsent)).1
    rw [none_] at accepted
    cases accepted

/-- With two slots or more, in every run that no gap in the mailbox and no destructor disturbs,
    shutdown loses no message. -/
theorem lossless_of_run (run : NodeRuns policy target (Undisturbed policy) capacity s)
    (two : 2 ≤ capacity) : Lossless policy target (Undisturbed policy) s := by
  intro up c call found ok t later joined sound
  obtain ⟨run', inv⟩ := later.invariant
    (P := fun s => NodeRuns policy target (Undisturbed policy) capacity s ∧
      DrainInv target { call := c, body := call.body } s)
    ⟨run, .of_returned run two up found ok⟩
    fun u a v kept met moved => ⟨kept.1.step met moved, kept.2.step kept.1 two met moved⟩
  have exited : t.core.pc = .exited := by
    have alive := run'.alive
    cases at_ : t.core.pc with
    | exited => rfl
    | unwound => simp [at_, Pc.dead] at alive
    | _ => simp [at_, Pc.joined] at joined
  have exits := run'.core.exits
  obtain ⟨handled, received | ⟨e, member, detached⟩⟩ := inv.coupled.placed.gone target
    (exits.known_of_due inv.due) (exits.absent_of_due exited inv.due) rfl
  · rwa [handled]
  · obtain ⟨phase, life⟩ := run'.core.life.lives target
    obtain ⟨e', member', fails⟩ := life.fails_of_hurt (.inr ⟨e, member, detached⟩)
    rw [sound e' member'] at fails
    cases fails

end Phases

/-! ### A quiet shutdown and a disturbed one -/

/-- A fresh core and a mailbox of two slots. -/
def sampleNode : Node 64 Nat Nat := Node.new (Queue.new 64 (Msg Nat) 2)

/-- The whole of `try_send` by call `c`. -/
def enqueues (c : Nat) : List (NodeAct Nat Nat) := List.replicate 6 (.send (.enqueue c))

/-- An actor is installed and sent two messages. -/
def quietSends : List (NodeAct Nat Nat) :=
  .core (.sendAdd 0 false .never) :: .send (.call 1 0 .trySend 7) :: enqueues 0 ++
    .send (.call 2 0 .trySend 8) :: enqueues 1

/-- `Shutdown` is sent, the actor is started, and the loop makes its last pass. -/
def shutdownStart : List (NodeAct Nat Nat) :=
  [.core .sendShutdown, .core .internal, .core (.ran 1 .returned), .core .internal, .core .internal,
    .core .internal]

/-- `try_recv` finds a message and `handle` returns. -/
def handles (after : Nat) : List (NodeAct Nat Nat) :=
  .recv .tryRecv :: List.replicate 5 (.recv .consumer) ++ [.core (.ran after .returned), .core .internal]

/-- `try_recv` finds nothing. -/
def findsNone : List (NodeAct Nat Nat) :=
  [.recv .tryRecv, .recv .consumer, .recv .consumer, .core .internal]

/-- The drain stops and drops the actor, and the loop ends. -/
def shutdownEnd : List (NodeAct Nat Nat) :=
  [.core (.ran 3 .returned), .recv .dropReceiver, .recv .releaseReceiver,
    .core (.dropped .returned), .core .internal]

/-- The actor handles one message in the pass and one in the drain. -/
def quietShutdown : List (NodeAct Nat Nat) :=
  shutdownStart ++ handles 2 ++ .core .internal :: .core .internal :: handles 3 ++ findsNone ++
    shutdownEnd

/-- What matters before `shutdown`: the control channel, and call `1`. -/
def sentView (s : Node 64 Nat Nat) :
    Bool × Option Nat × Option (EnqueuePc 64 (Msg Nat) × Nat) :=
  (s.core.connected, s.core.sentBefore, (s.box.calls 1).map fun call => (call.pc, call.body))

/-- A run in two parts: up to the call of `shutdown`, when call `1` has returned `Ok`, and on to the
    end of the thread. -/
theorem parts_of_exec (ok : Node 64 Nat Nat → NodeAct Nat Nat → Prop) [∀ s a, Decidable (ok s a)]
    (sends ends : List (NodeAct Nat Nat)) (trace : List (Entry Nat (Msg Nat)))
    (executed : ((execChecked (Node.step samplePolicy 0) ok sampleNode sends).bind fun s =>
      (execChecked (Node.step samplePolicy 0) ok s ends).map fun t =>
        (sentView s, t.core.pc.joined, t.core.trace 0)) =
      some ((true, none, some (.returned (.ok ()), 8)), true, trace)) :
    ∃ s t call, NodeRuns samplePolicy 0 ok 2 s ∧ s.core.Up ∧ s.box.calls 1 = some call ∧
      call.pc = .returned (.ok ()) ∧ call.body = 8 ∧ Reach (Node.step samplePolicy 0) ok s t ∧
      t.core.pc.joined = true ∧ t.core.trace 0 = trace := by
  obtain ⟨s, sent, rest⟩ := Option.bind_eq_some_iff.1 executed
  obtain ⟨t, final, same⟩ := Option.map_eq_some_iff.1 rest
  simp only [sentView, Prod.mk.injEq] at same
  obtain ⟨⟨connected, unmarked, returned⟩, joined, trace⟩ := same
  obtain ⟨call, found, same⟩ := Option.map_eq_some_iff.1 returned
  simp only [Prod.mk.injEq] at same
  exact ⟨s, t, call, ⟨_, channel_two_pow (k := 1) (by decide), reach_of_execChecked sent⟩,
    ⟨connected, unmarked⟩, found, same.1, same.2, reach_of_execChecked final, joined, trace⟩

theorem lossless_of_quiet : ∃ s t : Node 64 Nat Nat,
    NodeRuns samplePolicy 0 (Undisturbed samplePolicy) 2 s ∧ s.core.Up ∧
      Reach (Node.step samplePolicy 0) (Undisturbed samplePolicy) s t ∧ t.core.pc.joined = true ∧
      { call := 1, body := 8 } ∈ handledOf (t.core.trace 0) := by
  obtain ⟨s, t, call, run, up, found, ok, body, later, joined, trace⟩ :=
    parts_of_exec (Undisturbed samplePolicy) quietSends quietShutdown
      [⟨0, 0, .onStart 0 .returned⟩, ⟨0, 0, .handle 1 ⟨0, 7⟩ .returned⟩,
        ⟨0, 0, .handle 2 ⟨1, 8⟩ .returned⟩, ⟨0, 0, .left .drained⟩, ⟨0, 0, .onStop 3 .returned⟩] rfl
  refine ⟨s, t, run, up, later, joined, ?_⟩
  rw [← body]
  refine lossless_of_run run le_rfl up 1 call found ok t later joined ?_
  rw [trace]
  decide

/-- The first producer stops between its compare-and-swap and its write; the second one's `try_send`
    returns. -/
def disturbedSends : List (NodeAct Nat Nat) :=
  .core (.sendAdd 0 false .never) :: .send (.call 1 0 .trySend 7) ::
    List.replicate 4 (.send (.enqueue 0)) ++ .send (.call 2 0 .trySend 8) :: enqueues 1

/-- Both the pass and the drain find nothing, and the actor still has a `Sender`. -/
def disturbedShutdown : List (NodeAct Nat Nat) :=
  shutdownStart ++ findsNone ++
    [.recv .closedAndEmpty, .recv .consumer, .core .internal, .core .internal] ++ findsNone ++
    shutdownEnd

/-- A producer that has reserved a position and not yet published it hides an accepted message from
    the drain: `shutdown` returns and the message is never handled. -/
theorem shutdown_loses_message : ∃ s : Node 64 Nat Nat, NodeRuns samplePolicy 0 Free 2 s ∧
    ¬ Lossless samplePolicy 0 Free s := by
  obtain ⟨s, t, call, run, up, found, ok, -, later, joined, trace⟩ :=
    parts_of_exec Free disturbedSends disturbedShutdown
      [⟨0, 0, .onStart 0 .returned⟩, ⟨0, 0, .left .drained⟩, ⟨0, 0, .onStop 1 .returned⟩] rfl
  refine ⟨s, run, fun lossless => ?_⟩
  have handled := lossless up 1 call found ok t later joined (by rw [trace]; decide)
  rw [trace] at handled
  cases handled

end AetherFlow.System
