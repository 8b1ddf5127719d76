/-
Module: AetherFlow.System.Node
Purpose: A core thread and the mailbox of one of its actors, put together. The core's `try_recv` and
  `closed_and_empty` on that actor are the atomic steps of `core/src/mpsc.rs`, interleaved with those
  of the senders, and what they return is what the loop goes on with. The actor's log and its mailbox
  then tell the same story: what was handled, with the message in hand, is what was received.
Trusted boundary: human-reviewed transcription of how `core/src/system.rs` uses the `Receiver`
Main exports: Node, NodeAct, Node.step, Node.step_cases, handledOf, Coupled, Coupled.step
-/
import AetherFlow.Mpsc.Removal
import AetherFlow.System.Containment

namespace AetherFlow.System

open Transition Mpsc

variable {w : Nat} {A M T : Type*}

/-! ### The machine -/

/-- The core is in `try_recv` on this cell. -/
def Core.receives (s : Core A M) (id : Nat) : Bool :=
  match s.pc with
  | .poll site .recv => (s.actors[site.index]?).any (·.id == id)
  | _ => false

/-- The core is in `closed_and_empty` on this cell. -/
def Core.checks (s : Core A M) (id : Nat) : Bool :=
  match s.pc with
  | .closedCheck i => (s.actors[i]?).any (·.id == id)
  | _ => false

/-- The core drops this cell, or all the cells it still has when its thread ends. -/
def Core.drops (s : Core A M) (id : Nat) : Bool :=
  match s.pc with
  | .detach i => (s.actors[i]?).any (·.id == id)
  | .drop cell _ => cell.id == id
  | .exited | .unwound => true
  | _ => false

/-- A core and the mailbox of the actor in cell `target`, which is the parameter of the steps. -/
structure Node (w : Nat) (A T : Type*) where
  core : Core A (Msg T)
  box : Mailbox w T

inductive NodeAct (A T : Type*) where
  /-- A step of the core that needs no answer from the mailbox, or of another thread on the control
      channel. -/
  | core (input : Input A (Msg T))
  /-- A step of a thread that has a `Sender`, or of the thread that runs `Queue::drop`. -/
  | send (a : Act T)
  /-- A step of the core on the `Receiver`. -/
  | recv (a : Act T)

/-- What an operation on the `Receiver` that has returned tells the core. -/
def answer : ConsumerPc w (Msg T) → Option (Input A (Msg T))
  | .dequeue (.returned result) => some (.received result)
  | .closedAndEmpty verdict => some (.closedAndEmpty verdict)
  | _ => none

namespace Node

variable (policy : Policy) (target : Nat)

/-- A core thread just spawned; the mailbox is there for the actor to come. -/
def new (q : Queue w (Msg T)) : Node w A T where
  core := Core.new
  box := Mailbox.new q

/-- The mailbox of `target` answers for itself, and the cell is dropped with its `Receiver`. -/
def allows (s : Node w A T) : Input A (Msg T) → Bool
  | .received _ => !s.core.receives target
  | .closedAndEmpty _ => !s.core.checks target
  | .dropped _ => !s.core.drops target || s.box.receiver == .gone
  | _ => true

def sends (s : Node w A T) : Act T → Bool
  | .call _ _ _ _ | .enqueue _ | .enqueueSpurious _ | .cloneStart _ | .cloneFinish _
  | .dropSender _ | .releaseSender => true
  | .consumer | .consumerSpurious => s.box.teardown
  | _ => false

/-- The core uses the `Receiver` inside its cell. -/
def receives (s : Node w A T) : Act T → Bool
  | .tryRecv | .consumerSpurious => s.box.receiver == .held && s.core.receives target
  | .closedAndEmpty => s.box.receiver == .held && s.core.checks target
  | .consumer =>
      s.box.receiver == .held && (s.core.receives target || s.core.checks target)
  | .dropReceiver | .releaseReceiver => s.core.drops target
  | _ => false

/-- The mailbox has gone to `box`. When that ends an operation, the core goes on with its answer. -/
def answered (s : Node w A T) (a : Act T) (box : Mailbox w T) : Option (Node w A T) :=
  match a, answer box.consumer with
  | .consumer, some input => (s.core.step policy input).map fun core => { core, box }
  | _, _ => some { s with box := box }

/-- Nobody has the mailbox before `System::install` has sent its cell. -/
def step (s : Node w A T) : NodeAct A T → Option (Node w A T)
  | .core input =>
      if s.allows target input then
        (s.core.step policy input).map fun core => { s with core := core }
      else
        none
  | .send a =>
      if target < s.core.sent ∧ s.sends a then
        (s.box.step a).map fun box => { s with box := box }
      else
        none
  | .recv a =>
      if target < s.core.sent ∧ s.receives target a then
        (s.box.step a).bind (s.answered policy a)
      else
        none

end Node

/-- The states of a core and of a mailbox made by `channel(capacity)` for its cell `target`, in runs
    whose steps all meet `ok`. -/
def NodeRuns (policy : Policy) (target : Nat) (ok : Node w A T → NodeAct A T → Prop) (capacity : Nat)
    (s : Node w A T) : Prop :=
  ∃ q, channel w (Msg T) capacity = some q ∧ Reach (Node.step policy target) ok (Node.new q) s

section Steps

variable {policy : Policy} {target : Nat} {s t : Node w A T}

/-- A step is one of the core, one of a sender, or one of the core on its `Receiver`, which may end
    an operation. -/
theorem Node.step_cases {a : NodeAct A T} (moved : s.step policy target a = some t) :
    (∃ input, a = .core input ∧ s.allows target input = true ∧
        s.core.step policy input = some t.core ∧ t.box = s.box) ∨
      (∃ act, a = .send act ∧ target < s.core.sent ∧ s.sends act = true ∧
        s.box.step act = some t.box ∧ t.core = s.core) ∨
      (∃ act, a = .recv act ∧ target < s.core.sent ∧ s.receives target act = true ∧
        s.box.step act = some t.box ∧ t.core = s.core ∧
        (act = .consumer → answer (A := A) t.box.consumer = none)) ∨
      ∃ input, a = .recv .consumer ∧ target < s.core.sent ∧ s.receives target .consumer = true ∧
        s.box.consumerStep = some t.box ∧ answer t.box.consumer = some input ∧
        s.core.step policy input = some t.core := by
  cases a with
  | core input =>
      obtain ⟨allowed, enabled⟩ := Option.ite_none_right_eq_some.1 moved
      obtain ⟨core, stepped, rfl⟩ := Option.map_eq_some_iff.1 enabled
      exact .inl ⟨input, rfl, allowed, stepped, rfl⟩
  | send act =>
      obtain ⟨⟨known, sends⟩, enabled⟩ := Option.ite_none_right_eq_some.1 moved
      obtain ⟨box, stepped, rfl⟩ := Option.map_eq_some_iff.1 enabled
      exact .inr (.inl ⟨act, rfl, known, sends, stepped, rfl⟩)
  | recv act =>
      obtain ⟨⟨known, receives⟩, enabled⟩ := Option.ite_none_right_eq_some.1 moved
      obtain ⟨box, stepped, answered⟩ := Option.bind_eq_some_iff.1 enabled
      cases returned : answer (A := A) box.consumer with
      | none =>
          simp only [Node.answered, returned] at answered
          cases answered
          exact .inr (.inr (.inl ⟨act, rfl, known, receives, stepped, rfl, fun _ => returned⟩))
      | some input =>
          by_cases last : act = .consumer
          · subst last
            simp only [Node.answered, returned] at answered
            obtain ⟨core, went, rfl⟩ := Option.map_eq_some_iff.1 answered
            exact .inr (.inr (.inr ⟨input, rfl, known, receives, stepped, returned, went⟩))
          · unfold Node.answered at answered
            split at answered
            · exact absurd rfl last
            · cases answered
              exact .inr (.inr (.inl ⟨_, rfl, known, receives, stepped, rfl,
                fun ends => absurd ends last⟩))

end Steps

/-! ### What a step does to the mailbox's history -/

/-- Nobody but the core receives. -/
theorem Node.received_of_sends {s : Node w A T} {box : Mailbox w T} {a : Act T}
    (sends : s.sends a = true) (moved : s.box.step a = some box) :
    box.received = s.box.received := by
  obtain ⟨-, -, received, -⟩ | ⟨-, rfl | rfl⟩ | ⟨-, received⟩ | ⟨rfl, stepped⟩ | ⟨rfl, stepped⟩ :=
    step_consumer_cases moved
  · exact received
  · rfl
  · rfl
  · exact received
  · have teardown : s.box.teardown = true := sends
    obtain ⟨_, _, _, rfl⟩ | ⟨_, _, _, _, _, rfl⟩ | ⟨_, rfl⟩ | ⟨_, rfl⟩ | ⟨_, _, rfl⟩ :=
      Mailbox.consumerStep_cases stepped
    · rfl
    · simp [Mailbox.afterDequeue, teardown]
    · rfl
    · rfl
    · rfl
  · simp only [Mailbox.consumerSpurious] at stepped
    split at stepped
    · obtain ⟨pc, -, rfl⟩ := Option.map_eq_some_iff.1 stepped
      rfl
    · cases stepped

/-- The message an answer brings. -/
def Input.message : Input A M → List M
  | .received (some msg) => [msg]
  | _ => []

/-- What `try_recv` returns is what the history says was received. -/
theorem received_of_consumerStep {s t : Mailbox w T} (running : s.teardown = false)
    (moved : s.consumerStep = some t) :
    t.received = s.received ++ ((answer (A := A) t.consumer).map Input.message).getD [] := by
  obtain ⟨_, _, teardown, rfl⟩ | ⟨pc, q, pc', _, stepped, rfl⟩ | ⟨_, rfl⟩ | ⟨_, rfl⟩ |
    ⟨_, _, rfl⟩ := Mailbox.consumerStep_cases moved
  · rw [running] at teardown
    cases teardown
  · simp only [Mailbox.afterDequeue, running, Bool.false_eq_true, if_false]
    cases pc with
    | loadPos =>
        cases stepped
        rfl
    | loadSeq pos =>
        simp only [dequeueStep, Option.some.injEq, Prod.mk.injEq] at stepped
        obtain ⟨-, rfl⟩ := stepped
        split
        · rfl
        · split <;> rfl
    | cas pos =>
        simp only [dequeueStep] at stepped
        split at stepped
        · cases stepped
          rfl
        · cases stepped
          rfl
    | read pos =>
        simp only [dequeueStep] at stepped
        split at stepped
        · cases stepped
        · cases stepped
          rfl
        · cases stepped
          rfl
    | storeSeq pos item =>
        cases stepped
        rfl
    | returned result => cases stepped
  · dsimp only
    split <;> simp [answer, Input.message]
  · simp [answer]
  · simp [answer, Input.message]

/-! ### The core's answers from the mailbox -/

section Answers

variable {policy : Policy} {s t : Core A M}

/-- `try_recv` is answered inside `poll_one`. -/
theorem poll_of_received {result : Option M} (moved : s.step policy (.received result) = some t) :
    ∃ site cell cell' pc', s.pc = .poll site .recv ∧ s.actors[site.index]? = some cell ∧
      PollMove policy.overflowChecks cell .recv (.received result) cell' pc' [] ∧
      t = s.pollNext site.index site (.goOn cell' pc' []) := by
  obtain sent | moved := step_cases moved
  · cases sent
  · cases at_ : s.pc with
    | poll site pc =>
        simp only [Core.loopStep, at_] at moved
        obtain ⟨cell, found, rest⟩ := Option.bind_eq_some_iff.1 moved
        obtain ⟨next, stepped, rfl⟩ := Option.map_eq_some_iff.1 rest
        cases pc with
        | recv =>
            cases result with
            | none =>
                cases stepped
                exact ⟨site, cell, _, _, rfl, found, .empty, rfl⟩
            | some msg =>
                cases stepped
                exact ⟨site, cell, _, _, rfl, found, .takes, rfl⟩
        | _ => cases stepped
    | _ => simp [Core.loopStep, at_] at moved

theorem check_of_closedAndEmpty {verdict : Bool}
    (moved : s.step policy (.closedAndEmpty verdict) = some t) : ∃ i, s.pc = .closedCheck i := by
  obtain sent | moved := step_cases moved
  · cases sent
  · cases at_ : s.pc with
    | closedCheck i => exact ⟨i, rfl⟩
    | poll site pc =>
        simp only [Core.loopStep, at_] at moved
        obtain ⟨cell, -, rest⟩ := Option.bind_eq_some_iff.1 moved
        obtain ⟨next, stepped, -⟩ := Option.map_eq_some_iff.1 rest
        cases pc <;> cases stepped
    | _ => simp [Core.loopStep, at_] at moved

end Answers

/-! ### What the log tells of the messages -/

def Event.message : Event A M → Option M
  | .handle _ msg _ => some msg
  | _ => none

/-- The messages that were handled, oldest first. -/
def handledOf (log : List (Entry A M)) : List M := log.filterMap (·.event.message)

/-- The message a cell is about to handle. -/
def Loc.inHand : Loc A M → List M
  | .polled (.handle msg) => [msg]
  | _ => []

theorem handledOf_append (log : List (Entry A M)) (id : Nat) (events : List (Nat × Event A M)) :
    handledOf (log ++ entries id events) = handledOf log ++ events.filterMap (·.2.message) := by
  simp [handledOf, entries, List.filterMap_map]

section Handled

variable {policy : Policy} {input : Input A M} {cell cell' : Cell A} {loc loc' : Loc A M}
  {events : List (Nat × Event A M)} (log : List (Entry A M))

/-- A message that was received is in hand until it is handled. -/
theorem handledOf_move (stepped : CellStep policy input cell loc events (some (cell', loc'))) :
    handledOf (log ++ entries cell.id events) ++ loc'.inHand =
      handledOf log ++ loc.inHand ++ input.message := by
  rw [handledOf_append, List.append_assoc, List.append_assoc]
  congr 1
  cases stepped with
  | polls move =>
      cases move with
      | @decided time allowed => cases allowed <;> rfl
      | _ => rfl
  | _ => rfl

theorem handledOf_leave (stepped : CellStep policy input cell loc events none) :
    handledOf (log ++ entries cell.id events) = handledOf log ++ loc.inHand := by
  rw [handledOf_append]
  congr 1
  cases stepped <;> rfl

end Handled

/-! ### Log and mailbox agree -/

/-- What the log of the target says while the core has it: its messages, with the one in hand, are
    those received, and it is being stopped only when all is `settled`. -/
def InStep (target : Nat) (received : List M) (settled : Prop) (cell : Cell A) (loc : Loc A M)
    (log : List (Entry A M)) : Prop :=
  cell.id = target → handledOf log ++ loc.inHand = received ∧ (loc = .stopping → settled)

/-- What it says when the core no longer has it. -/
def InStepGone (target : Nat) (received : List M) (settled : Prop) (id : Nat)
    (log : List (Entry A M)) : Prop :=
  id = target → handledOf log = received ∧ (settled ∨ ∃ e ∈ log, e.event = .left .detached)

structure Coupled (target : Nat) (settled : Prop) (s : Node w A T) : Prop where
  placed : Placed (InStep target s.box.received settled) (InStepGone target s.box.received settled)
    s.core
  unsent : s.core.sent ≤ target → s.box.accepted = [] ∧ s.box.received = []

namespace Coupled

variable {policy : Policy} {target : Nat} {settled settled' : Prop} {s t : Node w A T}
  {input : Input A (Msg T)}

theorem new (q : Queue w (Msg T)) : Coupled target settled (Node.new q : Node w A T) where
  placed := Placed.new
  unsent _ := ⟨rfl, rfl⟩

theorem weaken (coupled : Coupled target settled s) (keeps : settled → settled') :
    Coupled target settled' s where
  placed := coupled.placed.mono
    (fun _ _ _ told mine => ⟨(told mine).1, fun stops => keeps ((told mine).2 stops)⟩)
    (fun _ _ told mine => ⟨(told mine).1, (told mine).2.imp_left keeps⟩)
  unsent := coupled.unsent

/-- The mailbox moves on without anything being received. -/
theorem boxStep (coupled : Coupled target settled s) (known : target < s.core.sent)
    (core : t.core = s.core) (received : t.box.received = s.box.received) :
    Coupled target settled t where
  placed := by
    rw [core, received]
    exact coupled.placed
  unsent none_ := by
    rw [core] at none_
    exact absurd known (not_lt.2 none_)

/-- The core makes a step that hands the target no message. -/
theorem coreStep (coupled : Coupled target settled s)
    (moved : s.core.step policy input = some t.core) (alive : t.core.pc.dead = false)
    (received : t.box.received = s.box.received)
    (accepted : s.core.sent ≤ target → t.box.accepted = s.box.accepted)
    (silent : ∀ cell loc, s.core.Serves cell loc → cell.id = target → input.message = [])
    (closes : input = .closedAndEmpty true → ∀ cell, s.core.Serves cell .calm → cell.id = target →
      settled)
    (drains : s.core.pc = .poll .drain (.returned .empty) → ∀ cell,
      s.core.actors[0]? = some cell → cell.id = target → settled) : Coupled target settled t := by
  have next := coupled.placed.step moved
    (fun actor factory restartPolicy _ mine =>
      ⟨(coupled.unsent mine.le).2.symm, nofun⟩)
    (fun cell loc cell' loc' events log serves stepped draining told mine => by
      rw [stepped.id_eq] at mine
      refine ⟨?_, ?_⟩
      · rw [handledOf_move log stepped, silent cell loc serves mine, List.append_nil]
        exact (told mine).1
      · rintro rfl
        have stops := stepped
        cases stepped with
        | drained =>
            obtain ⟨at_, found⟩ := drain_of_stopping serves stops (draining rfl rfl)
            exact drains at_ cell found mine
        | closed => exact closes rfl cell serves mine)
    (fun cell loc events log serves stepped told mine => by
      refine ⟨?_, ?_⟩
      · rw [handledOf_leave log stepped]
        exact (told mine).1
      · cases stepped with
        | startFailed => exact .inr ⟨_, List.mem_append_right _ (.tail _ (.head _)), rfl⟩
        | detached => exact .inr ⟨_, List.mem_append_right _ (.head _), rfl⟩
        | drainFailed => exact .inr ⟨_, List.mem_append_right _ (.head _), rfl⟩
        | stopped whole => exact .inl ((told mine).2 rfl))
  refine ⟨?_, fun none_ => ?_⟩
  · rw [received]
    refine next.resolve_right fun died => ?_
    rw [died.dead] at alive
    cases alive
  · have before : s.core.sent ≤ target := (sent_le_of_step moved).trans none_
    rw [accepted before, received]
    exact coupled.unsent before

/-- `try_recv` on the target returns to the core. -/
theorem receive (coupled : Coupled target settled s) {result : Option (Msg T)}
    (moved : s.core.step policy (.received result) = some t.core) (known : target < s.core.sent)
    (mine : s.core.receives target = true)
    (received : t.box.received = s.box.received ++ result.toList) : Coupled target settled t := by
  obtain ⟨site, cell, cell', pc', at_, found, move, same⟩ := poll_of_received moved
  have id : cell.id = target := by simpa [Core.receives, at_, found] using mine
  have stepped : CellStep policy (.received result) cell (.polled .recv) []
      (some (cell', .polled pc')) := .polls move
  have message : Input.message (.received result : Input A (Msg T)) = result.toList := by
    cases result <;> rfl
  have count : t.core.sent = s.core.sent := by rw [same]; rfl
  have log : t.core.log = s.core.log ++ entries cell.id [] := by rw [same]; rfl
  have cells : t.core.cells = (cell', .polled pc') ::ₘ _ :=
    (congrArg Core.cells same).trans (cells_of_pollNext found)
  refine ⟨?_, fun none_ => absurd known (by omega)⟩
  refine coupled.placed.transfer (cells_of_polled at_ found) cells stepped.id_eq log count
    (fun told _ => ⟨?_, nofun⟩)
    (fun other _ _ different _ mine => absurd (mine.trans id.symm) different)
    (fun other _ different _ mine => absurd (mine.trans id.symm) different)
  rw [handledOf_move _ stepped, (told id).1, message, received]

/-- Every step keeps log and mailbox in agreement, when the target leaves only `settled`. -/
theorem step (coupled : Coupled target settled s) {a : NodeAct A T}
    (moved : s.step policy target a = some t)
    (running : s.box.receiver = .held → s.box.teardown = false)
    (alive : t.core.pc.dead = false) (keeps : settled → settled')
    (closes : t.box.consumer = .closedAndEmpty true → settled')
    (drains : s.core.pc = .poll .drain (.returned .empty) → ∀ cell,
      s.core.actors[0]? = some cell → cell.id = target → settled') : Coupled target settled' t := by
  replace coupled := coupled.weaken keeps
  obtain ⟨input, -, allowed, moved, box⟩ | ⟨act, -, known, sends, moved, core⟩ |
    ⟨act, -, known, receives, moved, core, silent⟩ | ⟨input, -, known, receives, moved, told, went⟩ :=
    Node.step_cases moved
  · refine coupled.coreStep moved alive (by rw [box]) (fun _ => by rw [box])
      (fun cell loc serves mine => ?_) ?_ drains
    · cases input with
      | received result =>
          -- The core reads another mailbox here.
          obtain ⟨site, other, -, -, at_, found, -⟩ := poll_of_received moved
          simp only [Core.Serves, at_] at serves
          simp [Node.allows, Core.receives, at_, serves.1, mine] at allowed
      | _ => rfl
    · rintro rfl cell serves mine
      obtain ⟨i, at_⟩ := check_of_closedAndEmpty moved
      simp only [Core.Serves, at_] at serves
      simp [Node.allows, Core.checks, at_, serves.1, mine] at allowed
  · exact coupled.boxStep known core (Node.received_of_sends sends moved)
  · refine coupled.boxStep known core ?_
    obtain ⟨-, -, received, -⟩ | ⟨-, same | same⟩ | ⟨-, received⟩ | ⟨rfl, stepped⟩ | ⟨rfl, stepped⟩ :=
      step_consumer_cases moved
    · exact received
    · rw [same]
    · rw [same]
    · exact received
    · have held : s.box.receiver = .held := by
        simp only [Node.receives, Bool.and_eq_true, beq_iff_eq] at receives
        exact receives.1
      have grown := received_of_consumerStep (A := A) (running held) stepped
      rw [silent rfl] at grown
      simpa using grown
    · simp only [Mailbox.consumerSpurious] at stepped
      split at stepped
      · obtain ⟨pc, -, same⟩ := Option.map_eq_some_iff.1 stepped
        rw [← same]
      · cases stepped
  · simp only [Node.receives, Bool.and_eq_true, Bool.or_eq_true, beq_iff_eq] at receives
    obtain ⟨held, uses⟩ := receives
    have grown := received_of_consumerStep (A := A) (running held) moved
    rw [told] at grown
    cases at_ : t.box.consumer with
    | dequeue pc =>
        cases pc with
        | returned result =>
            rw [at_] at told
            cases told
            refine coupled.receive went known ?_ ?_
            · obtain ⟨site, other, -, -, at_, found, -⟩ := poll_of_received went
              simpa [Core.checks, at_] using uses
            · rw [grown]
              cases result <;> rfl
        | _ => simp [at_, answer] at told
    | closedAndEmpty verdict =>
        rw [at_] at told
        cases told
        refine coupled.coreStep went alive ?_ ?_ (fun _ _ _ _ => rfl) ?_ drains
        · simpa [Input.message] using grown
        · exact fun none_ => absurd known (by omega)
        · rintro ended - - -
          cases ended
          exact closes at_
    | _ => simp [at_, answer] at told

end Coupled

end AetherFlow.System
