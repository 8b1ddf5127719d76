/-
Module: AetherFlow.Mpsc.Removal
Purpose: Why the core may remove an actor as closed and empty. `closed_and_empty` reads the producer
  count before it looks at the ring: a count of zero is final, since only a `Sender` can be cloned and
  every send call borrows one, so the emptiness test that follows sees every message ever accepted.
Trusted boundary: none
Main exports: Mailbox.Closed, Mailbox.Closed.step, Runs.closed, CleanRemoval,
  cleanRemoval_of_closedAndEmpty, removal_loses_message_when_lapped
-/
import AetherFlow.Mpsc.Order

namespace AetherFlow.Mpsc

open Transition

variable {w k : Nat} {T : Type*} {s t : Mailbox w T}

/-! ### No `Sender` is left -/

/-- No `Sender` exists and none is being made. -/
structure Mailbox.Closed (s : Mailbox w T) : Prop where
  senders : s.senders = ∅
  cloning : s.cloning = []

namespace Mailbox.Closed

/-- A producer count of zero says so. -/
theorem of_producers (handles : HandleInv s) (zero : s.q.producers = 0) : s.Closed := by
  have counted := handles.producers
  rw [zero] at counted
  have senders : s.senders.card = 0 := by omega
  have cloning : s.cloning.length = 0 := by omega
  exact ⟨Finset.card_eq_zero.1 senders, List.eq_nil_of_length_eq_zero cloning⟩

/-- Every call through a `Sender` is over. -/
theorem finished (closed : s.Closed) (handles : HandleInv s) {c : Nat} {call : Call w T}
    (found : s.calls c = some call) : call.finished = true := by
  by_contra running
  have borrowed := handles.borrow c call found (by simpa using running)
  rw [closed.senders] at borrowed
  exact absurd borrowed (Finset.notMem_empty _)

theorem no_call (closed : s.Closed) (thread handle : Nat) (kind : SendKind) (body : T) :
    s.step (.call thread handle kind body) = none := by
  simp [Mailbox.step, Mailbox.call, closed.senders]

/-- A closed mailbox stays closed. -/
theorem step (closed : s.Closed) {a : Act T} (moved : s.step a = some t) : t.Closed := by
  obtain ⟨senders, cloning⟩ := closed
  cases a with
  | cloneStart handle | dropSender handle => simp [Mailbox.step, Mailbox.cloneStart,
      Mailbox.dropSender, senders] at moved
  | cloneFinish handle => simp [Mailbox.step, Mailbox.cloneFinish, cloning] at moved
  | enqueue c =>
      obtain ⟨call, -, -, ⟨item, -, -, rfl⟩ | ⟨q, pc, -, rfl⟩⟩ := Mailbox.enqueue_cases moved
      all_goals exact ⟨senders, cloning⟩
  | enqueueSpurious c =>
      simp only [Mailbox.step, Mailbox.enqueueSpurious] at moved
      split at moved
      · cases moved
      · obtain ⟨pc, -, rfl⟩ := Option.map_eq_some_iff.1 moved
        exact ⟨senders, cloning⟩
  | consumer =>
      obtain ⟨_, _, _, rfl⟩ | ⟨_, _, _, _, _, rfl⟩ | ⟨_, rfl⟩ | ⟨_, rfl⟩ | ⟨_, _, rfl⟩ :=
        Mailbox.consumerStep_cases moved
      all_goals exact ⟨senders, cloning⟩
  | consumerSpurious =>
      simp only [Mailbox.step, Mailbox.consumerSpurious] at moved
      split at moved
      · obtain ⟨pc, -, rfl⟩ := Option.map_eq_some_iff.1 moved
        exact ⟨senders, cloning⟩
      · cases moved
  | releaseSender | releaseReceiver =>
      obtain ⟨-, rfl⟩ := guarded moved
      unfold Mailbox.release
      split <;> exact ⟨senders, cloning⟩
  | _ =>
      obtain ⟨-, rfl⟩ := guarded moved
      exact ⟨senders, cloning⟩

/-- A closed mailbox accepts nothing more. -/
theorem step_accepted (closed : s.Closed) (handles : HandleInv s) {a : Act T}
    (moved : s.step a = some t) : t.accepted = s.accepted := by
  obtain ⟨-, -, accepted⟩ | ⟨thread, handle, kind, body, idle, -, -, accepted⟩ |
    ⟨c, call, pc, found, running, -⟩ := step_calls_cases moved
  · exact accepted
  · exact accepted
  · rw [closed.finished handles found] at running
    cases running

/-- Whatever happens later, no call can be started and nothing more is accepted. -/
theorem forever (closed : s.Closed) (handles : HandleInv s)
    (later : Reach Mailbox.step Free s t) : t.Closed ∧ t.accepted = s.accepted := by
  refine (later.invariant (P := fun t => HandleInv t ∧ t.Closed ∧ t.accepted = s.accepted)
    ⟨handles, closed, rfl⟩ ?_).2
  rintro u a v ⟨handles, closed, same⟩ - moved
  exact ⟨handles.step moved, closed.step moved, (closed.step_accepted handles moved).trans same⟩

/-- Every message a closed mailbox has accepted is published. -/
theorem published (closed : s.Closed) (handles : HandleInv s) (inv : Inv k s) {m : Msg T}
    (member : m ∈ s.accepted) : stageOf s.calls m.call = .published := by
  obtain ⟨call, found, -⟩ := inv.origin m member
  have finished := closed.finished handles found
  have inside : call.pc.stage ≠ .outside := fun outside =>
    (inv.calls m.call call found).outside outside m member rfl
  rw [stageOf_eq found]
  cases at_ : call.pc with
  | returned result =>
      cases result with
      | ok => rfl
      | error e => simp [at_, EnqueuePc.stage] at inside
  | _ => cases kind : call.kind <;> simp [Call.finished, at_, kind] at finished

/-- When nothing is published at the head of a closed mailbox, everything is out. -/
theorem taken_of_waiting (closed : s.Closed) (handles : HandleInv s) (inv : Inv k s)
    (waiting : ¬ ∃ m, Ready s.accepted (stageOf s.calls) s.taken.length m) :
    s.taken = s.accepted := by
  refine inv.taken.eq_of_length_le ?_
  by_contra more
  have inside : s.taken.length < s.accepted.length := by omega
  have first := List.getElem?_eq_getElem inside
  exact waiting ⟨_, first, closed.published handles inv (List.mem_of_getElem? first)⟩

end Mailbox.Closed

/-! ### `closed_and_empty` -/

/-- A step leaves the receiving side alone, starts one of its operations, hands the queue to
    `Queue::drop`, or is a step of the operation in progress. -/
theorem step_consumer_cases {a : Act T} (moved : s.step a = some t) :
    (t.consumer = s.consumer ∧ t.teardown = s.teardown ∧ t.received = s.received ∧
        t.dropped = s.dropped) ∨
      (s.receiver = .held ∧ (t = { s with consumer := .dequeue .loadPos } ∨
        t = { s with consumer := .loadProducers })) ∨
      (t.consumer = .dequeue .loadPos ∧ t.received = s.received) ∨
      (a = .consumer ∧ s.consumerStep = some t) ∨
      (a = .consumerSpurious ∧ s.consumerSpurious = some t) := by
  cases a with
  | enqueue c =>
      obtain ⟨call, -, -, ⟨item, -, -, rfl⟩ | ⟨q, pc, -, rfl⟩⟩ := Mailbox.enqueue_cases moved
      all_goals exact .inl ⟨rfl, rfl, rfl, rfl⟩
  | enqueueSpurious c =>
      simp only [Mailbox.step, Mailbox.enqueueSpurious] at moved
      split at moved
      · cases moved
      · obtain ⟨pc, -, rfl⟩ := Option.map_eq_some_iff.1 moved
        exact .inl ⟨rfl, rfl, rfl, rfl⟩
  | tryRecv =>
      obtain ⟨⟨held, -⟩, same⟩ := guarded moved
      exact .inr (.inl ⟨held, .inl same⟩)
  | closedAndEmpty =>
      obtain ⟨⟨held, -⟩, same⟩ := guarded moved
      exact .inr (.inl ⟨held, .inr same⟩)
  | consumer => exact .inr (.inr (.inr (.inl ⟨rfl, moved⟩)))
  | consumerSpurious => exact .inr (.inr (.inr (.inr ⟨rfl, moved⟩)))
  | releaseSender | releaseReceiver =>
      obtain ⟨-, rfl⟩ := guarded moved
      unfold Mailbox.release
      split
      · exact .inr (.inr (.inl ⟨rfl, rfl⟩))
      · exact .inl ⟨rfl, rfl, rfl, rfl⟩
  | _ =>
      obtain ⟨-, rfl⟩ := guarded moved
      exact .inl ⟨rfl, rfl, rfl, rfl⟩

/-- `closed_and_empty` has found the producer count at zero. -/
def ConsumerPc.pastProducers {M : Type*} : ConsumerPc w M → Bool
  | .emptyLoadPos | .emptyLoadSeq _ | .closedAndEmpty true => true
  | _ => false

/-- The operation in progress, or the last one, was a `dequeue`. -/
def ConsumerPc.dequeuing {M : Type*} : ConsumerPc w M → Bool
  | .dequeue _ | .freed => true
  | _ => false

/-- Once `closed_and_empty` is past its first load the mailbox is closed for good; when it says so,
    everything accepted has been received. -/
structure RemovalInv (s : Mailbox w T) : Prop where
  closed : s.consumer.pastProducers = true → s.Closed
  running : s.teardown = true → s.consumer.dequeuing = true
  drained : s.consumer = .closedAndEmpty true → s.received = s.accepted

namespace RemovalInv

theorem new (q : Queue w (Msg T)) : RemovalInv (Mailbox.new q) where
  closed := by simp [Mailbox.new, ConsumerPc.pastProducers]
  running := by simp [Mailbox.new]
  drained := by simp [Mailbox.new]

/-- While the receiving side is dequeuing there is nothing to show. -/
theorem of_dequeuing (dequeuing : t.consumer.dequeuing = true) : RemovalInv t where
  closed := by
    intro past
    cases at_ : t.consumer <;> simp [at_, ConsumerPc.dequeuing, ConsumerPc.pastProducers] at *
  running := fun _ => dequeuing
  drained := by
    intro verdict
    rw [verdict] at dequeuing
    cases dequeuing

/-- The emptiness test after a producer count of zero sees everything. -/
theorem received_of_empty (closed : s.Closed) (handles : HandleInv s) (inv : Inv k s)
    (fits : k < w) {pos : BitVec w} (at_ : s.consumer = .emptyLoadSeq pos)
    (running : s.teardown = false)
    (empty : Word.signedGap (s.q.slot pos).seq (pos + 1) < 0) : s.received = s.accepted := by
  have word : pos = BitVec.ofNat w s.taken.length := by
    have ok := inv.consumer
    rwa [at_] at ok
  have taken := closed.taken_of_waiting handles inv fun ready => by
    rw [word, inv.head_gap_of_ready fits ready] at empty
    exact absurd empty (by decide)
  rwa [Mailbox.taken, inv.undropped running, List.append_nil] at taken

theorem consumerStep (removal : RemovalInv s) (handles : HandleInv s) (inv : Inv k s)
    (fits : k < w) (moved : s.consumerStep = some t) : RemovalInv t := by
  have running : s.consumer.dequeuing = false → s.teardown = false := fun other => by
    by_contra teardown
    rw [removal.running (by simpa using teardown)] at other
    cases other
  obtain ⟨result, at_, -, rfl⟩ | ⟨pc, q, pc', at_, -, rfl⟩ | ⟨at_, rfl⟩ | ⟨at_, rfl⟩ |
    ⟨pos, at_, rfl⟩ := Mailbox.consumerStep_cases moved
  · exact of_dequeuing (by cases result <;> rfl)
  · exact of_dequeuing rfl
  · have running := running (by rw [at_]; rfl)
    by_cases some_ : 0 < s.q.producers
    · simp only [some_, if_true]
      exact ⟨by simp [ConsumerPc.pastProducers], by simp [running], by simp⟩
    · simp only [some_, if_false]
      have closed := Mailbox.Closed.of_producers handles (by omega)
      exact ⟨fun _ => { closed with }, by simp [running], by simp⟩
  · have running := running (by rw [at_]; rfl)
    have closed := removal.closed (by rw [at_]; rfl)
    exact ⟨fun _ => { closed with }, by simp [running], by simp⟩
  · have running := running (by rw [at_]; rfl)
    have closed := removal.closed (by rw [at_]; rfl)
    refine ⟨fun _ => { closed with }, by simp [running], fun verdict => ?_⟩
    have empty : Word.signedGap (s.q.slot pos).seq (pos + 1) < 0 := by simpa using verdict
    exact received_of_empty (s := s) closed handles inv fits at_ running empty

theorem step (removal : RemovalInv s) (handles : HandleInv s) (inv : Inv k s) (fits : k < w)
    {a : Act T} (moved : s.step a = some t) : RemovalInv t := by
  obtain ⟨consumer, teardown, received, -⟩ | ⟨held, rfl | rfl⟩ | ⟨consumer, -⟩ | ⟨-, moved⟩ |
    ⟨-, moved⟩ := step_consumer_cases moved
  · refine ⟨?_, ?_, ?_⟩
    · rw [consumer]
      exact fun past => (removal.closed past).step moved
    · rw [consumer, teardown]
      exact removal.running
    · rw [consumer, received]
      intro verdict
      have closed := removal.closed (by rw [verdict]; rfl)
      rw [removal.drained verdict, closed.step_accepted handles moved]
  · exact of_dequeuing rfl
  · have running : s.teardown ≠ true := by
      rw [Ne, handles.teardown, handles.strong, held]
      simp
    exact ⟨by simp [ConsumerPc.pastProducers], fun teardown => absurd teardown running, by simp⟩
  · exact of_dequeuing (by rw [consumer]; rfl)
  · exact removal.consumerStep handles inv fits moved
  · simp only [Mailbox.consumerSpurious] at moved
    split at moved
    · obtain ⟨pc, -, rfl⟩ := Option.map_eq_some_iff.1 moved
      exact of_dequeuing rfl
    · cases moved

end RemovalInv

theorem Runs.removal {capacity : Nat} (run : Runs NotLapped capacity s) (two : 2 ≤ capacity) :
    RemovalInv s := by
  refine run.invariant RemovalInv.new fun u a v run removal _ moved => ?_
  obtain ⟨k, -, fits, -, inv⟩ := run.inv two
  exact removal.step run.handles inv fits moved

/-- Nothing is lost by removing the actor: everything accepted was received, and nothing can be sent
    any more. -/
structure CleanRemoval (s : Mailbox w T) : Prop where
  received : s.received = s.accepted
  finished : ∀ c call, s.calls c = some call → call.finished = true
  final : ∀ t, Reach Mailbox.step Free s t → t.accepted = s.accepted ∧
    ∀ thread handle kind body, t.step (.call thread handle kind body) = none

/-- With two slots or more, in every run in which no call is lapped, an actor that
    `closed_and_empty` allows to remove is removed cleanly. -/
theorem cleanRemoval_of_closedAndEmpty {capacity : Nat} (run : Runs NotLapped capacity s)
    (two : 2 ≤ capacity) (verdict : s.consumer = .closedAndEmpty true) : CleanRemoval s := by
  have removal := run.removal two
  have closed := removal.closed (by rw [verdict]; rfl)
  refine ⟨removal.drained verdict, fun c call found => closed.finished run.handles found, ?_⟩
  intro t later
  obtain ⟨still, accepted⟩ := closed.forever run.handles later
  exact ⟨accepted, still.no_call⟩

theorem cleanRemoval_of_shortLife :
    Runs NotLapped 2 shortLife ∧ shortLife.consumer = .closedAndEmpty true ∧
      CleanRemoval shortLife :=
  ⟨shortLife_runs, rfl, cleanRemoval_of_closedAndEmpty shortLife_runs le_rfl rfl⟩

/-- After a lapped call the core can remove an actor that never got an accepted message. -/
theorem removal_loses_message_when_lapped :
    ∃ s : Mailbox 64 Unit, Runs Free 2 s ∧ s.consumer = .closedAndEmpty true ∧
      ∃ m ∈ s.accepted, m ∉ s.received := by
  obtain ⟨lost, s, lapped⟩ := lappedRemoval
  exact ⟨s, lapped.runs, lapped.verdict, _, List.mem_of_getElem? lapped.accepted,
    lapped.unreceived⟩

end AetherFlow.Mpsc
