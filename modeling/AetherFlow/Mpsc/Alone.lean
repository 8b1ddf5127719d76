/-
Module: AetherFlow.Mpsc.Alone
Purpose: Complete operations run without interference: a `try_send` into a ring with room and a
  `try_recv` of a published message, each as one list of labels with the state it ends in. Also the
  reason why lapping is a matter of very long runs: a run that accepts at most `2 ^ w` messages laps
  nobody.
Trusted boundary: none
Main exports: notLapped_of_short, Mailbox.afterSend, step_enqueue, exec_send, Mailbox.afterRecv,
  step_consumer, exec_recv, exec_recv_empty, exec_closedAndEmpty, reach_removal, shortLife_runs
-/
import AetherFlow.Mpsc.Invariant

namespace AetherFlow.Mpsc

open Transition Word

variable {w k : Nat} {T : Type*} {s t : Mailbox w T}

/-! ### Short runs -/

/-- A step accepts at most one message, and a successful compare-and-swap accepts exactly one. -/
theorem step_accepted {a : Act T} (moved : s.step a = some t) :
    s.accepted.length ≤ t.accepted.length ∧
      ∀ c call item pos, a = .enqueue c → s.calls c = some call → call.pc = .cas item pos →
        s.q.enqueuePos = pos → t.accepted.length = s.accepted.length + 1 := by
  cases a with
  | enqueue c =>
      obtain ⟨call, found, -, ⟨item, -, at_, rfl⟩ | ⟨q, pc', stepped, rfl⟩⟩ :=
        Mailbox.enqueue_cases moved
      · refine ⟨le_rfl, ?_⟩
        intro c' call' item' pos' same found' at_' _
        cases same
        rw [found] at found'
        cases found'
        rw [at_] at at_'
        cases at_'
      · refine ⟨by simp [Mailbox.afterEnqueue], ?_⟩
        intro c' call' item' pos' same found' at_' current
        cases same
        rw [found] at found'
        cases found'
        simp [Mailbox.afterEnqueue, at_', Mailbox.reserves, current]
  | enqueueSpurious c =>
      simp only [Mailbox.step, Mailbox.enqueueSpurious] at moved
      split at moved
      · cases moved
      · obtain ⟨pc, -, rfl⟩ := Option.map_eq_some_iff.1 moved
        exact ⟨le_rfl, by simp⟩
  | consumer =>
      obtain ⟨_, _, _, rfl⟩ | ⟨_, _, _, _, _, rfl⟩ | ⟨_, rfl⟩ | ⟨_, rfl⟩ | ⟨_, _, rfl⟩ :=
        Mailbox.consumerStep_cases moved
      all_goals exact ⟨le_rfl, by simp⟩
  | consumerSpurious =>
      simp only [Mailbox.step, Mailbox.consumerSpurious] at moved
      split at moved
      · obtain ⟨pc, -, rfl⟩ := Option.map_eq_some_iff.1 moved
        exact ⟨le_rfl, by simp⟩
      · cases moved
  | releaseSender | releaseReceiver =>
      obtain ⟨-, rfl⟩ := guarded moved
      refine ⟨?_, by simp⟩
      unfold Mailbox.release
      split <;> exact le_rfl
  | _ =>
      obtain ⟨-, rfl⟩ := guarded moved
      exact ⟨le_rfl, by simp⟩

/-- A run that ends with at most `2 ^ w` accepted messages laps nobody. -/
theorem notLapped_of_short (run : Reach Mailbox.step Free s t)
    (short : t.accepted.length ≤ 2 ^ w) : Reach Mailbox.step NotLapped s t := by
  induction run with
  | refl => exact Reach.refl _
  | tail _ last inductionHypothesis =>
      obtain ⟨a, -, moved⟩ := last
      obtain ⟨grows, reserves⟩ := step_accepted moved
      refine (inductionHypothesis (grows.trans short)).tail ?_ moved
      cases a with
      | enqueue c =>
          intro call item pos found at_ current
          have := reserves c call item pos rfl found at_ current
          omega
      | _ => trivial

/-! ### A whole `try_send` -/

/-- After a `try_send` that ran alone and found room. -/
def Mailbox.afterSend (s : Mailbox w T) (thread handle : Nat) (body : T) : Mailbox w T :=
  { s with
    q := { s.q with
      enqueuePos := s.q.enqueuePos + 1
      buffer := Function.update s.q.buffer (s.q.index s.q.enqueuePos)
        { seq := s.q.enqueuePos + 1, val := .live { call := s.issued, body } } }
    calls := Function.update s.calls s.issued
      (some { thread, handle, kind := .trySend, body, pc := .returned (.ok ()) })
    issued := s.issued + 1
    accepted := s.accepted ++ [{ call := s.issued, body }]
    loadedAt := Function.update s.loadedAt s.issued s.accepted.length }

/-- The labels of a `try_send` that runs alone. -/
def sendLabels (s : Mailbox w T) (thread handle : Nat) (body : T) : List (Act T) :=
  .call thread handle .trySend body :: List.replicate 6 (.enqueue s.issued)

/-- One step of a `try_send`, by what `enqueue` does there. -/
theorem Mailbox.step_enqueue {c : Nat} {call : Call w T} {q' : Queue w (Msg T)}
    {pc' : EnqueuePc w (Msg T)} (found : s.calls c = some call) (kind : call.kind = .trySend)
    (stepped : enqueueStep s.q call.pc = some (q', pc')) :
    s.step (.enqueue c) = some (s.afterEnqueue c call q' pc') := by
  simp [Mailbox.step, Mailbox.enqueue, found, kind, stepped]

theorem exec_send (thread handle : Nat) (body : T) (held : handle ∈ s.senders)
    (idle : s.threadIdle thread = true) (alive : s.q.consumerAlive = true)
    (free : (s.q.slot s.q.enqueuePos).seq = s.q.enqueuePos) :
    exec Mailbox.step s (sendLabels s thread handle body) =
      some (s.afterSend thread handle body) := by
  have gap : signedGap (s.q.slot s.q.enqueuePos).seq s.q.enqueuePos = 0 := by
    rw [free, signedGap_self]
  have called : s.step (.call thread handle .trySend body) = some _ := if_pos ⟨held, idle⟩
  have checked : enqueueStep s.q (.checkAlive ⟨s.issued, body⟩) =
      some (s.q, .loadPos ⟨s.issued, body⟩) := by
    simp only [enqueueStep, alive, if_true]
  have looked : enqueueStep s.q (.loadSeq ⟨s.issued, body⟩ s.q.enqueuePos) =
      some (s.q, .cas ⟨s.issued, body⟩ s.q.enqueuePos) := by
    simp only [enqueueStep, gap, if_true]
  have reserved : enqueueStep s.q (.cas ⟨s.issued, body⟩ s.q.enqueuePos) =
      some ({ s.q with enqueuePos := s.q.enqueuePos + 1 },
        .write ⟨s.issued, body⟩ s.q.enqueuePos) := if_pos rfl
  simp only [sendLabels, List.replicate, exec, called, Option.bind_some]
  rw [Mailbox.step_enqueue (Function.update_self ..) rfl checked, Option.bind_some,
    Mailbox.step_enqueue (Function.update_self ..) rfl rfl, Option.bind_some,
    Mailbox.step_enqueue (Function.update_self ..) rfl looked, Option.bind_some,
    Mailbox.step_enqueue (Function.update_self ..) rfl reserved, Option.bind_some,
    Mailbox.step_enqueue (Function.update_self ..) rfl rfl, Option.bind_some,
    Mailbox.step_enqueue (Function.update_self ..) rfl rfl, Option.bind_some]
  simp [Mailbox.afterEnqueue, Mailbox.setPc, Mailbox.reserves, Mailbox.loadsPos, Queue.storeVal,
    Queue.storeSeq, Queue.slot, Queue.index, Mailbox.afterSend]

/-! ### A whole `try_recv` -/

/-- After a `try_recv` that ran alone and took message `m`. -/
def Mailbox.afterRecv (s : Mailbox w T) (m : Msg T) : Mailbox w T :=
  { s with
    q := { s.q with
      dequeuePos := s.q.dequeuePos + 1
      buffer := Function.update s.q.buffer (s.q.index s.q.dequeuePos)
        { seq := s.q.dequeuePos + s.q.mask + 1, val := .moved m } }
    consumer := .dequeue (.returned (some m))
    received := s.received ++ [m] }

/-- The labels of a `try_recv` that runs alone. -/
def recvLabels : List (Act T) := .tryRecv :: List.replicate 5 .consumer

/-- One step of a `try_recv`, by what `dequeue` does there. -/
theorem Mailbox.step_consumer {pc pc' : DequeuePc w (Msg T)} {q' : Queue w (Msg T)}
    (at_ : s.consumer = .dequeue pc) (stepped : dequeueStep s.q pc = some (q', pc')) :
    s.step .consumer = some (s.afterDequeue pc q' pc') := by
  cases pc with
  | returned result => cases stepped
  | _ => simp [Mailbox.step, Mailbox.consumerStep, at_, stepped]

/-- What the source reads does not depend on whether the slot still owns the bits. -/
theorem exec_recv {m : Msg T} (held : s.receiver = .held) (quiescent : s.consumer.quiescent = true)
    (running : s.teardown = false)
    (ready : (s.q.slot s.q.dequeuePos).seq = s.q.dequeuePos + 1)
    (holds : (s.q.slot s.q.dequeuePos).val = .live m ∨ (s.q.slot s.q.dequeuePos).val = .moved m) :
    exec Mailbox.step s recvLabels = some (s.afterRecv m) := by
  have gap : signedGap (s.q.slot s.q.dequeuePos).seq (s.q.dequeuePos + 1) = 0 := by
    rw [ready, signedGap_self]
  have called : s.step .tryRecv = some _ := if_pos ⟨held, quiescent⟩
  have looked : dequeueStep s.q (.loadSeq s.q.dequeuePos) = some (s.q, .cas s.q.dequeuePos) := by
    simp only [dequeueStep, gap, if_true]
  have claimed : dequeueStep s.q (.cas s.q.dequeuePos) =
      some ({ s.q with dequeuePos := s.q.dequeuePos + 1 }, .read s.q.dequeuePos) := if_pos rfl
  have read : dequeueStep { s.q with dequeuePos := s.q.dequeuePos + 1 } (.read s.q.dequeuePos) =
      some (Queue.storeVal { s.q with dequeuePos := s.q.dequeuePos + 1 } s.q.dequeuePos (.moved m),
        .storeSeq s.q.dequeuePos m) := by
    simp only [Queue.slot, Queue.index] at holds
    rcases holds with holds | holds <;> simp only [dequeueStep, Queue.slot, Queue.index, holds]
  simp only [recvLabels, List.replicate, exec, called, Option.bind_some]
  rw [Mailbox.step_consumer rfl rfl, Option.bind_some,
    Mailbox.step_consumer (s := Mailbox.afterDequeue _ _ _ _) rfl looked, Option.bind_some,
    Mailbox.step_consumer (s := Mailbox.afterDequeue _ _ _ _) rfl claimed, Option.bind_some,
    Mailbox.step_consumer (s := Mailbox.afterDequeue _ _ _ _) rfl read, Option.bind_some,
    Mailbox.step_consumer rfl rfl, Option.bind_some]
  simp [Mailbox.afterDequeue, Mailbox.delivered, running, Queue.storeVal, Queue.storeSeq, Queue.slot,
    Queue.index, Mailbox.afterRecv]

/-! ### The receiving side on an empty ring -/

/-- A `try_recv` that runs alone while nothing is published at the head returns `Empty`. -/
theorem exec_recv_empty (wide : 0 < w) (held : s.receiver = .held)
    (quiescent : s.consumer.quiescent = true)
    (empty : (s.q.slot s.q.dequeuePos).seq = s.q.dequeuePos) :
    exec Mailbox.step s [.tryRecv, .consumer, .consumer] =
      some { s with consumer := .dequeue (.returned none) } := by
  have gap : signedGap s.q.dequeuePos (s.q.dequeuePos + 1#w) = -1 :=
    signedGap_succ_right wide s.q.dequeuePos
  simp only [Queue.slot, Queue.index, BitVec.toNat_and] at empty
  simp [exec, Mailbox.step, Mailbox.tryRecv, held, quiescent, Mailbox.consumerStep, dequeueStep,
    Mailbox.afterDequeue, Mailbox.delivered, empty, gap, Queue.slot, Queue.index]

/-- With the last `Sender` gone and nothing published at the head, `closed_and_empty` says so. -/
theorem exec_closedAndEmpty (wide : 0 < w) (held : s.receiver = .held)
    (quiescent : s.consumer.quiescent = true) (closed : s.q.producers = 0)
    (empty : (s.q.slot s.q.dequeuePos).seq = s.q.dequeuePos) :
    exec Mailbox.step s [.closedAndEmpty, .consumer, .consumer, .consumer] =
      some { s with consumer := .closedAndEmpty true } := by
  have gap : signedGap s.q.dequeuePos (s.q.dequeuePos + 1#w) = -1 :=
    signedGap_succ_right wide s.q.dequeuePos
  simp only [Queue.slot, Queue.index, BitVec.toNat_and] at empty
  simp [exec, Mailbox.step, Mailbox.closedAndEmpty, held, quiescent, Mailbox.consumerStep, closed,
    empty, gap, Queue.slot, Queue.index]

/-- The core finds nothing, the last `Sender` is dropped, and the core finds the mailbox closed and
    empty. -/
theorem reach_removal (wide : 0 < w) (held : s.receiver = .held)
    (quiescent : s.consumer.quiescent = true)
    (empty : (s.q.slot s.q.dequeuePos).seq = s.q.dequeuePos) (senders : s.senders = {0})
    (unborrowed : s.borrowed 0 = false) (counted : s.q.producers = 1) :
    Reach Mailbox.step Free s
      { s with
        q := { s.q with producers := 0 }
        senders := ∅
        releasing := s.releasing + 1
        consumer := .closedAndEmpty true } := by
  have polled := exec_recv_empty wide held quiescent empty
  have dropped : Mailbox.step { s with consumer := .dequeue (.returned none) } (.dropSender 0) =
      some { s with
        q := { s.q with producers := 0 }
        senders := ∅
        releasing := s.releasing + 1
        consumer := .dequeue (.returned none) } := by
    refine (if_pos ⟨by simp [senders], unborrowed⟩).trans ?_
    simp [senders, counted]
  have closed := exec_closedAndEmpty
    (s := { s with
      q := { s.q with producers := 0 }
      senders := ∅
      releasing := s.releasing + 1
      consumer := .dequeue (.returned none) })
    wide held rfl rfl empty
  exact ((reach_of_exec polled).tail trivial dropped).trans (reach_of_exec closed)

/-! ### A short life -/

/-- A mailbox of two slots after one message was sent and received, the only `Sender` was dropped and
    the core found the mailbox closed and empty. -/
def shortLife : Mailbox 64 Nat :=
  let sent := (Mailbox.new (Queue.new 64 (Msg Nat) 2)).afterSend 0 0 7
  let received := sent.afterRecv { call := 0, body := 7 }
  { received with
    q := { received.q with producers := 0 }
    senders := ∅
    releasing := 1
    consumer := .closedAndEmpty true }

theorem shortLife_runs : Runs NotLapped 2 shortLife := by
  have sent := exec_send (s := Mailbox.new (Queue.new 64 (Msg Nat) 2)) 0 0 7
    (by decide) (by decide) (by decide) (by decide)
  have received := exec_recv (s := (Mailbox.new (Queue.new 64 (Msg Nat) 2)).afterSend 0 0 7)
    (m := { call := 0, body := 7 }) (by decide) (by decide) (by decide) (by decide)
    (.inl (by decide))
  have removed := reach_removal
    (s := ((Mailbox.new (Queue.new 64 (Msg Nat) 2)).afterSend 0 0 7).afterRecv
      { call := 0, body := 7 })
    (by decide) (by decide) (by decide) (by decide) (by decide) (by decide) (by decide)
  refine ⟨_, channel_two_pow (k := 1) (by decide), notLapped_of_short ?_ (by decide)⟩
  exact ((reach_of_exec sent).trans (reach_of_exec received)).trans removed

end AetherFlow.Mpsc
