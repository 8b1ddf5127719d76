/-
Module: AetherFlow.Mpsc.Handles
Purpose: What the `Sender` and `Receiver` handles guarantee in every interleaving, whatever the queue
  holds: the two reference counts are exact, a `Sender` outlives every call made through it, and the
  `Receiver` is dropped only between operations. Also the inversion lemmas that say, once, what a
  step of a send call and of the receiving side can do.
Trusted boundary: none
Main exports: enqueueStep_frame, dequeueStep_frame, Mailbox.enqueue_cases, Mailbox.consumerStep_cases,
  Mailbox.Later, Mailbox.step_later, HandleInv, HandleInv.step
-/
import AetherFlow.Mpsc.Mailbox

namespace AetherFlow.Mpsc

open Transition

variable {w : Nat} {T : Type*}

/-! ### What one step can do -/

section Frames

variable {M : Type*} {q q' : Queue w M}

/-- A step of `enqueue` leaves the mask, the reference counts and the consumer's position alone. -/
theorem enqueueStep_frame {pc pc' : EnqueuePc w M} (moved : enqueueStep q pc = some (q', pc')) :
    q'.mask = q.mask ∧ q'.producers = q.producers ∧ q'.consumerAlive = q.consumerAlive ∧
      q'.dequeuePos = q.dequeuePos := by
  cases pc with
  | cas item pos =>
      simp only [enqueueStep] at moved
      split at moved
      all_goals cases moved
      all_goals exact ⟨rfl, rfl, rfl, rfl⟩
  | returned result => cases moved
  | _ =>
      cases moved
      exact ⟨rfl, rfl, rfl, rfl⟩

/-- A step of `dequeue` leaves the mask, the reference counts and the producers' position alone. -/
theorem dequeueStep_frame {pc pc' : DequeuePc w M} (moved : dequeueStep q pc = some (q', pc')) :
    q'.mask = q.mask ∧ q'.producers = q.producers ∧ q'.consumerAlive = q.consumerAlive ∧
      q'.enqueuePos = q.enqueuePos := by
  cases pc with
  | cas pos =>
      simp only [dequeueStep] at moved
      split at moved
      all_goals cases moved
      all_goals exact ⟨rfl, rfl, rfl, rfl⟩
  | read pos =>
      simp only [dequeueStep] at moved
      split at moved
      all_goals cases moved
      all_goals exact ⟨rfl, rfl, rfl, rfl⟩
  | returned result => cases moved
  | _ =>
      cases moved
      exact ⟨rfl, rfl, rfl, rfl⟩

end Frames

namespace Mailbox

variable {s t : Mailbox w T}

/-- A step of call `c` is a retry of `send_blocking` or an atomic step of `enqueue`; the call was not
    finished before it. -/
theorem enqueue_cases {c : Nat} (moved : s.enqueue c = some t) :
    ∃ call, s.calls c = some call ∧ call.finished = false ∧
      ((∃ item, call.kind = .sendBlocking ∧ call.pc = .returned (.error (.full item)) ∧
          t = s.setPc c call (.checkAlive item)) ∨
        ∃ q pc', enqueueStep s.q call.pc = some (q, pc') ∧ t = s.afterEnqueue c call q pc') := by
  simp only [enqueue] at moved
  split at moved
  · cases moved
  · rename_i call found
    refine ⟨call, found, ?_⟩
    split at moved
    · rename_i item kind pc
      cases moved
      exact ⟨by simp [Call.finished, kind, pc], .inl ⟨item, kind, pc, rfl⟩⟩
    · obtain ⟨⟨q, pc'⟩, stepped, rfl⟩ := Option.map_eq_some_iff.1 moved
      refine ⟨?_, .inr ⟨q, pc', stepped, rfl⟩⟩
      cases pc : call.pc with
      | returned result => simp [pc, enqueueStep] at stepped
      | _ => cases kind : call.kind <;> simp [Call.finished, pc, kind]

/-- The receiving side's operations other than `dequeue` only move its program counter. -/
theorem consumerStep_cases (moved : s.consumerStep = some t) :
    (∃ result, s.consumer = .dequeue (.returned result) ∧ s.teardown = true ∧
        t = { s with consumer := if result.isSome then .dequeue .loadPos else .freed }) ∨
      (∃ pc q pc', s.consumer = .dequeue pc ∧ dequeueStep s.q pc = some (q, pc') ∧
        t = s.afterDequeue pc q pc') ∨
      (s.consumer = .loadProducers ∧
        t = { s with
          consumer := if 0 < s.q.producers then .closedAndEmpty false else .emptyLoadPos }) ∨
      (s.consumer = .emptyLoadPos ∧ t = { s with consumer := .emptyLoadSeq s.q.dequeuePos }) ∨
      (∃ pos, s.consumer = .emptyLoadSeq pos ∧
        t = { s with
          consumer :=
            .closedAndEmpty (decide (Word.signedGap (s.q.slot pos).seq (pos + 1) < 0)) }) := by
  simp only [consumerStep] at moved
  split at moved
  · rename_i result at_
    split at moved
    · rename_i teardown
      cases moved
      exact .inl ⟨result, at_, teardown, rfl⟩
    · cases moved
  · rename_i pc _ at_
    obtain ⟨⟨q, pc'⟩, stepped, rfl⟩ := Option.map_eq_some_iff.1 moved
    exact .inr (.inl ⟨pc, q, pc', at_, stepped, rfl⟩)
  · rename_i at_
    cases moved
    exact .inr (.inr (.inl ⟨at_, rfl⟩))
  · rename_i at_
    cases moved
    exact .inr (.inr (.inr (.inl ⟨at_, rfl⟩)))
  · rename_i pos at_
    cases moved
    exact .inr (.inr (.inr (.inr ⟨pos, at_, rfl⟩)))
  all_goals cases moved

theorem borrowed_eq_false_iff {handle : Nat} :
    s.borrowed handle = false ↔
      handle ∉ s.cloning ∧ ∀ c < s.issued, ∀ call, s.calls c = some call → call.handle = handle →
        call.finished = true := by
  simp only [borrowed, Bool.or_eq_false_iff, List.any_eq_false, List.mem_range]
  refine and_congr (by simp) (forall₂_congr fun c _ => ?_)
  cases s.calls c with
  | none => simp
  | some call => simp

theorem threadIdle_iff {thread : Nat} :
    s.threadIdle thread = true ↔
      ∀ c < s.issued, ∀ call, s.calls c = some call → call.thread = thread →
        call.finished = true := by
  simp only [threadIdle, List.all_eq_true, List.mem_range]
  refine forall₂_congr fun c _ => ?_
  cases s.calls c with
  | none => simp
  | some call =>
      simp only [Bool.or_eq_true, bne_iff_ne, Option.some.injEq, forall_eq']
      exact imp_iff_not_or.symm

@[simp] theorem release_q (s : Mailbox w T) : s.release.q = s.q := by
  unfold release
  split <;> rfl

/-- What was accepted, received or dropped stays so, and only a compare-and-swap on `enqueue_pos`
    accepts; the `Receiver` is dropped by `Receiver::drop` and never taken up again. -/
structure Later (a : Act T) (s t : Mailbox w T) : Prop where
  accepts : t.accepted = s.accepted ∨ ∃ c call item, a = .enqueue c ∧ s.calls c = some call ∧
    reserves s.q call.pc = some item ∧ t.accepted = s.accepted ++ [item]
  received : s.received <+: t.received
  dropped : s.dropped <+: t.dropped
  receiver : s.receiver ≠ .held → t.receiver ≠ .held
  held : a ≠ .dropReceiver → s.receiver = .held → t.receiver = .held

theorem Later.accepted {a : Act T} (later : Later a s t) : s.accepted <+: t.accepted := by
  rcases later.accepts with same | ⟨_, _, item, -, -, -, grown⟩
  · rw [same]
  · rw [grown]
    exact List.prefix_append _ _

/-- The history and the `Receiver` are as they were. -/
theorem Later.same {a : Act T} (accepted : t.accepted = s.accepted)
    (received : t.received = s.received) (dropped : t.dropped = s.dropped)
    (receiver : t.receiver = s.receiver) : Later a s t where
  accepts := .inl accepted
  received := by rw [received]
  dropped := by rw [dropped]
  receiver gone := by rwa [receiver]
  held _ held := by rwa [receiver]

theorem step_later {a : Act T} (moved : s.step a = some t) : Later a s t := by
  cases a with
  | enqueue c =>
      obtain ⟨call, found, -, ⟨item, -, -, rfl⟩ | ⟨q, pc, -, rfl⟩⟩ := enqueue_cases moved
      · exact .same rfl rfl rfl rfl
      · refine ⟨?_, List.prefix_rfl, List.prefix_rfl, id, fun _ => id⟩
        cases won : reserves s.q call.pc with
        | none => exact .inl (by simp [afterEnqueue, won])
        | some item => exact .inr ⟨c, call, item, rfl, found, won, by simp [afterEnqueue, won]⟩
  | enqueueSpurious c =>
      simp only [step, enqueueSpurious] at moved
      split at moved
      · cases moved
      · obtain ⟨pc, -, rfl⟩ := Option.map_eq_some_iff.1 moved
        exact .same rfl rfl rfl rfl
  | consumer =>
      obtain ⟨_, _, _, rfl⟩ | ⟨pc, q, pc', _, _, rfl⟩ | ⟨_, rfl⟩ | ⟨_, rfl⟩ | ⟨_, _, rfl⟩ :=
        consumerStep_cases moved
      · exact .same rfl rfl rfl rfl
      · refine ⟨.inl rfl, ?_, ?_, id, fun _ => id⟩
        all_goals
          simp only [afterDequeue]
          split
          · first | exact List.prefix_rfl | exact List.prefix_append _ _
          · first | exact List.prefix_rfl | exact List.prefix_append _ _
      all_goals exact .same rfl rfl rfl rfl
  | consumerSpurious =>
      simp only [step, consumerSpurious] at moved
      split at moved
      · obtain ⟨pc, -, rfl⟩ := Option.map_eq_some_iff.1 moved
        exact .same rfl rfl rfl rfl
      · cases moved
  | releaseSender =>
      obtain ⟨-, rfl⟩ := guarded moved
      unfold release
      split <;> exact .same rfl rfl rfl rfl
  | releaseReceiver =>
      obtain ⟨closing, rfl⟩ := guarded moved
      unfold release
      split
      all_goals
        exact ⟨.inl rfl, List.prefix_rfl, List.prefix_rfl, by simp, by simp [closing]⟩
  | dropReceiver =>
      obtain ⟨-, rfl⟩ := guarded moved
      exact ⟨.inl rfl, List.prefix_rfl, List.prefix_rfl, by simp, by simp⟩
  | _ =>
      obtain ⟨-, rfl⟩ := guarded moved
      exact .same rfl rfl rfl rfl

end Mailbox

/-! ### The handle invariant -/

/-- The reference counts are exact and every borrow is respected. -/
structure HandleInv (s : Mailbox w T) : Prop where
  producers : s.q.producers = s.senders.card + s.cloning.length
  strong : s.strong = s.senders.card + s.releasing + if s.receiver = .gone then 0 else 1
  cloning : ∀ h ∈ s.cloning, h ∈ s.senders
  borrow : ∀ c call, s.calls c = some call → call.finished = false → call.handle ∈ s.senders
  fresh : ∀ h ∈ s.senders, h < s.nextHandle
  issued : ∀ c, c < s.issued ↔ (s.calls c).isSome
  teardown : s.teardown = true ↔ s.strong = 0
  alive : s.q.consumerAlive = true ↔ s.receiver = .held
  quiet : s.receiver ≠ .held → s.teardown = false → s.consumer.quiescent = true

namespace HandleInv

variable {s t : Mailbox w T}

theorem new {q : Queue w (Msg T)} (one : q.producers = 1) (open_ : q.consumerAlive = true) :
    HandleInv (Mailbox.new q) where
  producers := by simp [Mailbox.new, one]
  strong := by simp [Mailbox.new]
  cloning := by simp [Mailbox.new]
  borrow := by simp [Mailbox.new]
  fresh := by simp [Mailbox.new]
  issued := by simp [Mailbox.new]
  teardown := by simp [Mailbox.new]
  alive := by simp [Mailbox.new, open_]
  quiet := by simp [Mailbox.new]

/-- A step of an unfinished call keeps its `Sender` borrowed or gives it back. -/
theorem setCall (inv : HandleInv s) {c : Nat} {call : Call w T} (found : s.calls c = some call)
    (running : call.finished = false) (pc : EnqueuePc w (Msg T)) {q : Queue w (Msg T)}
    (producers : q.producers = s.q.producers) (alive : q.consumerAlive = s.q.consumerAlive)
    (accepted : List (Msg T)) (loadedAt : Nat → Nat) :
    HandleInv { s.setPc c call pc with q := q, accepted := accepted, loadedAt := loadedAt } where
  producers := producers.trans inv.producers
  strong := inv.strong
  cloning := inv.cloning
  borrow := by
    intro d other at_ unfinished
    simp only [Mailbox.setPc] at at_ ⊢
    by_cases same : d = c
    · subst same
      rw [Function.update_self] at at_
      cases at_
      exact inv.borrow d call found running
    · rw [Function.update_of_ne same] at at_
      exact inv.borrow d other at_ unfinished
  fresh := inv.fresh
  issued := by
    intro d
    simp only [Mailbox.setPc]
    by_cases same : d = c
    · subst same
      rw [Function.update_self, inv.issued d, found]
      simp
    · rw [Function.update_of_ne same, inv.issued d]
  teardown := inv.teardown
  alive := by
    rw [alive]
    exact inv.alive
  quiet := inv.quiet

theorem call (inv : HandleInv s) {thread handle : Nat} {kind : SendKind} {body : T}
    (moved : s.call thread handle kind body = some t) : HandleInv t := by
  obtain ⟨⟨held, -⟩, rfl⟩ := guarded moved
  refine { inv with borrow := ?_, issued := ?_ }
  · intro d other at_ unfinished
    by_cases same : d = s.issued
    · subst same
      simp only [Function.update_self, Option.some.injEq] at at_
      subst at_
      exact held
    · simp only [Function.update_of_ne same] at at_
      exact inv.borrow d other at_ unfinished
  · intro d
    by_cases same : d = s.issued
    · subst same
      simp
    · simp only [Function.update_of_ne same, ← inv.issued d]
      omega

theorem enqueue (inv : HandleInv s) {c : Nat} (moved : s.enqueue c = some t) : HandleInv t := by
  obtain ⟨call, found, running, ⟨item, -, -, rfl⟩ | ⟨q, pc', stepped, rfl⟩⟩ :=
    Mailbox.enqueue_cases moved
  · exact inv.setCall found running _ rfl rfl s.accepted s.loadedAt
  · obtain ⟨-, producers, alive, -⟩ := enqueueStep_frame stepped
    exact inv.setCall found running pc' producers alive _ _

theorem enqueueSpurious (inv : HandleInv s) {c : Nat} (moved : s.enqueueSpurious c = some t) :
    HandleInv t := by
  simp only [Mailbox.enqueueSpurious] at moved
  split at moved
  · cases moved
  · rename_i call found
    obtain ⟨pc, spurious, rfl⟩ := Option.map_eq_some_iff.1 moved
    cases at_ : call.pc with
    | cas item pos =>
        have running : call.finished = false := by
          cases kind : call.kind <;> simp [Call.finished, at_, kind]
        exact inv.setCall found running pc rfl rfl s.accepted _
    | _ => simp [at_, Mpsc.enqueueSpurious] at spurious

/-- A step of the receiving side touches no handle. -/
theorem setConsumer (inv : HandleInv s) (pc : ConsumerPc w (Msg T)) {q : Queue w (Msg T)}
    (producers : q.producers = s.q.producers) (alive : q.consumerAlive = s.q.consumerAlive)
    (received dropped : List (Msg T)) (busy : s.receiver = .held ∨ s.teardown = true) :
    HandleInv
      { s with q := q, consumer := pc, received := received, dropped := dropped } where
  producers := producers.trans inv.producers
  strong := inv.strong
  cloning := inv.cloning
  borrow := inv.borrow
  fresh := inv.fresh
  issued := inv.issued
  teardown := inv.teardown
  alive := by
    rw [alive]
    exact inv.alive
  quiet := by
    intro dropped running
    rcases busy with held | teardown
    · exact absurd held dropped
    · rw [teardown] at running
      cases running

/-- An operation in progress on the receiving side is the `Receiver`'s or `Queue::drop`'s. -/
theorem busy_of_not_quiescent (inv : HandleInv s) (running : s.consumer.quiescent = false) :
    s.receiver = .held ∨ s.teardown = true := by
  by_contra neither
  obtain ⟨dropped, alive⟩ := not_or.1 neither
  have := inv.quiet dropped (by simpa using alive)
  rw [running] at this
  cases this

theorem consumerStep (inv : HandleInv s) (moved : s.consumerStep = some t) : HandleInv t := by
  obtain ⟨result, -, teardown, rfl⟩ | ⟨pc, q, pc', at_, stepped, rfl⟩ | ⟨at_, rfl⟩ |
    ⟨at_, rfl⟩ | ⟨pos, at_, rfl⟩ := Mailbox.consumerStep_cases moved
  · exact inv.setConsumer _ rfl rfl s.received s.dropped (.inr teardown)
  · obtain ⟨-, producers, alive, -⟩ := dequeueStep_frame stepped
    have running : s.consumer.quiescent = false := by
      rw [at_]
      cases pc with
      | returned result => simp [dequeueStep] at stepped
      | _ => rfl
    exact inv.setConsumer _ producers alive _ _ (inv.busy_of_not_quiescent running)
  all_goals
    have busy := inv.busy_of_not_quiescent (by rw [at_]; rfl)
    exact inv.setConsumer _ rfl rfl s.received s.dropped busy

theorem consumerSpurious (inv : HandleInv s) (moved : s.consumerSpurious = some t) :
    HandleInv t := by
  simp only [Mailbox.consumerSpurious] at moved
  split at moved
  · rename_i pc at_
    obtain ⟨pc', spurious, rfl⟩ := Option.map_eq_some_iff.1 moved
    have running : s.consumer.quiescent = false := by
      rw [at_]
      cases pc with
      | cas pos => rfl
      | _ => simp [dequeueSpurious] at spurious
    exact inv.setConsumer _ rfl rfl s.received s.dropped (inv.busy_of_not_quiescent running)
  · cases moved

theorem startConsumer (inv : HandleInv s) (held : s.receiver = .held) (pc : ConsumerPc w (Msg T)) :
    HandleInv { s with consumer := pc } :=
  inv.setConsumer pc rfl rfl s.received s.dropped (.inl held)

theorem cloneStart (inv : HandleInv s) {handle : Nat} (moved : s.cloneStart handle = some t) :
    HandleInv t := by
  obtain ⟨held, rfl⟩ := guarded moved
  refine { inv with producers := ?_, cloning := ?_ }
  · simp only [List.length_cons, inv.producers]
    omega
  · intro h cloned
    rcases List.mem_cons.1 cloned with rfl | earlier
    · exact held
    · exact inv.cloning h earlier

theorem cloneFinish (inv : HandleInv s) {handle : Nat} (moved : s.cloneFinish handle = some t) :
    HandleInv t := by
  obtain ⟨cloned, rfl⟩ := guarded moved
  have unused : s.nextHandle ∉ s.senders := fun used => (inv.fresh _ used).ne rfl
  have some_sender : 0 < s.senders.card := Finset.card_pos.2 ⟨handle, inv.cloning handle cloned⟩
  refine { inv with
    producers := ?_, strong := ?_, cloning := ?_, borrow := ?_, fresh := ?_, teardown := ?_ }
  · have := List.length_pos_of_mem cloned
    simp only [Finset.card_insert_of_notMem unused, List.length_erase_of_mem cloned,
      inv.producers]
    omega
  · simp only [Finset.card_insert_of_notMem unused, inv.strong]
    omega
  · intro h other
    exact Finset.mem_insert_of_mem (inv.cloning h (List.mem_of_mem_erase other))
  · intro c call found unfinished
    exact Finset.mem_insert_of_mem (inv.borrow c call found unfinished)
  · intro h held
    rcases Finset.mem_insert.1 held with rfl | old
    · exact Nat.lt_succ_self _
    · exact (inv.fresh h old).trans (Nat.lt_succ_self _)
  · rw [inv.teardown]
    have := inv.strong
    simp only
    omega

theorem dropSender (inv : HandleInv s) {handle : Nat} (moved : s.dropSender handle = some t) :
    HandleInv t := by
  obtain ⟨⟨held, unborrowed⟩, rfl⟩ := guarded moved
  obtain ⟨uncloned, uncalled⟩ := Mailbox.borrowed_eq_false_iff.1 unborrowed
  have some_sender : 0 < s.senders.card := Finset.card_pos.2 ⟨handle, held⟩
  refine { inv with producers := ?_, strong := ?_, cloning := ?_, borrow := ?_, fresh := ?_ }
  · simp only [Finset.card_erase_of_mem held, inv.producers]
    omega
  · simp only [Finset.card_erase_of_mem held, inv.strong]
    omega
  · intro h cloned
    exact Finset.mem_erase.2 ⟨fun same => uncloned (same ▸ cloned), inv.cloning h cloned⟩
  · intro c call found unfinished
    refine Finset.mem_erase.2 ⟨fun same => ?_, inv.borrow c call found unfinished⟩
    have issued : c < s.issued := (inv.issued c).2 (Option.isSome_iff_exists.2 ⟨call, found⟩)
    rw [uncalled c issued call found same] at unfinished
    cases unfinished
  · intro h kept
    exact inv.fresh h (Finset.mem_of_mem_erase kept)

/-- Giving up a counted reference; the last one hands the queue to `Queue::drop`. -/
theorem release (inv : HandleInv s) {releasing : Nat} {receiver : ReceiverState}
    (counted : s.strong = s.senders.card + releasing + (if receiver = .gone then 0 else 1) + 1)
    (held : receiver = .held ↔ s.receiver = .held) :
    HandleInv (Mailbox.release { s with releasing := releasing, receiver := receiver }) := by
  have running : s.teardown = false := by
    rw [← Bool.not_eq_true, inv.teardown]
    omega
  unfold Mailbox.release
  split
  · rename_i last
    refine { inv with strong := ?_, teardown := ?_, alive := ?_, quiet := ?_ }
    · simp only at counted last ⊢
      omega
    · simp
    · rw [inv.alive, held]
    · simp
  · rename_i more
    refine { inv with strong := ?_, teardown := ?_, alive := ?_, quiet := ?_ }
    · simp only at counted ⊢
      omega
    · simp only [running] at counted more ⊢
      simp
      omega
    · rw [inv.alive, held]
    · intro dropped _
      exact inv.quiet (fun still => dropped (held.2 still)) running

theorem releaseSender (inv : HandleInv s) (moved : s.releaseSender = some t) : HandleInv t := by
  obtain ⟨some_released, rfl⟩ := guarded moved
  refine inv.release ?_ Iff.rfl
  rw [inv.strong]
  omega

theorem dropReceiver (inv : HandleInv s) (moved : s.dropReceiver = some t) : HandleInv t := by
  obtain ⟨⟨held, quiescent⟩, rfl⟩ := guarded moved
  refine { inv with strong := ?_, alive := ?_, quiet := ?_ }
  · rw [inv.strong, held]
    rfl
  · simp
  · intro _ _
    exact quiescent

theorem releaseReceiver (inv : HandleInv s) (moved : s.releaseReceiver = some t) :
    HandleInv t := by
  obtain ⟨closing, rfl⟩ := guarded moved
  refine inv.release ?_ ?_
  · rw [inv.strong, closing]
    rfl
  · simp [closing]

/-- Every step keeps the handle invariant. -/
theorem step (inv : HandleInv s) {a : Act T} (moved : s.step a = some t) : HandleInv t := by
  cases a with
  | call thread handle kind body => exact inv.call moved
  | enqueue c => exact inv.enqueue moved
  | enqueueSpurious c => exact inv.enqueueSpurious moved
  | cloneStart handle => exact inv.cloneStart moved
  | cloneFinish handle => exact inv.cloneFinish moved
  | dropSender handle => exact inv.dropSender moved
  | releaseSender => exact inv.releaseSender moved
  | tryRecv =>
      obtain ⟨⟨held, -⟩, rfl⟩ := guarded moved
      exact inv.startConsumer held _
  | closedAndEmpty =>
      obtain ⟨⟨held, -⟩, rfl⟩ := guarded moved
      exact inv.startConsumer held _
  | consumer => exact inv.consumerStep moved
  | consumerSpurious => exact inv.consumerSpurious moved
  | dropReceiver => exact inv.dropReceiver moved
  | releaseReceiver => exact inv.releaseReceiver moved

end HandleInv

end AetherFlow.Mpsc
