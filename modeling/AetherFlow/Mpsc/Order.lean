/-
Module: AetherFlow.Mpsc.Order
Purpose: What the mailbox delivers and in which order. A thread makes one send call at a time, so its
  messages reserve their positions in the order of its calls; with the ring invariant, the core
  receives a prefix of the accepted messages, reads a slot only while it owns a message, and no call
  writes over a message that is still in its slot.
Trusted boundary: none
Main exports: step_calls_cases, ThreadOrder, Runs.threadOrder, Delivery, delivery_of_run,
  delivery_breaks_when_lapped
-/
import AetherFlow.Mpsc.Lap

namespace AetherFlow.Mpsc

open Transition

variable {w : Nat} {T : Type*} {s t : Mailbox w T}

/-- Call `call` may be at `pc` after its next step: a retry of `send_blocking`, a step of `enqueue`, or
    a compare-and-swap that fails for no reason. -/
def Call.Next (q : Queue w (Msg T)) (call : Call w T) (pc : EnqueuePc w (Msg T)) : Prop :=
  (∃ item, call.pc = .returned (.error (.full item)) ∧ pc = .checkAlive item) ∨
    (∃ q', enqueueStep q call.pc = some (q', pc)) ∨ enqueueSpurious q call.pc = some pc

/-- A step starts a call, moves one unfinished call, or leaves all calls and the accepted messages
    alone. A message is accepted by the compare-and-swap of the call it was given to. -/
theorem step_calls_cases {a : Act T} (moved : s.step a = some t) :
    (t.calls = s.calls ∧ t.issued = s.issued ∧ t.accepted = s.accepted) ∨
      (∃ thread handle kind body, s.threadIdle thread = true ∧
        t.calls = Function.update s.calls s.issued
          (some { thread, handle, kind, body, pc := .checkAlive { call := s.issued, body } }) ∧
        t.issued = s.issued + 1 ∧ t.accepted = s.accepted) ∨
      ∃ c call pc, s.calls c = some call ∧ call.finished = false ∧ call.Next s.q pc ∧
        t.calls = Function.update s.calls c (some { call with pc := pc }) ∧ t.issued = s.issued ∧
        (t.accepted = s.accepted ∨
          ∃ item pos, call.pc = .cas item pos ∧ t.accepted = s.accepted ++ [item]) := by
  cases a with
  | call thread handle kind body =>
      obtain ⟨⟨-, idle⟩, rfl⟩ := guarded moved
      exact .inr (.inl ⟨thread, handle, kind, body, idle, rfl, rfl, rfl⟩)
  | enqueue c =>
      obtain ⟨call, found, running, ⟨item, -, full, rfl⟩ | ⟨q, pc, stepped, rfl⟩⟩ :=
        Mailbox.enqueue_cases moved
      · have next : call.Next s.q (.checkAlive item) := .inl ⟨item, full, rfl⟩
        exact .inr (.inr ⟨c, call, _, found, running, next, rfl, rfl, .inl rfl⟩)
      · have next : call.Next s.q pc := .inr (.inl ⟨q, stepped⟩)
        refine .inr (.inr ⟨c, call, pc, found, running, next, rfl, rfl, ?_⟩)
        cases at_ : call.pc with
        | cas item pos =>
            by_cases current : s.q.enqueuePos = pos
            · exact .inr ⟨item, pos, rfl, by
                simp [Mailbox.afterEnqueue, at_, Mailbox.reserves, current]⟩
            · exact .inl (by simp [Mailbox.afterEnqueue, at_, Mailbox.reserves, current])
        | _ => exact .inl (by simp [Mailbox.afterEnqueue, at_, Mailbox.reserves])
  | enqueueSpurious c =>
      simp only [Mailbox.step, Mailbox.enqueueSpurious] at moved
      split at moved
      · cases moved
      · rename_i call found
        obtain ⟨pc, spurious, rfl⟩ := Option.map_eq_some_iff.1 moved
        refine .inr (.inr ⟨c, call, pc, found, ?_, .inr (.inr spurious), rfl, rfl, .inl rfl⟩)
        cases at_ : call.pc with
        | cas item pos => cases kind : call.kind <;> simp [Call.finished, at_, kind]
        | _ => simp [at_, Mpsc.enqueueSpurious] at spurious
  | consumer =>
      obtain ⟨_, _, _, rfl⟩ | ⟨_, _, _, _, _, rfl⟩ | ⟨_, rfl⟩ | ⟨_, rfl⟩ | ⟨_, _, rfl⟩ :=
        Mailbox.consumerStep_cases moved
      all_goals exact .inl ⟨rfl, rfl, rfl⟩
  | consumerSpurious =>
      simp only [Mailbox.step, Mailbox.consumerSpurious] at moved
      split at moved
      · obtain ⟨pc, -, rfl⟩ := Option.map_eq_some_iff.1 moved
        exact .inl ⟨rfl, rfl, rfl⟩
      · cases moved
  | releaseSender | releaseReceiver =>
      obtain ⟨-, rfl⟩ := guarded moved
      unfold Mailbox.release
      split <;> exact .inl ⟨rfl, rfl, rfl⟩
  | _ =>
      obtain ⟨-, rfl⟩ := guarded moved
      exact .inl ⟨rfl, rfl, rfl⟩

/-- Where a call of the state after a step comes from: it was there, it has just started, or it has made
    its next step. -/
theorem step_call_cases {a : Act T} (moved : s.step a = some t) {c : Nat} {call : Call w T}
    (found : t.calls c = some call) :
    s.calls c = some call ∨ (∃ item, call.pc = .checkAlive item) ∨
      ∃ mover pc, s.calls c = some mover ∧ mover.Next s.q pc ∧ call = { mover with pc := pc } := by
  obtain ⟨calls, -⟩ | ⟨thread, handle, kind, body, -, calls, -⟩ |
    ⟨d, mover, pc, mine, -, next, calls, -⟩ := step_calls_cases moved
  · rw [calls] at found
    exact .inl found
  · rw [calls] at found
    by_cases new : c = s.issued
    · rw [new, Function.update_self] at found
      cases found
      exact .inr (.inl ⟨_, rfl⟩)
    · rw [Function.update_of_ne new] at found
      exact .inl found
  · rw [calls] at found
    by_cases same : c = d
    · rw [same, Function.update_self] at found
      cases found
      exact .inr (.inr ⟨mover, pc, same ▸ mine, next, rfl⟩)
    · rw [Function.update_of_ne same] at found
      exact .inl found

/-! ### The calls of one thread -/

/-- The thread that made call `c`. -/
def threadOf (calls : Nat → Option (Call w T)) (c : Nat) : Option Nat := (calls c).map Call.thread

theorem threadOf_update {calls : Nat → Option (Call w T)} {c : Nat} {call : Call w T}
    (found : calls c = some call) (pc : EnqueuePc w (Msg T)) :
    threadOf (Function.update calls c (some { call with pc := pc })) = threadOf calls := by
  funext d
  by_cases same : d = c
  · subst same
    simp [threadOf, found]
  · simp [threadOf, same]

/-- A thread's unfinished call is its last one, and its messages were accepted in the order of its
    calls. -/
structure ThreadOrder (s : Mailbox w T) : Prop where
  last : ∀ c call, s.calls c = some call → call.finished = false → ∀ d,
    threadOf s.calls d = some call.thread → d ≤ c
  sorted : s.accepted.Pairwise fun m m' =>
    threadOf s.calls m.call = threadOf s.calls m'.call → m.call < m'.call

theorem ThreadOrder.new (q : Queue w (Msg T)) : ThreadOrder (Mailbox.new q) where
  last := by simp [Mailbox.new]
  sorted := by simp [Mailbox.new]

theorem ThreadOrder.step {k : Nat} (order : ThreadOrder s) (handles : HandleInv s) (inv : Inv k s)
    {a : Act T} (moved : s.step a = some t) : ThreadOrder t := by
  obtain ⟨calls, -, accepted⟩ | ⟨thread, handle, kind, body, idle, calls, -, accepted⟩ |
    ⟨c, call, pc, found, running, -, calls, -, accepted⟩ := step_calls_cases moved
  · exact ⟨by rw [calls]; exact order.last, by rw [calls, accepted]; exact order.sorted⟩
  · -- The new call has the largest number, and the thread's earlier calls are finished.
    have earlier : ∀ d, threadOf s.calls d = some thread → d < s.issued := fun d mine =>
      (handles.issued d).2 (Option.isSome_of_mem (Option.map_eq_some_iff.1 mine).choose_spec.1)
    refine ⟨?_, ?_⟩
    · rw [calls]
      refine forall_calls_update ?_ ?_
      · intro _ d mine
        by_cases new : d = s.issued
        · exact new.le
        · refine (earlier d ?_).le
          simpa [threadOf, new] using mine
      · intro d other old found unfinished e mine
        by_cases new : e = s.issued
        · subst new
          have thread_eq : thread = other.thread := by simpa [threadOf] using mine
          have inside : d < s.issued := (handles.issued d).2 (Option.isSome_of_mem found)
          have finished := Mailbox.threadIdle_iff.1 idle d inside other found thread_eq.symm
          rw [unfinished] at finished
          cases finished
        · exact order.last d other found unfinished e (by simpa [threadOf, new] using mine)
    · rw [calls, accepted]
      refine order.sorted.imp_of_mem fun {m m'} member member' before => ?_
      have old : ∀ m ∈ s.accepted, m.call ≠ s.issued := fun m member => by
        obtain ⟨call, found, -⟩ := inv.origin m member
        exact ((handles.issued m.call).2 (Option.isSome_of_mem found)).ne
      simpa [threadOf, old m member, old m' member'] using before
  · have threads := threadOf_update found pc
    refine ⟨?_, ?_⟩
    · rw [calls, threads]
      refine forall_calls_update (fun _ => order.last c call found running) ?_
      exact fun d other _ found => order.last d other found
    · rw [calls, threads]
      rcases accepted with same | ⟨item, pos, at_, grown⟩
      · rw [same]
        exact order.sorted
      · rw [grown]
        have ok := inv.calls c call found
        have own := ok.item item (by simp [at_, EnqueuePc.item])
        have unsent := ok.outside (by rw [at_]; rfl)
        refine List.pairwise_append.2 ⟨order.sorted, List.pairwise_singleton _ _, ?_⟩
        intro m member last isLast same
        rw [List.mem_singleton.1 isLast, own] at same ⊢
        have le := order.last c call found running m.call (by rw [same, threadOf, found]; rfl)
        exact lt_of_le_of_ne le (unsent m member)

theorem Runs.threadOrder {capacity : Nat} (run : Runs NotLapped capacity s) (two : 2 ≤ capacity) :
    ThreadOrder s := by
  refine run.invariant ThreadOrder.new fun u a v run order _ moved => ?_
  obtain ⟨k, -, -, -, inv⟩ := run.inv two
  exact order.step run.handles inv moved

/-! ### Delivery -/

/-- What the receiving side gets and what the slots see. `accepted` lists the messages in the order
    of their successful compare-and-swap. -/
structure Delivery (s : Mailbox w T) : Prop where
  /-- Nothing is skipped and nothing comes out of order. -/
  received_prefix : s.received <+: s.accepted
  /-- Nothing is accepted twice, so nothing is received twice. -/
  once : (s.accepted.map Msg.call).Nodup
  /-- A message is the one its call was given. -/
  intact : ∀ m ∈ s.accepted, ∃ call, s.calls m.call = some call ∧ m.body = call.body
  /-- The messages of one thread come out in the order of its calls. -/
  threadOrder : s.received.Pairwise fun m m' =>
    threadOf s.calls m.call = threadOf s.calls m'.call → m.call < m'.call
  /-- A slot is read only while it owns the message next in order. -/
  readWritten : ∀ pos, s.consumer = .dequeue (.read pos) →
    ∃ m, s.accepted[s.taken.length]? = some m ∧ (s.q.slot pos).val = .live m
  /-- A slot is written only while it owns no message. -/
  writeFree : ∀ c call item pos, s.calls c = some call → call.pc = .write item pos →
    ¬ (s.q.slot pos).val.IsLive

/-- A call about to write finds no message in its slot. -/
theorem Inv.write_free {k : Nat} (inv : Inv k s) (fits : k < w) {c : Nat} {call : Call w T}
    (found : s.calls c = some call) {item : Msg T} {pos : BitVec w}
    (at_ : call.pc = .write item pos) : ¬ (s.q.slot pos).val.IsLive := by
  obtain ⟨n, low, own, word, -, high⟩ :=
    inv.owned_slot fits found pos (by rw [at_]; rfl)
  have slot := inv.slots n low high
  have reserved : stageOf s.calls c = .reserved := by rw [stageOf_eq found, at_]; rfl
  simp only [SlotOk, own, reserved] at slot
  rw [word, inv.slot_ofNat fits]
  exact slot.2

/-- With two slots or more, delivery is in order in every run in which no call is lapped. -/
theorem delivery_of_run {capacity : Nat} (run : Runs NotLapped capacity s) (two : 2 ≤ capacity) :
    Delivery s := by
  obtain ⟨k, -, fits, -, inv⟩ := run.inv two
  have received : s.received <+: s.accepted := (List.prefix_append _ _).trans inv.taken
  refine ⟨received, inv.nodup, inv.origin, (run.threadOrder two).sorted.sublist received.sublist,
    ?_, ?_⟩
  · intro pos at_
    obtain ⟨m, ready, live⟩ := inv.read_slot fits at_
    exact ⟨m, ready.1, live⟩
  · intro c call item pos found at_
    exact inv.write_free fits found at_

/-- Two threads send through a ring of two slots. Call 1 reserves position 0 before call 0, whose
    compare-and-swap fails, and stalls; the core finds nothing, call 2 is told that the ring is full,
    call 1 publishes, and the core receives all three accepted messages. -/
def contendedLabels : List (Act Nat) := List.flatten
  [[.cloneStart 0, .cloneFinish 0, .call 0 0 .trySend 7, .call 1 1 .trySend 8],
    List.replicate 3 (.enqueue 0), List.replicate 4 (.enqueue 1), List.replicate 5 (.enqueue 0),
    [.tryRecv, .consumer, .consumer],
    .call 0 0 .trySend 9 :: List.replicate 4 (.enqueue 2), List.replicate 2 (.enqueue 1), recvLabels,
    .call 0 0 .trySend 10 :: List.replicate 6 (.enqueue 3), recvLabels, recvLabels]

theorem delivery_of_contended : ∃ s : Mailbox 64 Nat, Runs NotLapped 2 s ∧
    s.received = [⟨1, 8⟩, ⟨0, 7⟩, ⟨3, 10⟩] ∧ Delivery s := by
  have executed : (execChecked Mailbox.step NotLapped (.new (.new 64 (Msg Nat) 2))
      contendedLabels).map Mailbox.received = some [⟨1, 8⟩, ⟨0, 7⟩, ⟨3, 10⟩] := by decide +kernel
  obtain ⟨s, final, received⟩ := Option.map_eq_some_iff.1 executed
  have run : Runs NotLapped 2 s :=
    ⟨_, channel_two_pow (k := 1) (by decide), reach_of_execChecked final⟩
  exact ⟨s, run, received, delivery_of_run run le_rfl⟩

/-- A lapped call breaks the order of delivery: the core is handed the lapped call's message in the
    place of an accepted one. -/
theorem delivery_breaks_when_lapped :
    ∃ s : Mailbox 64 Unit, Runs Free 2 s ∧ ¬ s.received <+: s.accepted := by
  obtain ⟨lost, s, lapped⟩ := lappedRemoval
  refine ⟨s, lapped.runs, fun received => lapped.unreceived ?_⟩
  obtain ⟨rest, same⟩ := received
  have inside : 2 ^ 64 - 2 < s.received.length :=
    (List.getElem?_eq_some_iff.1 lapped.received).1
  have at_ := lapped.accepted
  rw [← same, List.getElem?_append_left inside] at at_
  exact List.mem_of_getElem? at_

end AetherFlow.Mpsc
