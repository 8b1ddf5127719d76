/-
Module: AetherFlow.Mpsc.Lap
Purpose: The one way past the ring invariant. On a 64-bit machine a call stalls between reading its
  position and its compare-and-swap while `2 ^ 64` messages pass; the wrapped `enqueue_pos` then
  matches again, and the call writes over a message that nobody has received. The run is built by
  induction on the number of messages that pass the stalled call, then followed to the point where the
  core removes the actor as closed and empty.
Trusted boundary: none
Main exports: Passed, stalled_exists, LappedRemoval, lappedRemoval
-/
import AetherFlow.Mpsc.Alone

namespace AetherFlow.Mpsc

open Transition Word

/-- Call 0 stands at `pc` while a second thread has sent `n` messages through the two-slot ring and the
    core has received them all. -/
structure Passed (pc : EnqueuePc 64 (Msg Unit)) (n : Nat) (s : Mailbox 64 Unit) : Prop where
  run : Reach Mailbox.step Free (Mailbox.new (Queue.new 64 (Msg Unit) 2)) s
  accepted : s.accepted.length = n
  received : s.received.length = n
  running : s.teardown = false
  stalled : s.calls 0 = some { thread := 0, handle := 0, kind := .trySend, body := (), pc := pc }
  others : ∀ c call, s.calls c = some call → c ≠ 0 → call.finished = true ∧ call.thread = 1
  consumer : s.consumer.quiescent = true
  receiver : s.receiver = .held
  senders : s.senders = {0}
  cloning : s.cloning = []

namespace Passed

variable {pc : EnqueuePc 64 (Msg Unit)} {n : Nat} {s : Mailbox 64 Unit}

theorem handles (passed : Passed pc n s) : HandleInv s :=
  passed.run.invariant (HandleInv.new rfl rfl) fun _ _ _ inv _ moved => inv.step moved

theorem inv (passed : Passed pc n s) (short : n ≤ 2 ^ 64) : Inv 1 s := by
  have run := notLapped_of_short passed.run (passed.accepted.trans_le short)
  refine (run.invariant (P := fun s => HandleInv s ∧ Inv 1 s)
    ⟨HandleInv.new rfl rfl, Inv.new 1⟩ ?_).2
  rintro u a v ⟨handles, inv⟩ unlapped moved
  exact ⟨handles.step moved, inv.step handles le_rfl (by decide) unlapped moved⟩

theorem taken (passed : Passed pc n s) (short : n ≤ 2 ^ 64) : s.taken.length = n := by
  rw [Mailbox.taken, (passed.inv short).undropped passed.running, List.append_nil,
    passed.received]

theorem idle (passed : Passed pc n s) : s.threadIdle 1 = true := by
  refine Mailbox.threadIdle_iff.2 fun c _ call found mine => ?_
  by_cases zero : c = 0
  · subst zero
    rw [passed.stalled] at found
    cases found
    cases mine
  · exact (passed.others c call found zero).1

theorem issued_pos (passed : Passed pc n s) : s.issued ≠ 0 := by
  have := (passed.handles.issued 0).2 (by simp [passed.stalled])
  omega

theorem alive (passed : Passed pc n s) : s.q.consumerAlive = true :=
  passed.handles.alive.2 passed.receiver

/-- Both positions stand at `n`. -/
theorem positions (passed : Passed pc n s) (short : n ≤ 2 ^ 64) :
    s.q.enqueuePos = BitVec.ofNat 64 n ∧ s.q.dequeuePos = BitVec.ofNat 64 n := by
  have inv := passed.inv short
  have unclaimed : s.consumer.claimed = 0 := by
    have quiescent := passed.consumer
    revert quiescent
    cases s.consumer with
    | dequeue inner => cases inner <;> simp [ConsumerPc.quiescent, ConsumerPc.claimed]
    | _ => simp [ConsumerPc.quiescent, ConsumerPc.claimed]
  rw [inv.enqueuePos, inv.dequeuePos, passed.accepted, passed.taken short, unclaimed]
  exact ⟨rfl, rfl⟩

/-- The two slots are free for positions `n` and `n + 1`. -/
theorem slots (passed : Passed pc n s) (short : n ≤ 2 ^ 64) {i : Nat} (small : i < 2) :
    (s.q.buffer ((n + i) % 2)).seq = BitVec.ofNat 64 (n + i) := by
  have inv := passed.inv short
  have slot := inv.slots (n + i) (by rw [passed.taken short]; omega)
    (by rw [passed.taken short]; omega)
  have unreserved : s.accepted[n + i]? = none :=
    List.getElem?_eq_none_iff.2 (by rw [passed.accepted]; omega)
  simp only [SlotOk, unreserved] at slot
  exact slot.1

/-- One more message passes the stalled call. -/
theorem round (passed : Passed pc n s) (short : n < 2 ^ 64) : ∃ t, Reach Mailbox.step Free s t ∧ Passed pc (n + 1) t := by
  obtain ⟨enqueuePos, dequeuePos⟩ := passed.positions short.le
  have inv := passed.inv short.le
  have free : (s.q.slot s.q.enqueuePos).seq = s.q.enqueuePos := by
    rw [enqueuePos, inv.slot_ofNat (by decide)]
    exact passed.slots short.le (i := 0) (by decide)
  have sent := exec_send 1 0 () (by simp [passed.senders]) passed.idle
    passed.alive free
  have taken := exec_recv (s := s.afterSend 1 0 ()) (m := { call := s.issued, body := () })
    passed.receiver passed.consumer passed.running
    (by simp [Mailbox.afterSend, Queue.slot, Queue.index, enqueuePos, dequeuePos])
    (.inl (by simp [Mailbox.afterSend, Queue.slot, Queue.index, enqueuePos, dequeuePos]))
  have further := (reach_of_exec sent).trans (reach_of_exec taken)
  refine ⟨_, further, passed.run.trans further, ?_, ?_, passed.running, ?_, ?_, rfl,
    passed.receiver, passed.senders, passed.cloning⟩
  · simp [Mailbox.afterSend, Mailbox.afterRecv, passed.accepted]
  · simp [Mailbox.afterSend, Mailbox.afterRecv, passed.received]
  · simp [Mailbox.afterSend, Mailbox.afterRecv, passed.issued_pos.symm, passed.stalled]
  · intro c call found nonzero
    by_cases new : c = s.issued
    · subst new
      simp only [Mailbox.afterSend, Mailbox.afterRecv, Function.update_self] at found
      cases found
      exact ⟨rfl, rfl⟩
    · simp only [Mailbox.afterSend, Mailbox.afterRecv, Function.update_of_ne new] at found
      exact passed.others c call found nonzero

end Passed

/-- The labels that bring call 0 to its compare-and-swap on an empty ring. -/
theorem stalled_zero : ∃ s, Passed (.cas { call := 0, body := () } 0) 0 s := by
  have run : exec Mailbox.step (Mailbox.new (Queue.new 64 (Msg Unit) 2))
      (.call 0 0 .trySend () :: List.replicate 3 (.enqueue 0)) = some
        { Mailbox.new (Queue.new 64 (Msg Unit) 2) with
          calls := Function.update (fun _ => none) 0 (some
            { thread := 0, handle := 0, kind := .trySend, body := ()
              pc := .cas { call := 0, body := () } 0 })
          issued := 1
          loadedAt := Function.update (fun _ => 0) 0 0 } := by
    simp [exec, List.replicate, Mailbox.step, Mailbox.call, Mailbox.new, Mailbox.threadIdle,
      Mailbox.enqueue, enqueueStep, Queue.new, Mailbox.afterEnqueue, Mailbox.setPc,
      Mailbox.reserves, Mailbox.loadsPos, Queue.slot, Queue.index]
  refine ⟨_, reach_of_exec run, rfl, rfl, rfl, by simp, ?_, rfl, rfl, rfl, rfl⟩
  intro c call found nonzero
  simp [nonzero] at found

/-- Any number of messages up to a full word can pass call 0, stalled before its compare-and-swap on
    position 0. -/
theorem stalled_exists {n : Nat} (short : n ≤ 2 ^ 64) :
    ∃ s, Passed (.cas { call := 0, body := () } 0) n s := by
  induction n with
  | zero => exact stalled_zero
  | succ n inductionHypothesis =>
      obtain ⟨s, stalled⟩ := inductionHypothesis (by omega)
      obtain ⟨t, _, passed⟩ := stalled.round (by omega)
      exact ⟨t, passed⟩

/-! ### The lapped call goes on -/

/-- `t` is a mailbox that the core has found closed and empty although one accepted message, that of
    call `lost`, was overwritten: the `2 ^ 64 - 1`-th message, not among those received. -/
structure LappedRemoval (lost : Nat) (t : Mailbox 64 Unit) : Prop where
  run : Reach Mailbox.step Free (Mailbox.new (Queue.new 64 (Msg Unit) 2)) t
  verdict : t.consumer = .closedAndEmpty true
  sent : t.calls lost = some
    { thread := 1, handle := 0, kind := .trySend, body := (), pc := .returned (.ok ()) }
  accepted : t.accepted[2 ^ 64 - 2]? = some { call := lost, body := () }
  received : t.received[2 ^ 64 - 2]? = some { call := 0, body := () }
  unreceived : { call := lost, body := () } ∉ t.received
  undropped : t.dropped = []
  overwritten : ∀ i < 2, ¬ (t.q.buffer i).val.IsLive

section Overrun

variable {s : Mailbox 64 Unit}

/-- The message of the stalled call. -/
def late : Msg Unit := { call := 0, body := () }

/-- The stalled call after its compare-and-swap on the wrapped position and its write. -/
def overrun (s : Mailbox 64 Unit) : Mailbox 64 Unit :=
  { s with
    q := { s.q with
      enqueuePos := 1
      buffer := Function.update s.q.buffer 0 { seq := (s.q.buffer 0).seq, val := .live late } }
    calls := Function.update s.calls 0
      (some { thread := 0, handle := 0, kind := .trySend, body := (), pc := .storeSeq 0 })
    accepted := s.accepted ++ [late]
    loadedAt := Function.update s.loadedAt 0 s.accepted.length }

theorem exec_overrun (wrapped : s.q.enqueuePos = 0)
    (stalled : s.calls 0 = some
      { thread := 0, handle := 0, kind := .trySend, body := (), pc := .cas late 0 }) :
    exec Mailbox.step s [.enqueue 0, .enqueue 0] = some (overrun s) := by
  simp [exec, Mailbox.step, Mailbox.enqueue, stalled, enqueueStep, wrapped, Mailbox.afterEnqueue,
    Mailbox.setPc, Mailbox.reserves, Mailbox.loadsPos, Queue.storeVal, Queue.slot, Queue.index,
    overrun]

/-- The stalled call after it has marked position 0 as published. -/
def overrunPublished (s : Mailbox 64 Unit) : Mailbox 64 Unit :=
  { s with
    q := { s.q with
      buffer := Function.update s.q.buffer 0 { seq := 1, val := (s.q.buffer 0).val } }
    calls := Function.update s.calls 0
      (some { thread := 0, handle := 0, kind := .trySend, body := (), pc := .returned (.ok ()) }) }

theorem exec_overrunPublished (stalled : s.calls 0 = some
      { thread := 0, handle := 0, kind := .trySend, body := (), pc := .storeSeq 0 }) :
    exec Mailbox.step s [.enqueue 0] = some (overrunPublished s) := by
  simp [exec, Mailbox.step, Mailbox.enqueue, stalled, enqueueStep, Mailbox.afterEnqueue,
    Mailbox.setPc, Mailbox.reserves, Mailbox.loadsPos, Queue.storeSeq, Queue.slot, Queue.index,
    overrunPublished]

theorem threadIdle_afterSend (handles : HandleInv s) (idle : s.threadIdle 1 = true) :
    (s.afterSend 1 0 ()).threadIdle 1 = true := by
  refine Mailbox.threadIdle_iff.2 fun c issued call found mine => ?_
  by_cases new : c = s.issued
  · subst new
    simp only [Mailbox.afterSend, Function.update_self] at found
    cases found
    rfl
  · simp only [Mailbox.afterSend, Function.update_of_ne new] at found
    have old : c < s.issued := (handles.issued c).2 (by simp [found])
    exact Mailbox.threadIdle_iff.1 idle c old call found mine

end Overrun

/-- The last two positions before the wrap are filled: both slots are live, `enqueue_pos` is 0 again
    and call 0 is still stalled. -/
structure Filled (lost : Nat) (s : Mailbox 64 Unit) : Prop where
  run : Reach Mailbox.step Free (Mailbox.new (Queue.new 64 (Msg Unit) 2)) s
  prefix_ : ∃ earlier, earlier.length = 2 ^ 64 - 2 ∧
    s.accepted = earlier ++ [{ call := lost, body := () }, { call := lost + 1, body := () }] ∧
    s.received = earlier ∧ { call := lost, body := () } ∉ earlier
  mask : s.q.mask = 1
  enqueuePos : s.q.enqueuePos = 0
  dequeuePos : s.q.dequeuePos = -2
  first : s.q.buffer 0 = { seq := -1, val := .live { call := lost, body := () } }
  second : s.q.buffer 1 = { seq := 0, val := .live { call := lost + 1, body := () } }
  running : s.teardown = false
  undropped : s.dropped = []
  stalled : s.calls 0 = some
    { thread := 0, handle := 0, kind := .trySend, body := (), pc := .cas late 0 }
  sent : s.calls lost = some
    { thread := 1, handle := 0, kind := .trySend, body := (), pc := .returned (.ok ()) }
  others : ∀ c call, s.calls c = some call → c ≠ 0 → call.finished = true
  lost_ne : lost ≠ 0
  consumer : s.consumer.quiescent = true
  receiver : s.receiver = .held
  senders : s.senders = {0}
  cloning : s.cloning = []

theorem filled_exists : ∃ lost s, Filled lost s := by
  obtain ⟨s, stalled⟩ := stalled_exists (n := 2 ^ 64 - 2) (by decide)
  have inv := stalled.inv (by decide)
  obtain ⟨enqueuePos, dequeuePos⟩ := stalled.positions (by decide)
  have mask : s.q.mask = 1 := by rw [inv.mask]; decide
  have enqueuePos : s.q.enqueuePos = -2 := by rw [enqueuePos]; decide
  have dequeuePos : s.q.dequeuePos = -2 := by rw [dequeuePos]; decide
  have first : (s.q.buffer 0).seq = -2 := stalled.slots (by decide) (i := 0) (by decide)
  have second : (s.q.buffer 1).seq = -1 := stalled.slots (by decide) (i := 1) (by decide)
  have same : s.received = s.accepted := by
    have undropped := inv.undropped stalled.running
    have taken := inv.taken.eq_of_length
      ((stalled.taken (by decide)).trans stalled.accepted.symm)
    rwa [Mailbox.taken, undropped, List.append_nil] at taken
  have one := exec_send (s := s) 1 0 () (by simp [stalled.senders])
    stalled.idle stalled.alive (by simp [Queue.slot, Queue.index, enqueuePos, mask, first])
  have two := exec_send (s := s.afterSend 1 0 ()) 1 0 ()
    (by simp [Mailbox.afterSend, stalled.senders]) (threadIdle_afterSend stalled.handles stalled.idle)
    stalled.alive
    (by simp [Mailbox.afterSend, Queue.slot, Queue.index, enqueuePos, mask, second])
  have unsent : { call := s.issued, body := () } ∉ s.accepted := by
    intro member
    obtain ⟨call, found, -⟩ := inv.origin _ member
    have := (stalled.handles.issued s.issued).2 (by simp [found])
    omega
  refine ⟨s.issued, (s.afterSend 1 0 ()).afterSend 1 0 (),
    (stalled.run.trans (reach_of_exec one)).trans (reach_of_exec two),
    ⟨s.accepted, stalled.accepted, by simp [Mailbox.afterSend], same, unsent⟩, mask, ?_, dequeuePos,
    ?_, ?_, stalled.running, inv.undropped stalled.running, ?_, ?_, ?_, stalled.issued_pos,
    stalled.consumer, stalled.receiver, stalled.senders, stalled.cloning⟩
  · simp [Mailbox.afterSend, enqueuePos]
  · simp [Mailbox.afterSend, Queue.index, enqueuePos, mask]
  · simp [Mailbox.afterSend, Queue.index, enqueuePos, mask]
  · have nonzero := stalled.issued_pos
    simp [Mailbox.afterSend, stalled.stalled, nonzero.symm, late]
  · simp [Mailbox.afterSend]
  · intro c call found nonzero
    by_cases last : c = s.issued + 1
    · subst last
      simp only [Mailbox.afterSend, Function.update_self] at found
      cases found
      rfl
    · by_cases previous : c = s.issued
      · subst previous
        simp [Mailbox.afterSend] at found
        cases found
        rfl
      · simp [Mailbox.afterSend, last, previous] at found
        exact (stalled.others c call found nonzero).1

namespace Filled

variable {lost : Nat} {s : Mailbox 64 Unit}

/-- The state after call 0 has gone on: it writes over the unreceived message of position
    `2 ^ 64 - 2` before the core reads that slot, and the core reads the slot once more for the
    wrapped position 0. -/
def overrunReceived (lost : Nat) (s : Mailbox 64 Unit) : Mailbox 64 Unit :=
  ((overrunPublished ((overrun s).afterRecv late)).afterRecv
    { call := lost + 1, body := () }).afterRecv late

theorem reach_overrunReceived (filled : Filled lost s) :
    Reach Mailbox.step Free s (overrunReceived lost s) := by
  have overran := exec_overrun filled.enqueuePos filled.stalled
  have wrong := exec_recv (s := overrun s) (m := late) filled.receiver filled.consumer
    filled.running
    (by simp [overrun, Queue.slot, Queue.index, filled.dequeuePos, filled.mask, filled.first])
    (.inl (by simp [overrun, Queue.slot, Queue.index, filled.dequeuePos, filled.mask]))
  have published := exec_overrunPublished (s := (overrun s).afterRecv late)
    (by simp [overrun, Mailbox.afterRecv])
  have next := exec_recv (s := overrunPublished ((overrun s).afterRecv late))
    (m := { call := lost + 1, body := () }) filled.receiver rfl filled.running
    (by simp [overrunPublished, overrun, Mailbox.afterRecv, Queue.slot, Queue.index,
      filled.dequeuePos, filled.mask, filled.second])
    (.inl (by simp [overrunPublished, overrun, Mailbox.afterRecv, Queue.slot, Queue.index,
      filled.dequeuePos, filled.mask, filled.second]))
  -- The slot of position 0 is the one just emptied: its bits are still those of call 0.
  have again := exec_recv
    (s := (overrunPublished ((overrun s).afterRecv late)).afterRecv
      { call := lost + 1, body := () })
    (m := late) filled.receiver rfl filled.running
    (by simp [overrunPublished, overrun, Mailbox.afterRecv, Queue.slot, Queue.index,
      filled.dequeuePos, filled.mask])
    (.inr (by simp [overrunPublished, overrun, Mailbox.afterRecv, Queue.slot, Queue.index,
      filled.dequeuePos, filled.mask]))
  exact ((((reach_of_exec overran).trans (reach_of_exec wrong)).trans
    (reach_of_exec published)).trans (reach_of_exec next)).trans (reach_of_exec again)

/-- Every call is back with its caller. -/
theorem overrunReceived_finished (filled : Filled lost s) {c : Nat} {call : Call 64 Unit}
    (found : (overrunReceived lost s).calls c = some call) : call.finished = true := by
  have calls : (overrunReceived lost s).calls = Function.update (Function.update s.calls 0 _) 0 _ :=
    rfl
  rw [calls] at found
  by_cases zero : c = 0
  · subst zero
    rw [Function.update_self] at found
    cases found
    rfl
  · rw [Function.update_of_ne zero, Function.update_of_ne zero] at found
    exact filled.others c call found zero

end Filled

/-- The lapped call writes over an unreceived message; the core receives the lapped call's message
    twice, never the lost one, and removes the actor. -/
theorem lappedRemoval : ∃ lost t, LappedRemoval lost t := by
  obtain ⟨lost, s, filled⟩ := filled_exists
  obtain ⟨earlier, length, accepted, received, unreceived⟩ := filled.prefix_
  have handles : HandleInv s :=
    filled.run.invariant (HandleInv.new rfl rfl) fun _ _ _ inv _ moved => inv.step moved
  have one : s.q.producers = 1 := by simp [handles.producers, filled.senders, filled.cloning]
  have removed := reach_removal (s := Filled.overrunReceived lost s) (by decide) filled.receiver rfl
    (by simp [Filled.overrunReceived, overrunPublished, overrun, Mailbox.afterRecv, Queue.slot,
      Queue.index, filled.dequeuePos, filled.mask])
    filled.senders
    (Mailbox.borrowed_eq_false_iff.2
      ⟨by simp [Filled.overrunReceived, overrunPublished, overrun, Mailbox.afterRecv,
        filled.cloning], fun _ _ _ found _ => filled.overrunReceived_finished found⟩)
    one
  have acceptedAfter : (Filled.overrunReceived lost s).accepted = s.accepted ++ [late] := rfl
  have receivedAfter : (Filled.overrunReceived lost s).received =
      s.received ++ [late] ++ [{ call := lost + 1, body := () }] ++ [late] := rfl
  have calls : (Filled.overrunReceived lost s).calls =
      Function.update (Function.update s.calls 0 _) 0 _ := rfl
  refine ⟨lost, _, (filled.run.trans filled.reach_overrunReceived).trans removed, rfl, ?_, ?_, ?_,
    ?_, filled.undropped, ?_⟩
  · simp only [calls]
    rw [Function.update_of_ne filled.lost_ne, Function.update_of_ne filled.lost_ne, filled.sent]
  · simp only [acceptedAfter, accepted, List.append_assoc]
    rw [← length, List.getElem?_append_right le_rfl]
    simp
  · simp only [receivedAfter, received, List.append_assoc]
    rw [← length, List.getElem?_append_right le_rfl]
    simp [late]
  · have nonzero := filled.lost_ne
    simp [receivedAfter, received, late, nonzero, unreceived]
  · intro i small
    obtain rfl | rfl : i = 0 ∨ i = 1 := by omega
    all_goals
      simp [Filled.overrunReceived, overrunPublished, overrun, Mailbox.afterRecv, Queue.index,
        filled.dequeuePos, filled.mask, MaybeUninit.IsLive]

theorem LappedRemoval.runs {lost : Nat} {t : Mailbox 64 Unit} (lapped : LappedRemoval lost t) :
    Runs Free 2 t :=
  ⟨_, channel_two_pow (k := 1) (by decide), lapped.run⟩

end AetherFlow.Mpsc
