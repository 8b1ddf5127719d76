/-
Module: AetherFlow.Mpsc.Conservation
Purpose: Where the messages are. Every message given to a send call is in exactly one place at every
  moment: with the call, back with the caller, in a slot, received, or dropped by `Queue::drop`.
  Closing loses none: `Queue::drop` finds every published slot, a call that starts after the
  `Receiver` is gone gets its message back, and a `send_blocking` accepts once or not at all.
Trusted boundary: none
Main exports: Place, Mailbox.At, Inv.located, TeardownInv, Runs.teardown, teardown_finishes, Conserved,
  conserved_of_run, message_lost_when_lapped
-/
import AetherFlow.Mpsc.Removal

namespace AetherFlow.Mpsc

open Transition Word

variable {w k : Nat} {T : Type*} {s t : Mailbox w T}

/-! ### Places -/

/-- The message the receiving side has moved out of its slot and not yet handed over. -/
def ConsumerPc.inHand {M : Type*} : ConsumerPc w M → List M
  | .dequeue (.storeSeq _ item) => [item]
  | _ => []

inductive Place where
  | sending
  | returned
  | queued
  | received
  | dropped
deriving DecidableEq

/-- Message `m` is at a place of a mailbox with `slots` slots. -/
def Mailbox.At (s : Mailbox w T) (slots : Nat) (m : Msg T) : Place → Prop
  | .sending => ∃ call, s.calls m.call = some call ∧ call.finished = false ∧ call.pc.item = some m
  | .returned => ∃ call, s.calls m.call = some call ∧ call.finished = true ∧ call.pc.item = some m
  | .queued => ∃ i < slots, (s.q.buffer i).val = .live m
  | .received => m ∈ s.received ∨ (s.teardown = false ∧ m ∈ s.consumer.inHand)
  | .dropped => m ∈ s.dropped ∨ (s.teardown = true ∧ m ∈ s.consumer.inHand)

namespace Inv

theorem hand_ready (inv : Inv k s) {m : Msg T} (held : m ∈ s.consumer.inHand) :
    Ready s.accepted (stageOf s.calls) s.taken.length m ∧ s.consumer.emptied = true := by
  have ok := inv.consumer
  cases at_ : s.consumer with
  | dequeue pc =>
      cases pc with
      | storeSeq pos item =>
          simp only [at_, ConsumerPc.inHand, List.mem_singleton] at held
          rw [at_] at ok
          exact ⟨held ▸ ok.2, rfl⟩
      | _ => simp [at_, ConsumerPc.inHand] at held
  | _ => simp [at_, ConsumerPc.inHand] at held

theorem taken_position (inv : Inv k s) {m : Msg T} (member : m ∈ s.taken) :
    ∃ n < s.taken.length, s.accepted[n]? = some m := by
  obtain ⟨n, inside, same⟩ := List.mem_iff_getElem.1 member
  obtain ⟨rest, whole⟩ := inv.taken
  refine ⟨n, inside, ?_⟩
  rw [← whole, List.getElem?_append_left inside, List.getElem?_eq_getElem inside, same]

/-- A live slot belongs to a position of the window that is written and not yet emptied. -/
theorem live_position (inv : Inv k s) {i : Nat} (small : i < 2 ^ k) {m : Msg T}
    (live : (s.q.buffer i).val = .live m) :
    ∃ n, s.taken.length ≤ n ∧ n < s.taken.length + 2 ^ k ∧ n % 2 ^ k = i ∧
      s.accepted[n]? = some m ∧
      (stageOf s.calls m.call = .written ∨ stageOf s.calls m.call = .published ∧
        (n = s.taken.length && s.consumer.emptied) = false) := by
  obtain ⟨n, low, high, rfl⟩ := exists_near_mod_eq s.taken.length small
  refine ⟨n, low, high, rfl, ?_⟩
  have slot := inv.slots n low high
  unfold SlotOk at slot
  cases at_ : s.accepted[n]? with
  | none =>
      simp only [at_, live, MaybeUninit.IsLive] at slot
      exact absurd trivial slot.2
  | some m' =>
      simp only [at_] at slot
      cases stage : stageOf s.calls m'.call with
      | outside => simp [stage] at slot
      | reserved =>
          simp only [stage, live, MaybeUninit.IsLive] at slot
          exact absurd trivial slot.2
      | written =>
          simp only [stage, live] at slot
          cases slot.2
          exact ⟨rfl, .inl stage⟩
      | published =>
          simp only [stage, live] at slot
          split at slot
          · exact absurd trivial slot.2
          · rename_i full
            cases slot.2
            exact ⟨rfl, .inr ⟨stage, by simpa using full⟩⟩

/-- A message its call holds, or has handed back, is nowhere in the ring or beyond it. -/
theorem item_elsewhere (inv : Inv k s) {c : Nat} {call : Call w T} (found : s.calls c = some call)
    {m : Msg T} (item : call.pc.item = some m) :
    ¬ s.At (2 ^ k) m .queued ∧ m ∉ s.taken ∧ m ∉ s.consumer.inHand := by
  have ok := inv.calls c call found
  obtain rfl := ok.item m item
  have stage : stageOf s.calls c = call.pc.stage := stageOf_eq found
  by_cases outside : call.pc.stage = .outside
  · have unsent : { call := c, body := call.body } ∉ s.accepted := fun member =>
      ok.outside outside _ member rfl
    refine ⟨?_, fun member => unsent (inv.taken.subset member), fun held => ?_⟩
    · rintro ⟨i, small, live⟩
      obtain ⟨n, -, -, -, at_, -⟩ := inv.live_position small live
      exact unsent (List.mem_of_getElem? at_)
    · exact unsent (List.mem_of_getElem? (inv.hand_ready held).1.1)
  · -- Only between its compare-and-swap and its write does a call still hold an accepted message.
    obtain ⟨pos, at_⟩ : ∃ pos, call.pc = .write { call := c, body := call.body } pos := by
      cases at_ : call.pc with
      | write held pos =>
          simp only [at_, EnqueuePc.item, Option.some.injEq] at item
          exact ⟨pos, by rw [item]⟩
      | storeSeq pos => simp [at_, EnqueuePc.item] at item
      | returned result =>
          cases result with
          | ok => simp [at_, EnqueuePc.item] at item
          | error e => simp [at_, EnqueuePc.stage] at outside
      | _ => simp [at_, EnqueuePc.stage] at outside
    have reserved : stageOf s.calls c = .reserved := by rw [stage, at_]; rfl
    obtain ⟨own, low, ownAt, -⟩ := ok.owned pos (by rw [at_]; rfl)
    refine ⟨?_, fun member => ?_, fun held => ?_⟩
    · rintro ⟨i, small, live⟩
      obtain ⟨n, -, -, -, -, written | ⟨published, -⟩⟩ := inv.live_position small live
      · rw [reserved] at written
        cases written
      · rw [reserved] at published
        cases published
    · obtain ⟨n, before, earlier⟩ := inv.taken_position member
      have := position_unique inv.nodup earlier ownAt rfl
      omega
    · have published := (inv.hand_ready held).1.2
      rw [reserved] at published
      cases published

/-- A message in a slot has not been taken out. -/
theorem queued_elsewhere (inv : Inv k s) {m : Msg T} (queued : s.At (2 ^ k) m .queued) :
    m ∉ s.taken ∧ m ∉ s.consumer.inHand := by
  obtain ⟨i, small, live⟩ := queued
  obtain ⟨n, low, -, -, at_, stage⟩ := inv.live_position small live
  refine ⟨fun member => ?_, fun held => ?_⟩
  · obtain ⟨earlier, before, same⟩ := inv.taken_position member
    have := position_unique inv.nodup same at_ rfl
    omega
  · obtain ⟨ready, emptied⟩ := inv.hand_ready held
    have same := position_unique inv.nodup ready.1 at_ rfl
    rcases stage with written | ⟨-, full⟩
    · rw [ready.2] at written
      cases written
    · simp [← same, emptied] at full

/-- Nothing is taken out twice. -/
theorem taken_nodup (inv : Inv k s) : (s.taken ++ s.consumer.inHand).Nodup := by
  have accepted : s.accepted.Nodup := inv.nodup.of_map _
  refine List.Nodup.append (inv.taken.sublist.nodup accepted) ?_ ?_
  · unfold ConsumerPc.inHand
    split <;> simp
  · intro m member held
    obtain ⟨n, before, at_⟩ := inv.taken_position member
    have := position_unique inv.nodup at_ (inv.hand_ready held).1.1 rfl
    omega

/-- The message moved out of the slot at the head is in the receiving side's hand. -/
theorem hand_of_emptied (inv : Inv k s) (emptied : s.consumer.emptied = true) {m : Msg T}
    (at_ : s.accepted[s.taken.length]? = some m) : m ∈ s.consumer.inHand := by
  have ok := inv.consumer
  cases consumer : s.consumer with
  | dequeue pc =>
      cases pc with
      | storeSeq pos item =>
          rw [consumer] at ok
          have same := ok.2.1
          rw [at_] at same
          cases same
          exact List.mem_singleton.2 rfl
      | _ => simp [consumer, ConsumerPc.emptied] at emptied
  | _ => simp [consumer, ConsumerPc.emptied] at emptied

/-- A message is in no two places. -/
theorem at_unique (inv : Inv k s) {m : Msg T} {place place' : Place}
    (there : s.At (2 ^ k) m place) (there' : s.At (2 ^ k) m place') : place = place' := by
  obtain ⟨nodupTaken, -, apart⟩ := List.nodup_append.1 inv.taken_nodup
  obtain ⟨-, -, disjoint⟩ := List.nodup_append.1 nodupTaken
  have received_taken : s.At (2 ^ k) m .received → m ∈ s.taken ∨ m ∈ s.consumer.inHand :=
    Or.imp (List.mem_append_left _) And.right
  have dropped_taken : s.At (2 ^ k) m .dropped → m ∈ s.taken ∨ m ∈ s.consumer.inHand :=
    Or.imp (List.mem_append_right _) And.right
  have not_both : s.At (2 ^ k) m .received → s.At (2 ^ k) m .dropped → False := by
    rintro (received | ⟨running, held⟩) (dropped | ⟨teardown, held'⟩)
    · exact disjoint m received m dropped rfl
    · exact apart m (List.mem_append_left _ received) m held' rfl
    · exact apart m (List.mem_append_right _ dropped) m held rfl
    · rw [running] at teardown
      cases teardown
  have sending_only : s.At (2 ^ k) m .sending → ¬ s.At (2 ^ k) m .returned := by
    rintro ⟨call, found, running, -⟩ ⟨call', found', finished, -⟩
    rw [found] at found'
    cases found'
    rw [running] at finished
    cases finished
  have held_only : s.At (2 ^ k) m .sending ∨ s.At (2 ^ k) m .returned →
      ¬ s.At (2 ^ k) m .queued ∧ ¬ s.At (2 ^ k) m .received ∧ ¬ s.At (2 ^ k) m .dropped := by
    rintro (⟨call, found, -, item⟩ | ⟨call, found, -, item⟩)
    all_goals
      obtain ⟨unqueued, untaken, unheld⟩ := inv.item_elsewhere found item
      exact ⟨unqueued, fun received => (received_taken received).elim untaken unheld,
        fun dropped => (dropped_taken dropped).elim untaken unheld⟩
  have queued_only : s.At (2 ^ k) m .queued →
      ¬ s.At (2 ^ k) m .received ∧ ¬ s.At (2 ^ k) m .dropped := by
    intro queued
    obtain ⟨untaken, unheld⟩ := inv.queued_elsewhere queued
    exact ⟨fun received => (received_taken received).elim untaken unheld,
      fun dropped => (dropped_taken dropped).elim untaken unheld⟩
  generalize s.At (2 ^ k) m = here at there there' not_both sending_only held_only queued_only
  clear received_taken dropped_taken disjoint apart nodupTaken inv
  cases place <;> cases place' <;> first | rfl | (exfalso; tauto)

/-- Every message given to a call is somewhere. -/
theorem located_somewhere (inv : Inv k s) {c : Nat} {call : Call w T}
    (found : s.calls c = some call) :
    ∃ place, s.At (2 ^ k) { call := c, body := call.body } place := by
  have ok := inv.calls c call found
  cases item : call.pc.item with
  | some m =>
      obtain rfl := ok.item m item
      cases finished : call.finished with
      | false => exact ⟨.sending, call, found, finished, item⟩
      | true => exact ⟨.returned, call, found, finished, item⟩
  | none =>
      have placed : call.pc.stage = .written ∨ call.pc.stage = .published := by
        cases at_ : call.pc with
        | storeSeq pos => exact .inl rfl
        | returned result =>
            cases result with
            | ok => exact .inr rfl
            | error e => simp [at_, EnqueuePc.item] at item
        | _ => simp [at_, EnqueuePc.item] at item
      have inside := ok.inside (by rcases placed with h | h <;> rw [h] <;> decide)
      obtain ⟨n, at_⟩ := List.getElem?_of_mem inside
      by_cases before : n < s.taken.length
      · -- Already taken out.
        obtain ⟨rest, whole⟩ := inv.taken
        rw [← whole, List.getElem?_append_left before] at at_
        rcases List.mem_append.1 (List.mem_of_getElem? at_) with received | dropped
        · exact ⟨.received, .inl received⟩
        · exact ⟨.dropped, .inl dropped⟩
      · -- In the window: in its slot, or in the receiving side's hand.
        have high : n < s.taken.length + 2 ^ k :=
          (List.getElem?_eq_some_iff.1 at_).1.trans_le inv.room
        have slot := inv.slots n (by omega) high
        have bound : n % 2 ^ k < 2 ^ k := Nat.mod_lt _ (Nat.two_pow_pos k)
        unfold SlotOk at slot
        simp only [at_, stageOf_eq found] at slot
        rcases placed with written | published
        · simp only [written] at slot
          exact ⟨.queued, n % 2 ^ k, bound, slot.2⟩
        · simp only [published] at slot
          split at slot
          · rename_i emptied
            simp only [Bool.and_eq_true, decide_eq_true_eq] at emptied
            have held : { call := c, body := call.body } ∈ s.consumer.inHand :=
              inv.hand_of_emptied emptied.2 (emptied.1 ▸ at_)
            cases running : s.teardown with
            | false => exact ⟨.received, .inr ⟨running, held⟩⟩
            | true => exact ⟨.dropped, .inr ⟨running, held⟩⟩
          · exact ⟨.queued, n % 2 ^ k, bound, slot.2⟩

/-- Every message given to a call is in exactly one place. -/
theorem located (inv : Inv k s) {c : Nat} {call : Call w T} (found : s.calls c = some call) :
    ∃! place, s.At (2 ^ k) { call := c, body := call.body } place := by
  obtain ⟨place, at_⟩ := inv.located_somewhere found
  exact ⟨place, at_, fun other there => inv.at_unique there at_⟩

end Inv

/-! ### `Queue::drop` -/

/-- When the last reference is given up, no `Sender` is left. -/
theorem Mailbox.Closed.of_teardown (handles : HandleInv s) (teardown : s.teardown = true) :
    s.Closed := by
  have zero := handles.teardown.1 teardown
  have counted := handles.strong
  have none_ : s.senders = ∅ := Finset.card_eq_zero.1 (by omega)
  refine ⟨none_, List.eq_nil_iff_forall_not_mem.2 fun h cloned => ?_⟩
  have := handles.cloning h cloned
  rw [none_] at this
  exact absurd this (Finset.notMem_empty h)

/-- The word the receiving side holds while it looks at the head. -/
theorem Inv.loadSeq_word (inv : Inv k s) {pos : BitVec w}
    (at_ : s.consumer = .dequeue (.loadSeq pos)) : pos = BitVec.ofNat w s.taken.length := by
  have ok := inv.consumer
  rwa [at_] at ok

/-- `Queue::drop` stops only when everything is out. -/
structure TeardownInv (s : Mailbox w T) : Prop where
  empty : s.teardown = true → s.consumer = .dequeue (.returned none) → s.taken = s.accepted
  freed : s.consumer = .freed → s.teardown = true ∧ s.taken = s.accepted

namespace TeardownInv

theorem new (q : Queue w (Msg T)) : TeardownInv (Mailbox.new q) where
  empty := by simp [Mailbox.new]
  freed := by simp [Mailbox.new]

/-- At any other point of `dequeue` there is nothing to show. -/
theorem of_consumer (busy : t.consumer ≠ .dequeue (.returned none)) (unfreed : t.consumer ≠ .freed) :
    TeardownInv t :=
  ⟨fun _ at_ => absurd at_ busy, fun at_ => absurd at_ unfreed⟩

theorem afterDequeue (handles : HandleInv s) (inv : Inv k s) (fits : k < w)
    {pc pc' : DequeuePc w (Msg T)} {q : Queue w (Msg T)} (at_ : s.consumer = .dequeue pc)
    (stepped : dequeueStep s.q pc = some (q, pc')) : TeardownInv (s.afterDequeue pc q pc') := by
  refine ⟨fun teardown empty => ?_, fun freed => by simp [Mailbox.afterDequeue] at freed⟩
  have teardown : s.teardown = true := teardown
  have none_ : pc' = .returned none := by simpa [Mailbox.afterDequeue] using empty
  subst none_
  rw [Mailbox.afterDequeue_taken inv.undropped]
  cases pc with
  | loadSeq pos =>
      have word := inv.loadSeq_word at_
      have closed := Mailbox.Closed.of_teardown handles teardown
      refine (List.append_nil _).trans (closed.taken_of_waiting handles inv fun ready => ?_)
      have gap := inv.head_gap_of_ready fits ready
      rw [← word] at gap
      simp only [dequeueStep, gap, if_true] at stepped
      cases stepped
  | cas pos => simp only [dequeueStep] at stepped; split at stepped <;> simp at stepped
  | read pos => simp only [dequeueStep] at stepped; split at stepped <;> simp at stepped
  | _ => simp [dequeueStep] at stepped

theorem step (tear : TeardownInv s) (handles : HandleInv s) (inv : Inv k s) (fits : k < w)
    {a : Act T} (moved : s.step a = some t) : TeardownInv t := by
  obtain ⟨consumer, teardown, received, dropped⟩ | ⟨held, rfl | rfl⟩ | ⟨consumer, -⟩ |
    ⟨-, moved⟩ | ⟨-, moved⟩ := step_consumer_cases moved
  · have same : s.teardown = true → t.taken = s.taken ∧ t.accepted = s.accepted := fun teardown =>
      ⟨by rw [Mailbox.taken, received, dropped, Mailbox.taken],
        (Mailbox.Closed.of_teardown handles teardown).step_accepted handles moved⟩
    refine ⟨?_, ?_⟩
    · rw [consumer, teardown]
      intro running at_
      rw [(same running).1, (same running).2, tear.empty running at_]
    · rw [consumer, teardown]
      intro at_
      obtain ⟨running, all⟩ := tear.freed at_
      exact ⟨running, by rw [(same running).1, (same running).2, all]⟩
  · exact of_consumer (by simp) (by simp)
  · exact of_consumer (by simp) (by simp)
  · exact of_consumer (by simp [consumer]) (by simp [consumer])
  · obtain ⟨result, at_, teardown, rfl⟩ | ⟨pc, q, pc', at_, stepped, rfl⟩ | ⟨at_, rfl⟩ | ⟨at_, rfl⟩ |
      ⟨pos, at_, rfl⟩ := Mailbox.consumerStep_cases moved
    · cases result with
      | some m => exact of_consumer (by simp) (by simp)
      | none => exact ⟨by simp, fun _ => ⟨teardown, tear.empty teardown at_⟩⟩
    · exact afterDequeue handles inv fits at_ stepped
    · refine of_consumer ?_ ?_ <;> dsimp only <;> split <;> simp
    · exact of_consumer (by simp) (by simp)
    · exact of_consumer (by simp) (by simp)
  · simp only [Mailbox.consumerSpurious] at moved
    split at moved
    · rename_i pc at_
      obtain ⟨pc', spurious, rfl⟩ := Option.map_eq_some_iff.1 moved
      cases pc with
      | cas pos =>
          cases spurious
          exact of_consumer (by simp) (by simp)
      | _ => cases spurious
    · cases moved

end TeardownInv

theorem Runs.teardown {capacity : Nat} (run : Runs NotLapped capacity s) (two : 2 ≤ capacity) :
    TeardownInv s := by
  refine run.invariant TeardownInv.new fun u a v run tear _ moved => ?_
  obtain ⟨k, -, fits, -, inv⟩ := run.inv two
  exact tear.step run.handles inv fits moved

/-- How many steps `Queue::drop` has left in the current turn of its loop. -/
def ConsumerPc.turn {M : Type*} : ConsumerPc w M → Nat
  | .dequeue (.returned (some _)) => 6
  | .dequeue .loadPos => 5
  | .dequeue (.loadSeq _) => 4
  | .dequeue (.cas _) => 3
  | .dequeue (.read _) => 2
  | .dequeue (.storeSeq _ _) | .dequeue (.returned none) => 1
  | _ => 0

/-- What `Queue::drop` still has to do. -/
def Mailbox.teardownWork (s : Mailbox w T) : Nat :=
  7 * (s.accepted.length - s.taken.length) + s.consumer.turn

/-- `Queue::drop` always has a next step, and each step brings it closer to its end. -/
theorem teardown_progress (inv : Inv k s) (fits : k < w) (teardown : s.teardown = true)
    {pc : DequeuePc w (Msg T)} (at_ : s.consumer = .dequeue pc) :
    ∃ t, s.step .consumer = some t ∧ t.teardown = true ∧ t.teardownWork < s.teardownWork := by
  have ok := inv.consumer
  rw [at_] at ok
  -- A step of `dequeue` that takes nothing out only shortens the current turn.
  have quiet : ∀ q pc', s.step .consumer = some (s.afterDequeue pc q pc') →
      Mailbox.delivered pc = [] → (ConsumerPc.dequeue pc').turn < s.consumer.turn →
      ∃ t, s.step .consumer = some t ∧ t.teardown = true ∧ t.teardownWork < s.teardownWork := by
    intro q pc' stepped nothing shorter
    refine ⟨_, stepped, teardown, ?_⟩
    rw [Mailbox.teardownWork, Mailbox.afterDequeue_taken inv.undropped, nothing, List.append_nil]
    exact Nat.add_lt_add_left shorter _
  cases pc with
  | loadPos =>
      exact quiet s.q (.loadSeq s.q.dequeuePos)
        (by simp [Mailbox.step, Mailbox.consumerStep, at_, dequeueStep]) rfl (by simp [at_, ConsumerPc.turn])
  | loadSeq pos =>
      by_cases ready : ∃ m, Ready s.accepted (stageOf s.calls) s.taken.length m
      · have gap := inv.head_gap_of_ready fits ready
        rw [← ok] at gap
        exact quiet s.q (.cas pos)
          (by simp only [Mailbox.step, Mailbox.consumerStep, at_, dequeueStep, gap]; rfl) rfl
          (by simp [at_, ConsumerPc.turn])
      · have gap := inv.head_gap_of_waiting fits ready
        rw [← ok] at gap
        exact quiet s.q (.returned none)
          (by simp only [Mailbox.step, Mailbox.consumerStep, at_, dequeueStep, gap]; rfl) rfl
          (by simp [at_, ConsumerPc.turn])
  | cas pos =>
      have current : s.q.dequeuePos = pos := by
        rw [inv.dequeuePos, at_, ok.1]
        rfl
      exact quiet { s.q with dequeuePos := pos + 1 } (.read pos)
        (by simp [Mailbox.step, Mailbox.consumerStep, at_, dequeueStep, current]) rfl
        (by simp [at_, ConsumerPc.turn])
  | read pos =>
      obtain ⟨m, -, live⟩ := inv.read_slot fits at_
      exact quiet (s.q.storeVal pos (.moved m)) (.storeSeq pos m)
        (by simp [Mailbox.step, Mailbox.consumerStep, at_, dequeueStep, live]) rfl
        (by simp [at_, ConsumerPc.turn])
  | storeSeq pos item =>
      refine ⟨s.afterDequeue (.storeSeq pos item) (s.q.storeSeq pos (pos + s.q.mask + 1))
        (.returned (some item)), by simp [Mailbox.step, Mailbox.consumerStep, at_, dequeueStep],
        teardown, ?_⟩
      have inside := (List.getElem?_eq_some_iff.1 ok.2.1).1
      rw [Mailbox.teardownWork, Mailbox.afterDequeue_taken inv.undropped, Mailbox.teardownWork, at_]
      simp only [Mailbox.delivered, List.length_append, List.length_singleton,
        Mailbox.afterDequeue, ConsumerPc.turn]
      omega
  | returned result =>
      cases result with
      | some m =>
          refine ⟨{ s with consumer := .dequeue .loadPos },
            by simp [Mailbox.step, Mailbox.consumerStep, at_, teardown], teardown, ?_⟩
          rw [Mailbox.teardownWork, Mailbox.teardownWork, at_]
          exact Nat.add_lt_add_left (by simp [ConsumerPc.turn]) _
      | none =>
          refine ⟨{ s with consumer := .freed },
            by simp [Mailbox.step, Mailbox.consumerStep, at_, teardown], teardown, ?_⟩
          rw [Mailbox.teardownWork, Mailbox.teardownWork, at_]
          exact Nat.add_lt_add_left (by simp [ConsumerPc.turn]) _

/-- The side condition that admits only the receiving side's own steps. -/
def OnlyConsumer (_ : Mailbox w T) (a : Act T) : Prop := a = .consumer

/-- Once the last reference is gone, `Queue::drop` runs to its end. -/
theorem teardown_finishes (handles : HandleInv s) (inv : Inv k s) (removal : RemovalInv s)
    (two : 1 ≤ k) (fits : k < w) (teardown : s.teardown = true) :
    ∃ t, Reach Mailbox.step OnlyConsumer s t ∧ t.consumer = .freed := by
  induction work : s.teardownWork using Nat.strong_induction_on generalizing s with
  | _ n inductionHypothesis =>
      have dequeuing := removal.running teardown
      cases at_ : s.consumer with
      | freed => exact ⟨s, Reach.refl s, at_⟩
      | dequeue pc =>
          obtain ⟨u, moved, teardown', less⟩ := teardown_progress inv fits teardown at_
          obtain ⟨t, run, freed⟩ := inductionHypothesis _ (work ▸ less) (handles.step moved)
            (inv.step handles two fits (a := .consumer) trivial moved)
            (removal.step handles inv fits moved) teardown' rfl
          have first : Reach Mailbox.step OnlyConsumer s u := Reach.single rfl moved
          exact ⟨t, first.trans run, freed⟩
      | _ => simp [at_, ConsumerPc.dequeuing] at dequeuing

/-! ### Calls and a dropped `Receiver` -/

/-- The only way to `Closed` is to find `consumer_alive` cleared. -/
theorem Call.Next.closed {q : Queue w (Msg T)} {call : Call w T} {item : Msg T}
    (next : call.Next q (.returned (.error (.closed item)))) : q.consumerAlive = false := by
  rcases next with ⟨m, -, same⟩ | ⟨q', stepped⟩ | spurious
  · cases same
  · cases at_ : call.pc with
    | checkAlive m | recheckAlive m =>
        cases alive : q.consumerAlive with
        | false => rfl
        | true => simp [at_, enqueueStep, alive] at stepped
    | loadSeq m pos =>
        simp only [at_, enqueueStep, Option.some.injEq, Prod.mk.injEq] at stepped
        obtain ⟨-, stepped⟩ := stepped
        split at stepped
        · cases stepped
        · split at stepped <;> cases stepped
    | cas m pos => simp only [at_, enqueueStep] at stepped; split at stepped <;> cases stepped
    | _ => simp [at_, enqueueStep] at stepped
  · cases at_ : call.pc <;> simp [at_, enqueueSpurious] at spurious

/-- `Closed` is returned only after the `Receiver` was dropped. -/
theorem Runs.closed_only {ok : Mailbox w T → Act T → Prop} {capacity : Nat}
    (run : Runs ok capacity s) : ∀ c call item, s.calls c = some call →
      call.pc = .returned (.error (.closed item)) → s.receiver ≠ .held := by
  refine run.invariant (P := fun s => ∀ c call item, s.calls c = some call →
    call.pc = .returned (.error (.closed item)) → s.receiver ≠ .held) (by simp [Mailbox.new]) ?_
  intro u a v run before _ moved c call item found at_
  rcases step_call_cases moved found with there | ⟨_, started⟩ | ⟨mover, pc, mine, next, rfl⟩
  · exact (Mailbox.step_later moved).receiver (before c call item there at_)
  · rw [started] at at_
    cases at_
  · cases at_
    refine (Mailbox.step_later moved).receiver fun held => ?_
    have alive := run.handles.alive.2 held
    rw [next.closed] at alive
    cases alive

/-- Call `c` ends with its message `m` handed back as `Closed`: it has ended so, or its next step is
    its last. -/
def Mailbox.TurnedAway (s : Mailbox w T) (c : Nat) (m : Msg T) : Prop :=
  ∃ call, s.calls c = some call ∧
    (call.pc = .returned (.error (.closed m)) ∨
      call.pc = .checkAlive m ∧ ∃ t after, s.step (.enqueue c) = some t ∧ t.calls c = some after ∧
        after.pc = .returned (.error (.closed m)))

theorem Mailbox.TurnedAway.of_checkAlive {c : Nat} {m : Msg T} {call : Call w T}
    (found : s.calls c = some call) (at_ : call.pc = .checkAlive m)
    (dropped : s.q.consumerAlive = false) : s.TurnedAway c m := by
  refine ⟨call, found, .inr ⟨at_, s.afterEnqueue c call s.q (.returned (.error (.closed m))),
    { call with pc := .returned (.error (.closed m)) }, ?_, ?_, rfl⟩⟩
  · simp [Mailbox.step, Mailbox.enqueue, found, at_, enqueueStep, dropped]
  · simp [Mailbox.afterEnqueue, Mailbox.setPc]

/-- A call turned away stays so, whoever moves. -/
theorem Mailbox.TurnedAway.step {c : Nat} {m : Msg T} (away : s.TurnedAway c m)
    (handles : HandleInv s) (dropped : s.receiver ≠ .held) {a : Act T} (moved : s.step a = some t) :
    t.TurnedAway c m := by
  obtain ⟨call, found, at_⟩ := away
  have shut : s.q.consumerAlive = false := by
    rw [← Bool.not_eq_true, handles.alive]
    exact dropped
  have shut' : t.q.consumerAlive = false := by
    rw [← Bool.not_eq_true, (handles.step moved).alive]
    exact (Mailbox.step_later moved).receiver dropped
  -- Another call's step leaves this one where it is.
  have unmoved : t.calls c = s.calls c → t.TurnedAway c m := by
    intro same
    rw [found] at same
    rcases at_ with closed | ⟨checking, -⟩
    · exact ⟨call, same, .inl closed⟩
    · exact .of_checkAlive same checking shut'
  obtain ⟨calls, -⟩ | ⟨thread, handle, kind, body, -, calls, -⟩ |
    ⟨d, mover, pc, mine, running, next, calls, -⟩ := step_calls_cases moved
  · exact unmoved (by rw [calls])
  · have issued : c < s.issued := (handles.issued c).2 (by simp [found])
    exact unmoved (by rw [calls, Function.update_of_ne issued.ne])
  · by_cases same : c = d
    · subst same
      rw [found] at mine
      cases mine
      rcases at_ with closed | ⟨checking, -⟩
      · cases kind : call.kind <;> simp [Call.finished, closed, kind] at running
      · rcases next with ⟨item, full, -⟩ | ⟨q', stepped⟩ | spurious
        · rw [checking] at full
          cases full
        · simp only [checking, enqueueStep, shut, Option.some.injEq, Prod.mk.injEq] at stepped
          obtain ⟨-, rfl⟩ := stepped
          exact ⟨_, by rw [calls, Function.update_self], .inl rfl⟩
        · rw [checking] at spurious
          cases spurious
    · exact unmoved (by rw [calls, Function.update_of_ne same])

/-- A call that starts after the `Receiver` was dropped gets its message back as `Closed`. -/
theorem turnedAway_of_late_call (handles : HandleInv s) (dropped : s.receiver ≠ .held)
    {thread handle : Nat} {kind : SendKind} {body : T} {u : Mailbox w T}
    (started : s.step (.call thread handle kind body) = some u)
    (later : Reach Mailbox.step Free u t) :
    t.TurnedAway s.issued { call := s.issued, body := body } := by
  have dropped' := (Mailbox.step_later started).receiver dropped
  have handles' := handles.step started
  refine (later.invariant (P := fun t => HandleInv t ∧ t.receiver ≠ .held ∧
    t.TurnedAway s.issued { call := s.issued, body := body }) ⟨handles', dropped', ?_⟩ ?_).2.2
  · have shut : u.q.consumerAlive = false := by
      rw [← Bool.not_eq_true, handles'.alive]
      exact dropped'
    obtain ⟨-, rfl⟩ := guarded started
    exact .of_checkAlive (Function.update_self ..) rfl shut
  · rintro v a x ⟨handles, dropped, away⟩ - moved
    exact ⟨handles.step moved, (Mailbox.step_later moved).receiver dropped, away.step handles dropped moved⟩

/-! ### Conservation -/

/-- What holds of the messages of a mailbox with `slots` slots. -/
structure Conserved (slots : Nat) (s : Mailbox w T) : Prop where
  /-- Every message given to a call is in exactly one place. -/
  located : ∀ c call, s.calls c = some call →
    ∃! place, s.At slots { call := c, body := call.body } place
  /-- Whatever is at a place was given to a call, unchanged. -/
  intact : ∀ m place, s.At slots m place →
    ∃ call, s.calls m.call = some call ∧ m.body = call.body
  /-- In the ring it is in one slot. -/
  oneSlot : ∀ i j m, i < slots → j < slots → (s.q.buffer i).val = .live m →
    (s.q.buffer j).val = .live m → i = j
  /-- It is received or dropped at most once. -/
  once : (s.received ++ s.dropped ++ s.consumer.inHand).Nodup
  /-- When the last reference is gone, `Queue::drop` runs to its end. -/
  tornDown : s.senders = ∅ → s.releasing = 0 → s.receiver = .gone →
    ∃ t, Reach Mailbox.step OnlyConsumer s t ∧ t.consumer = .freed
  /-- When it has ended, every accepted message was received or dropped. -/
  freed : s.consumer = .freed → s.accepted = s.received ++ s.dropped
  /-- A call that starts after the `Receiver` was dropped ends as `Closed`. -/
  late : s.receiver ≠ .held → ∀ thread handle kind body u t,
    s.step (.call thread handle kind body) = some u → Reach Mailbox.step Free u t →
    t.TurnedAway s.issued { call := s.issued, body := body }
  /-- `Closed` is returned only if the `Receiver` was dropped. -/
  closedOnly : ∀ c call item, s.calls c = some call →
    call.pc = .returned (.error (.closed item)) → s.receiver ≠ .held
  /-- A call that returned `Ok` had its message accepted once. -/
  accepted : ∀ c call, s.calls c = some call → call.pc = .returned (.ok ()) →
    s.accepted.filter (·.call = c) = [{ call := c, body := call.body }]
  /-- A call that returned an error had nothing accepted; a `send_blocking` then returned `Closed`. -/
  refused : ∀ c call e, s.calls c = some call → call.pc = .returned (.error e) →
    s.accepted.filter (·.call = c) = [] ∧ e.intoMessage = { call := c, body := call.body } ∧
      (call.kind = .sendBlocking → call.finished = true → ∃ item, e = .closed item)

namespace Inv

theorem at_origin (inv : Inv k s) {m : Msg T} {place : Place} (there : s.At (2 ^ k) m place) :
    ∃ call, s.calls m.call = some call ∧ m.body = call.body := by
  have held : ∀ call, s.calls m.call = some call → call.pc.item = some m →
      ∃ call, s.calls m.call = some call ∧ m.body = call.body := fun call found item =>
    ⟨call, found, congrArg Msg.body ((inv.calls m.call call found).item m item)⟩
  cases place with
  | sending | returned =>
      obtain ⟨call, found, -, item⟩ := there
      exact held call found item
  | queued =>
      obtain ⟨i, small, live⟩ := there
      obtain ⟨n, -, -, -, at_, -⟩ := inv.live_position small live
      exact inv.origin m (List.mem_of_getElem? at_)
  | received | dropped =>
      rcases there with out | ⟨-, inHand⟩
      · exact inv.origin m (inv.taken.subset (List.mem_append.2 (by simp [out])))
      · exact inv.origin m (List.mem_of_getElem? (inv.hand_ready inHand).1.1)

/-- A message with a given call number is accepted at most once. -/
theorem filter_accepted (inv : Inv k s) {m : Msg T} (member : m ∈ s.accepted) :
    s.accepted.filter (·.call = m.call) = [m] := by
  have nodup := inv.nodup
  generalize s.accepted = accepted at member nodup
  induction accepted with
  | nil => cases member
  | cons first rest inductionHypothesis =>
      obtain ⟨fresh, nodup⟩ := List.nodup_cons.1 nodup
      rcases List.mem_cons.1 member with rfl | later
      · rw [List.filter_cons_of_pos (by simp), List.filter_eq_nil_iff.2 fun other inside same => ?_]
        exact fresh (List.mem_map.2 ⟨other, inside, by simpa using same⟩)
      · have different : first.call ≠ m.call := fun same =>
          fresh (same ▸ List.mem_map_of_mem later)
        rw [List.filter_cons_of_neg (by simpa using different)]
        exact inductionHypothesis later nodup

end Inv

/-- With two slots or more, messages are conserved in every run in which no call is lapped. -/
theorem conserved_of_run {capacity : Nat} (run : Runs NotLapped capacity s) (two : 2 ≤ capacity) :
    Conserved (roundCapacity capacity) s := by
  obtain ⟨k, one, fits, slots, inv⟩ := run.inv two
  have handles := run.handles
  rw [← slots]
  refine
    { located := fun c call found => inv.located found
      intact := fun m place there => inv.at_origin there
      oneSlot := ?_
      once := inv.taken_nodup
      tornDown := ?_
      freed := fun freed => ((run.teardown two).freed freed).2.symm
      late := fun dropped thread handle kind body u t started later =>
        turnedAway_of_late_call handles dropped started later
      closedOnly := run.closed_only
      accepted := ?_
      refused := ?_ }
  · intro i j m small small' live live'
    obtain ⟨n, -, -, rfl, at_, -⟩ := inv.live_position small live
    obtain ⟨n', -, -, rfl, at_', -⟩ := inv.live_position small' live'
    rw [position_unique inv.nodup at_ at_' rfl]
  · intro senders releasing receiver
    refine teardown_finishes handles inv (run.removal two) one fits (handles.teardown.2 ?_)
    simp [handles.strong, senders, releasing, receiver]
  · intro c call found at_
    exact inv.filter_accepted ((inv.calls c call found).inside (by simp [at_, EnqueuePc.stage]))
  · intro c call e found at_
    have ok := inv.calls c call found
    refine ⟨?_, ok.item _ (by rw [at_]; rfl), ?_⟩
    · exact List.filter_eq_nil_iff.2 fun m member => by
        simpa using ok.outside (by rw [at_]; rfl) m member
    · intro kind finished
      cases e with
      | closed item => exact ⟨item, rfl⟩
      | full item => simp [Call.finished, kind, at_] at finished

/-- The message that call `c` has handed back to its caller. -/
def Mailbox.handedBack (s : Mailbox w T) (c : Nat) : Option (Msg T) := do
  let call ← s.calls c
  if call.finished then call.pc.item else none

theorem Mailbox.handedBack_iff {slots : Nat} {m : Msg T} :
    s.handedBack m.call = some m ↔ s.At slots m .returned := by
  simp only [handedBack, At, Option.bind_eq_bind, Option.bind_eq_some_iff]
  refine exists_congr fun call => and_congr_right fun _ => ?_
  split <;> simp_all

/-- One more message is accepted, the `Receiver` is dropped, a later call is turned away, and the last
    `Sender` to go runs `Queue::drop`, which finds the message that was left. -/
def tornDownLabels : List (Act Nat) := List.flatten
  [contendedLabels, .call 1 1 .trySend 11 :: List.replicate 6 (.enqueue 4),
    [.dropReceiver, .call 0 0 .trySend 12, .enqueue 5, .releaseReceiver, .dropSender 0,
      .releaseSender, .dropSender 1, .releaseSender], List.replicate 9 .consumer]

theorem conserved_of_tornDown : ∃ s : Mailbox 64 Nat, Runs NotLapped 2 s ∧
    s.At 2 ⟨0, 7⟩ .received ∧ s.At 2 ⟨2, 9⟩ .returned ∧ s.At 2 ⟨4, 11⟩ .dropped ∧
      s.At 2 ⟨5, 12⟩ .returned ∧ Conserved (roundCapacity 2) s := by
  have executed : (execChecked Mailbox.step NotLapped (.new (.new 64 (Msg Nat) 2))
      tornDownLabels).map (fun s => (s.received, s.dropped, s.handedBack 2, s.handedBack 5)) =
      some ([⟨1, 8⟩, ⟨0, 7⟩, ⟨3, 10⟩], [⟨4, 11⟩], some ⟨2, 9⟩, some ⟨5, 12⟩) := by
    decide +kernel
  obtain ⟨s, final, same⟩ := Option.map_eq_some_iff.1 executed
  simp only [Prod.mk.injEq] at same
  obtain ⟨received, dropped, full, closed⟩ := same
  have run : Runs NotLapped 2 s :=
    ⟨_, channel_two_pow (k := 1) (by decide), reach_of_execChecked final⟩
  exact ⟨s, run, .inl (by simp [received]), Mailbox.handedBack_iff.1 full,
    .inl (by simp [dropped]), Mailbox.handedBack_iff.1 closed, conserved_of_run run le_rfl⟩

/-- A lapped call can make a message vanish: its call returned `Ok`, and it is in no place. -/
theorem message_lost_when_lapped :
    ∃ s : Mailbox 64 Unit, Runs Free 2 s ∧ ∃ c call, s.calls c = some call ∧
      call.pc = .returned (.ok ()) ∧ ∀ place, ¬ s.At 2 { call := c, body := call.body } place := by
  obtain ⟨lost, s, lapped⟩ := lappedRemoval
  refine ⟨s, lapped.runs, lost, _, lapped.sent, rfl, fun place there => ?_⟩
  cases place with
  | sending | returned =>
      obtain ⟨call, found, -, item⟩ := there
      rw [lapped.sent] at found
      cases found
      cases item
  | queued =>
      obtain ⟨i, small, live⟩ := there
      refine lapped.overwritten i small ?_
      rw [live]
      trivial
  | received =>
      rcases there with received | ⟨-, held⟩
      · exact lapped.unreceived received
      · simp [lapped.verdict, ConsumerPc.inHand] at held
  | dropped =>
      rcases there with dropped | ⟨-, held⟩
      · simp [lapped.undropped] at dropped
      · simp [lapped.verdict, ConsumerPc.inHand] at held

end AetherFlow.Mpsc
