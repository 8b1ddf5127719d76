/-
Module: AetherFlow.Mpsc.Verdicts
Purpose: When `try_send` says `Full` and `try_recv` says `None`. Both verdicts are drawn from a position
  and a sequence number that were read at different times, while other producers may lap the ring.
  The ring invariant at the second load gives an instant of the call at which the verdict was true,
  as long as the wrapped gap between the two still has the sign of the real one.
Trusted boundary: none
Main exports: Mailbox.Sending, Mailbox.FullAt, Mailbox.Receiving, Mailbox.EmptyAt, FreshSeq,
  verdicts_truthful
-/
import AetherFlow.Mpsc.Lap
import AetherFlow.Mpsc.Order
import AetherFlow.Mpsc.Removal

namespace AetherFlow.Mpsc

open Transition Word

variable {w k : Nat} {T : Type*} {s t : Mailbox w T}

/-! ### Instants of a call -/

/-- Call `c` is in progress. -/
def Mailbox.Sending (s : Mailbox w T) (c : Nat) : Prop :=
  ∃ call, s.calls c = some call ∧ call.finished = false

/-- The positions that are reserved and whose slots are not yet released fill the ring: `enqueue_pos`
    is `slots` ahead of the number of completed dequeues. -/
structure Mailbox.FullAt (s : Mailbox w T) (slots : Nat) : Prop where
  enqueuePos : s.q.enqueuePos = BitVec.ofNat w s.accepted.length
  full : s.accepted.length = s.taken.length + slots

/-- A `dequeue` is in progress. -/
def Mailbox.Receiving (s : Mailbox w T) : Prop :=
  ∃ pc, s.consumer = .dequeue pc ∧ ∀ result, pc ≠ .returned result

/-- The position at `dequeue_pos` is not reserved, or by a producer that has not yet stored its
    `seq`. -/
structure Mailbox.EmptyAt (s : Mailbox w T) : Prop where
  dequeuePos : s.q.dequeuePos = BitVec.ofNat w (s.taken.length + s.consumer.claimed)
  waiting : ∀ m, s.accepted[s.taken.length + s.consumer.claimed]? = some m →
    stageOf s.calls m.call ≠ .published

/-- Where call `c` is about to look at a slot, the reservations that have passed its position, with all
    the slots on top, do not exceed half of the word. -/
def Mailbox.FreshSeq (s : Mailbox w T) (slots c : Nat) : Prop :=
  ∀ call item pos, s.calls c = some call → call.pc = .loadSeq item pos →
    s.accepted.length - s.loadedAt c + slots ≤ 2 ^ (w - 1)

/-! ### `Full` -/

/-- A slot that reads as behind the position of a fresh call is behind because the ring is full. -/
theorem Inv.full_of_behind (inv : Inv k s) (fits : k < w) {c : Nat} {call : Call w T} {item : Msg T}
    {pos : BitVec w} (found : s.calls c = some call) (at_ : call.pc = .loadSeq item pos)
    (fresh : s.accepted.length - s.loadedAt c + 2 ^ k ≤ 2 ^ (w - 1))
    (behind : signedGap (s.q.slot pos).seq pos < 0) :
    s.accepted.length = s.taken.length + 2 ^ k := by
  by_contra notFull
  have room := inv.room
  have taken := inv.length_le
  have positive := Nat.two_pow_pos k
  obtain ⟨rfl, loaded⟩ := (inv.calls c call found).seen pos (by rw [at_]; rfl)
  obtain ⟨n, low, high, same⟩ := exists_near_mod_eq s.taken.length
    (Nat.mod_lt (s.loadedAt c) positive)
  -- The slot serves position `n`, which is the call's own or one that has come since.
  have ahead : s.loadedAt c ≤ n := by
    by_contra before
    have apart := mod_ne_mod_of_near (m := 2 ^ k) (not_le.1 before) (by omega)
    exact apart same
  have read : (s.q.buffer (s.loadedAt c % 2 ^ k)).seq = BitVec.ofNat w n ∨
      n < s.accepted.length ∧ (s.q.buffer (s.loadedAt c % 2 ^ k)).seq = BitVec.ofNat w (n + 1) := by
    have slot := inv.slots n low high
    rw [same] at slot
    unfold SlotOk at slot
    cases reserved : s.accepted[n]? with
    | none =>
        rw [reserved] at slot
        exact .inl slot.1
    | some m =>
        simp only [reserved] at slot
        cases stage : stageOf s.calls m.call with
        | outside => simp [stage] at slot
        | reserved | written =>
            simp only [stage] at slot
            exact .inl slot.1
        | published =>
            simp only [stage] at slot
            exact .inr ⟨(List.getElem?_eq_some_iff.1 reserved).1, slot.1⟩
  rw [inv.slot_ofNat fits] at behind
  rcases read with seq | ⟨accepted, seq⟩
  · rw [seq, signedGap_ofNat_ahead ahead (by omega)] at behind
    omega
  · rw [seq, signedGap_ofNat_ahead (by omega) (by omega)] at behind
    omega

/-- The call has found its slot behind. -/
def EnqueuePc.behind {M : Type*} : EnqueuePc w M → Bool
  | .recheckAlive _ | .returned (.error (.full _)) => true
  | _ => false

theorem Call.Next.behind {q : Queue w (Msg T)} {call : Call w T} {pc : EnqueuePc w (Msg T)}
    (next : call.Next q pc) (behind : pc.behind = true) :
    call.pc.behind = true ∨
      ∃ item pos, call.pc = .loadSeq item pos ∧ signedGap (q.slot pos).seq pos < 0 := by
  rcases next with ⟨item, _, rfl⟩ | ⟨q', stepped⟩ | spurious
  · cases behind
  · cases at_ : call.pc with
    | checkAlive item =>
        rw [at_, enqueueStep, Option.some.injEq, Prod.mk.injEq] at stepped
        obtain ⟨rfl, rfl⟩ := stepped
        split at behind <;> cases behind
    | loadSeq item pos =>
        rw [at_, enqueueStep, Option.some.injEq, Prod.mk.injEq] at stepped
        obtain ⟨rfl, rfl⟩ := stepped
        split at behind
        · cases behind
        · split at behind
          · rename_i negative
            exact .inr ⟨item, pos, rfl, negative⟩
          · cases behind
    | cas item pos =>
        rw [at_, enqueueStep] at stepped
        split at stepped <;> (cases stepped; cases behind)
    | recheckAlive item => exact .inl rfl
    | loadPos | write | storeSeq =>
        rw [at_] at stepped
        cases stepped
        cases behind
    | returned result =>
        rw [at_] at stepped
        cases stepped
  · cases at_ : call.pc with
    | cas item pos =>
        rw [at_] at spurious
        cases spurious
        cases behind
    | _ =>
        rw [at_] at spurious
        cases spurious

/-- A call finds its slot behind only at a look at it. -/
theorem behind_of_step {a : Act T} (moved : s.step a = some t) {c : Nat} {call : Call w T}
    (found : t.calls c = some call) (behind : call.pc.behind = true) :
    ∃ call', s.calls c = some call' ∧ (call'.pc.behind = true ∨
      ∃ item pos, call'.pc = .loadSeq item pos ∧ signedGap (s.q.slot pos).seq pos < 0) := by
  rcases step_call_cases moved found with there | ⟨_, started⟩ | ⟨mover, pc, here, next, rfl⟩
  · exact ⟨call, there, .inl behind⟩
  · rw [started] at behind
    cases behind
  · exact ⟨mover, here, next.behind behind⟩

/-! ### The two verdicts -/

/-- A run on which call `c` is never full while it is in progress does not let it find its slot
    behind. -/
theorem not_behind_of_run {capacity c : Nat} {u : Mailbox w T} (two : 2 ≤ capacity)
    (before : Runs NotLapped capacity u)
    (starts : ∃ call item, u.calls c = some call ∧ call.pc = .checkAlive item)
    (run : Reach Mailbox.step (fun v a => (NotLapped v a ∧ v.FreshSeq (roundCapacity capacity) c) ∧
      ¬ (v.Sending c ∧ v.FullAt (roundCapacity capacity))) u s) :
    ∀ call, s.calls c = some call → call.pc.behind = false := by
  refine (run.invariant (P := fun v => Runs NotLapped capacity v ∧
    ∀ call, v.calls c = some call → call.pc.behind = false) ⟨before, ?_⟩ ?_).2
  · intro call found
    obtain ⟨_, item, found', at_⟩ := starts
    cases found.symm.trans found'
    rw [at_]
    rfl
  · rintro v a v' ⟨run, clear⟩ ⟨⟨unlapped, fresh⟩, notFull⟩ moved
    refine ⟨run.step unlapped moved, fun call found => ?_⟩
    rw [← Bool.not_eq_true]
    intro behind
    obtain ⟨call', found', already | ⟨item, pos, at_, negative⟩⟩ := behind_of_step moved found behind
    · rw [clear call' found'] at already
      cases already
    · obtain ⟨k, _, fits, slots, inv⟩ := run.inv two
      have full := inv.full_of_behind fits found' at_
        (by rw [slots]; exact fresh call' item pos found' at_) negative
      refine notFull ⟨⟨call', found', ?_⟩, inv.enqueuePos, slots ▸ full⟩
      cases kind : call'.kind <;> simp [Call.finished, at_, kind]

/-- `None` is returned only where the position at `dequeue_pos` waits for its message. -/
theorem waiting_of_none {a : Act T} (inv : Inv k s) (fits : k < w) (moved : s.step a = some t)
    (before : s.consumer ≠ .dequeue (.returned none))
    (after : t.consumer = .dequeue (.returned none)) : s.EmptyAt := by
  obtain ⟨same, -⟩ | ⟨-, rfl | rfl⟩ | ⟨started, -⟩ | ⟨-, stepped⟩ | ⟨-, failed⟩ :=
    step_consumer_cases moved
  · exact absurd (same.symm.trans after) before
  · cases after
  · cases after
  · rw [started] at after
    cases after
  · obtain ⟨result, _, _, rfl⟩ | ⟨pc, q, pc', at_, looked, rfl⟩ | ⟨_, rfl⟩ | ⟨_, rfl⟩ | ⟨_, _, rfl⟩ :=
      Mailbox.consumerStep_cases stepped
    · cases result <;> cases after
    · cases after
      cases pc with
      | loadSeq pos =>
          have word := inv.consumer
          rw [at_] at word
          obtain rfl : pos = BitVec.ofNat w s.taken.length := word
          have unclaimed : s.consumer.claimed = 0 := by rw [at_]; rfl
          refine ⟨inv.dequeuePos, fun m reserved published => ?_⟩
          rw [unclaimed, Nat.add_zero] at reserved
          have read := inv.head_gap_of_ready fits ⟨m, reserved, published⟩
          simp only [dequeueStep, read, if_true] at looked
          cases looked
      | cas pos => simp only [dequeueStep] at looked; split at looked <;> cases looked
      | read pos => simp only [dequeueStep] at looked; split at looked <;> cases looked
      | loadPos | storeSeq | returned => cases looked
    · dsimp only at after
      split at after <;> cases after
    · cases after
    · cases after
  · simp only [Mailbox.consumerSpurious] at failed
    split at failed
    · obtain ⟨pc', spurious, rfl⟩ := Option.map_eq_some_iff.1 failed
      rename_i pc _
      cases after
      cases pc <;> cases spurious
    · cases failed

/-- Both verdicts are true at some instant of the call, in every interleaving in which no
    compare-and-swap is lapped and the `try_send` is not left behind by half of the word. -/
theorem verdicts_truthful {capacity : Nat} {u : Mailbox w T} (two : 2 ≤ capacity)
    (before : Runs NotLapped capacity u) :
    (∀ c labels s, (∃ call item, u.calls c = some call ∧ call.pc = .checkAlive item) →
      exec Mailbox.step u labels = some s →
      Throughout Mailbox.step
        (fun v a => NotLapped v a ∧ v.FreshSeq (roundCapacity capacity) c) u labels →
      (∃ call item, s.calls c = some call ∧ call.pc = .returned (.error (.full item))) →
        Sometime Mailbox.step (fun v => v.Sending c ∧ v.FullAt (roundCapacity capacity)) u labels) ∧
      ∀ labels s, u.consumer = .dequeue .loadPos → exec Mailbox.step u labels = some s →
        Throughout Mailbox.step (fun v a => NotLapped v a ∧ v.Receiving) u labels →
        s.consumer = .dequeue (.returned none) →
          Sometime Mailbox.step (fun v => v.Receiving ∧ v.EmptyAt) u labels := by
  constructor
  · rintro c labels s starts executed met ⟨call, item, found, full⟩
    refine met.or_sometime.resolve_right fun avoids => ?_
    have clear := not_behind_of_run two before starts (reach_of_throughout executed avoids) call found
    rw [full] at clear
    cases clear
  · intro labels s starts executed met none_
    refine met.or_sometime.resolve_right fun avoids => ?_
    have run := reach_of_throughout executed avoids
    refine (run.invariant (P := fun v => Runs NotLapped capacity v ∧
      v.consumer ≠ .dequeue (.returned none)) ⟨before, by rw [starts]; nofun⟩ ?_).2 none_
    rintro v a v' ⟨run, open_⟩ ⟨⟨unlapped, receiving⟩, notEmpty⟩ moved
    refine ⟨run.step unlapped moved, fun after => ?_⟩
    obtain ⟨k, _, fits, _, inv⟩ := run.inv two
    exact notEmpty ⟨receiving, waiting_of_none inv fits moved open_ after⟩

/-! ### A full ring -/

/-- A run that ends with few accepted messages leaves no call behind. -/
theorem fresh_of_short (slots c : Nat) (run : Reach Mailbox.step NotLapped s t)
    (short : t.accepted.length + slots ≤ 2 ^ (w - 1)) :
    Reach Mailbox.step (fun v a => NotLapped v a ∧ v.FreshSeq slots c) s t := by
  induction run with
  | refl => exact Reach.refl _
  | tail _ last inductionHypothesis =>
      obtain ⟨a, unlapped, moved⟩ := last
      have grows := (step_accepted moved).1
      refine (inductionHypothesis (by omega)).tail ⟨unlapped, ?_⟩ moved
      intro call item pos _ _
      omega

/-- Two messages fill a ring of two slots, and a third `try_send` begins. -/
def brimful : Mailbox 64 Nat :=
  let filled := ((Mailbox.new (Queue.new 64 (Msg Nat) 2)).afterSend 0 0 7).afterSend 0 0 8
  { filled with
    calls := Function.update filled.calls 2 (some
      { thread := 0, handle := 0, kind := .trySend, body := 9
        pc := .checkAlive { call := 2, body := 9 } })
    issued := 3 }

theorem brimful_runs : Runs NotLapped 2 brimful := by
  have first := exec_send (s := Mailbox.new (Queue.new 64 (Msg Nat) 2)) 0 0 7
    (by decide) (by decide) (by decide) (by decide)
  have second := exec_send (s := (Mailbox.new (Queue.new 64 (Msg Nat) 2)).afterSend 0 0 7) 0 0 8
    (by decide) (by decide) (by decide) (by decide)
  have third : exec Mailbox.step
      (((Mailbox.new (Queue.new 64 (Msg Nat) 2)).afterSend 0 0 7).afterSend 0 0 8)
      [.call 0 0 .trySend 9] = some brimful := rfl
  refine ⟨_, channel_two_pow (k := 1) (by decide), notLapped_of_short ?_ (by decide)⟩
  exact ((reach_of_exec first).trans (reach_of_exec second)).trans (reach_of_exec third)

/-- The third `try_send` is told that the ring is full, and it was. -/
theorem verdicts_truthful_brimful :
    ∃ labels s, exec Mailbox.step brimful labels = some s ∧
      (∃ call item, s.calls 2 = some call ∧ call.pc = .returned (.error (.full item))) ∧
      Sometime Mailbox.step (fun v => v.Sending 2 ∧ v.FullAt (roundCapacity 2)) brimful labels := by
  have refused : ∃ s, exec Mailbox.step brimful (List.replicate 4 (.enqueue 2)) = some s ∧
      s.accepted.length = 2 ∧
      ∃ call item, s.calls 2 = some call ∧ call.pc = .returned (.error (.full item)) :=
    ⟨_, rfl, rfl, _, _, rfl, rfl⟩
  obtain ⟨s, executed, few, full⟩ := refused
  have run := fresh_of_short (roundCapacity 2) 2
    (notLapped_of_short (reach_of_exec executed) (by rw [few]; decide))
    (by rw [few, show roundCapacity 2 = 2 from roundCapacity_two_pow 1]; decide)
  obtain ⟨labels, executed, met⟩ := exists_throughout run
  refine ⟨labels, s, executed, full, ?_⟩
  exact (verdicts_truthful le_rfl brimful_runs).1 2 labels s ⟨_, _, rfl, rfl⟩ executed met full

/-! ### A stale position -/

/-- A run that never has as many messages accepted as the ring has slots beyond those taken at its start
    never fills the ring. -/
theorem roomy_of_short (slots : Nat) (run : Reach Mailbox.step Free s t)
    (short : t.accepted.length ≤ 2 ^ w) (room : t.accepted.length < s.taken.length + slots) :
    Reach Mailbox.step (fun v a => NotLapped v a ∧ ¬ v.FullAt slots) s t := by
  replace run := notLapped_of_short run short
  have taken : ∀ {u}, Reach Mailbox.step NotLapped s u → s.taken.length ≤ u.taken.length := by
    intro u run
    refine run.invariant (P := fun u => s.taken.length ≤ u.taken.length) le_rfl ?_
    intro u a v more _ moved
    have later := Mailbox.step_later moved
    have received := later.received.length_le
    have dropped := later.dropped.length_le
    simp only [Mailbox.taken, List.length_append] at more ⊢
    omega
  induction run with
  | refl => exact Reach.refl _
  | tail before last inductionHypothesis =>
      obtain ⟨a, unlapped, moved⟩ := last
      have grows := (step_accepted moved).1
      refine (inductionHypothesis (by omega) (by omega)).tail ⟨unlapped, fun full => ?_⟩ moved
      have := full.full
      have := taken before
      omega

/-- Any number of messages up to a full word can pass a call, and the ring is never full. -/
theorem Passed.rounds {pc : EnqueuePc 64 (Msg Unit)} {n : Nat} {s : Mailbox 64 Unit}
    (passed : Passed pc 0 s) (short : n ≤ 2 ^ 64) :
    ∃ t, Reach Mailbox.step (fun v a => NotLapped v a ∧ ¬ v.FullAt 2) s t ∧ Passed pc n t := by
  induction n with
  | zero => exact ⟨s, Reach.refl _, passed⟩
  | succ n inductionHypothesis =>
      obtain ⟨t, run, passed⟩ := inductionHypothesis (by omega)
      obtain ⟨u, further, passed'⟩ := passed.round (by omega)
      refine ⟨u, run.trans (roomy_of_short _ further ?_ ?_), passed'⟩
      · rw [passed'.accepted]
        exact short
      · rw [passed'.accepted, passed.taken (by omega)]
        omega

/-- A mailbox of two slots whose first `try_send` has just begun. -/
def begun : Mailbox 64 Unit :=
  { Mailbox.new (Queue.new 64 (Msg Unit) 2) with
    calls := Function.update (fun _ => none) 0 (some
      { thread := 0, handle := 0, kind := .trySend, body := (), pc := .checkAlive late })
    issued := 1 }

/-- The same after it has read its position. -/
def atSlot : Mailbox 64 Unit :=
  { begun with
    calls := Function.update (fun _ => none) 0 (some
      { thread := 0, handle := 0, kind := .trySend, body := (), pc := .loadSeq late 0 })
    loadedAt := Function.update (fun _ => 0) 0 0 }

theorem begun_run : exec Mailbox.step (Mailbox.new (Queue.new 64 (Msg Unit) 2))
    [.call 0 0 .trySend ()] = some begun := by
  simp [exec, Mailbox.step, Mailbox.call, Mailbox.new, Mailbox.threadIdle, begun, late]

theorem atSlot_run : exec Mailbox.step begun [.enqueue 0, .enqueue 0] = some atSlot := by
  simp [exec, Mailbox.step, Mailbox.enqueue, enqueueStep, begun, Mailbox.new, Queue.new,
    Mailbox.afterEnqueue, Mailbox.setPc, Mailbox.reserves, Mailbox.loadsPos, atSlot]

theorem atSlot_passed : Passed (.loadSeq late 0) 0 atSlot := by
  have run := (reach_of_exec begun_run).trans (reach_of_exec atSlot_run)
  refine ⟨run, rfl, rfl, rfl, by simp [atSlot], ?_, rfl, rfl, rfl, rfl⟩
  intro c call found nonzero
  simp [atSlot, nonzero] at found

/-- One message past the bound of `FreshSeq` the slot of the empty ring, which is free for position
    `2 ^ 63`, reads as behind the call's position 0. -/
theorem Passed.told_full {s : Mailbox 64 Unit} (passed : Passed (.loadSeq late 0) (2 ^ 63 - 1) s) :
    ∃ t, exec Mailbox.step s [.enqueue 0, .enqueue 0] = some t ∧ t.accepted = s.accepted ∧
      t.taken = s.taken ∧ t.calls 0 = some
        { thread := 0, handle := 0, kind := .trySend, body := ()
          pc := .returned (.error (.full late)) } := by
  have inv := passed.inv (by decide)
  have mask : s.q.mask = 1 := by rw [inv.mask]; decide
  have seq : (s.q.slot 0).seq = BitVec.ofNat 64 (2 ^ 63) := by
    have slot := passed.slots (by decide) (i := 1) (by decide)
    simpa [Queue.slot, Queue.index, mask] using slot
  have wrapped : signedGap (BitVec.ofNat 64 (2 ^ 63)) 0 < 0 := by decide
  have looked : enqueueStep s.q (.loadSeq late 0#64) = some (s.q, .recheckAlive late) := by
    change enqueueStep s.q (.loadSeq late 0) = _
    rw [enqueueStep, seq, if_neg wrapped.ne, if_pos wrapped]
  have answered : enqueueStep s.q (.recheckAlive late) =
      some (s.q, .returned (.error (.full late))) := by
    rw [enqueueStep, passed.alive]
    rfl
  refine ⟨{ s with
    calls := Function.update s.calls 0 (some
      { thread := 0, handle := 0, kind := .trySend, body := ()
        pc := .returned (.error (.full late)) }) }, ?_, rfl, rfl, by simp⟩
  simp [exec, Mailbox.step, Mailbox.enqueue, passed.stalled, looked, answered, Mailbox.afterEnqueue,
    Mailbox.setPc, Mailbox.reserves, Mailbox.loadsPos]

/-- The ring is empty at the end and never held two messages, and still the first `try_send`, which read
    its position `2 ^ 63 - 1` messages ago, is told that it is full. -/
theorem full_on_empty_ring :
    ∃ (u s : Mailbox 64 Unit) (labels : List (Act Unit)), Runs NotLapped 2 u ∧
      (∃ call item, u.calls 0 = some call ∧ call.pc = .checkAlive item) ∧
      exec Mailbox.step u labels = some s ∧ Throughout Mailbox.step NotLapped u labels ∧
      (∃ call item, s.calls 0 = some call ∧ call.pc = .returned (.error (.full item))) ∧
      ¬ Sometime Mailbox.step (fun v => v.Sending 0 ∧ v.FullAt (roundCapacity 2)) u labels := by
  have two : roundCapacity 2 = 2 := roundCapacity_two_pow 1
  obtain ⟨s, waited, passed⟩ := atSlot_passed.rounds (n := 2 ^ 63 - 1) (by decide)
  obtain ⟨t, told, sameAccepted, sameTaken, full⟩ := passed.told_full
  have first := roomy_of_short 2 (reach_of_exec atSlot_run) (by decide) (by decide)
  have last := roomy_of_short 2 (reach_of_exec told)
    (by rw [sameAccepted, passed.accepted]; decide)
    (by rw [sameAccepted, passed.accepted, passed.taken (by decide)]; decide)
  obtain ⟨labels, executed, met⟩ := exists_throughout ((first.trans waited).trans last)
  refine ⟨begun, t, labels, ⟨_, channel_two_pow (k := 1) (by decide), ?_⟩, ⟨_, late, rfl, rfl⟩,
    executed, ?_, ⟨_, late, full, rfl⟩, ?_⟩
  · exact notLapped_of_short (reach_of_exec begun_run) (by decide)
  · exact fun before a after v split reached => (met before a after v split reached).1
  · rintro ⟨before, a, after, v, split, reached, _, fills⟩
    rw [two] at fills
    exact (met before a after v split reached).2 fills

end AetherFlow.Mpsc
