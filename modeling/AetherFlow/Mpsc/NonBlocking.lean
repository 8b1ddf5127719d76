/-
Module: AetherFlow.Mpsc.NonBlocking
Purpose: The loops of `enqueue` and `dequeue` have no counter: they end because of what a slot's sequence
  number says at the current position. At `enqueue_pos` it is never ahead, whoever is stalled with a
  reserved slot anywhere in the ring, so a call that runs alone goes round once more at most. At
  `dequeue_pos` it is never ahead either, and nobody else moves that position.
Trusted boundary: none
Main exports: NonBlocking, nonBlocking_of_run, try_recv_spins
-/
import AetherFlow.Mpsc.Lap

namespace AetherFlow.Mpsc

open Transition Word

variable {w k : Nat} {T : Type*}

/-! ### A lone `try_send` -/

/-- The slot at `enqueue_pos` is free or still in use, never a lap ahead. -/
def Queue.NotAhead {M : Type*} (q : Queue w M) : Prop :=
  ¬ 0 < signedGap (q.slot q.enqueuePos).seq q.enqueuePos

/-- How many steps a call has left when nobody else moves. -/
def EnqueuePc.rank {M : Type*} (q : Queue w M) : EnqueuePc w M → Nat
  | .checkAlive _ => 6
  | .loadPos _ => 5
  | .loadSeq _ pos => if q.enqueuePos = pos then 4 else 6
  | .cas _ pos => if q.enqueuePos = pos then 3 else 5
  | .write _ _ => 2
  | .storeSeq _ | .recheckAlive _ => 1
  | .returned _ => 0

/-- How many times it will still look at a slot. -/
def EnqueuePc.looksLeft {M : Type*} (q : Queue w M) : EnqueuePc w M → Nat
  | .checkAlive _ | .loadPos _ => 1
  | .loadSeq _ pos => if q.enqueuePos = pos then 1 else 2
  | .cas _ pos => if q.enqueuePos = pos then 0 else 1
  | _ => 0

/-- The call is in its loop, about to look at a slot. Every iteration passes here once. -/
def EnqueuePc.looks {M : Type*} : EnqueuePc w M → Bool
  | .loadSeq _ _ => true
  | _ => false

/-- A call that has not reserved a position needs the queue not to be ahead. -/
def EnqueuePc.Served {M : Type*} (q : Queue w M) (pc : EnqueuePc w M) : Prop :=
  pc.stage = .outside → q.NotAhead

/-- One step of a call that runs alone. -/
theorem enqueueStep_alone {M : Type*} {q : Queue w M} {pc : EnqueuePc w M}
    (running : ∀ result, pc ≠ .returned result) (served : pc.Served q) :
    ∃ q' pc', enqueueStep q pc = some (q', pc') ∧ pc'.Served q' ∧ pc'.rank q' < pc.rank q ∧
      pc'.looksLeft q' + (if pc.looks then 1 else 0) ≤ pc.looksLeft q := by
  cases pc with
  | checkAlive item =>
      refine ⟨q, _, rfl, fun _ => served rfl, ?_, ?_⟩
      · split <;> simp [EnqueuePc.rank]
      · split <;> simp [EnqueuePc.looksLeft, EnqueuePc.looks]
  | loadPos item =>
      refine ⟨q, _, rfl, fun _ => served rfl, ?_, ?_⟩
      · simp [EnqueuePc.rank]
      · simp [EnqueuePc.looksLeft, EnqueuePc.looks]
  | loadSeq item pos =>
      have notAhead := served rfl
      refine ⟨q, _, rfl, fun _ => notAhead, ?_⟩
      by_cases current : q.enqueuePos = pos
      · subst current
        split
        · simp [EnqueuePc.rank, EnqueuePc.looksLeft, EnqueuePc.looks]
        · rename_i used
          -- Not free and not ahead: the slot is behind, and the call is told that the ring is full.
          have behind : signedGap (q.slot q.enqueuePos).seq q.enqueuePos < 0 :=
            lt_of_le_of_ne (not_lt.1 notAhead) used
          simp [behind, EnqueuePc.rank, EnqueuePc.looksLeft, EnqueuePc.looks]
      · split
        · simp [current, EnqueuePc.rank, EnqueuePc.looksLeft, EnqueuePc.looks]
        · split <;> simp [current, EnqueuePc.rank, EnqueuePc.looksLeft, EnqueuePc.looks]
  | cas item pos =>
      by_cases current : q.enqueuePos = pos
      · refine ⟨_, _, if_pos current, fun never => by (cases never), ?_⟩
        simp [current, EnqueuePc.rank, EnqueuePc.looksLeft, EnqueuePc.looks]
      · refine ⟨_, _, if_neg current, fun _ => served rfl, ?_⟩
        simp [current, EnqueuePc.rank, EnqueuePc.looksLeft, EnqueuePc.looks]
  | write item pos =>
      refine ⟨_, _, rfl, fun never => by (cases never), ?_⟩
      simp [EnqueuePc.rank, EnqueuePc.looksLeft, EnqueuePc.looks]
  | storeSeq pos =>
      refine ⟨_, _, rfl, fun never => by (cases never), ?_⟩
      simp [EnqueuePc.rank, EnqueuePc.looksLeft, EnqueuePc.looks]
  | recheckAlive item =>
      refine ⟨_, _, rfl, fun _ => served rfl, ?_⟩
      simp [EnqueuePc.rank, EnqueuePc.looksLeft, EnqueuePc.looks]
  | returned result => exact absurd rfl (running result)

/-- The ring invariant says that the queue is not ahead. With two slots or more a full ring reads as
    behind. -/
theorem Inv.notAhead {s : Mailbox w T} (inv : Inv k s) (two : 1 ≤ k) (fits : k < w - 1) :
    s.q.NotAhead := by
  have narrow : k < w := by omega
  have half : 2 ^ k < 2 ^ (w - 1) := Nat.pow_lt_pow_right (by decide) fits
  have many : 2 ≤ 2 ^ k := Nat.le_self_pow (by omega) 2
  have room := inv.room
  have taken := inv.length_le
  unfold Queue.NotAhead
  rw [inv.enqueuePos, inv.slot_ofNat narrow]
  rcases Nat.lt_or_ge s.accepted.length (s.taken.length + 2 ^ k) with free | full
  · have slot := inv.slots s.accepted.length taken free
    rw [SlotOk, List.getElem?_eq_none_iff.2 le_rfl] at slot
    rw [slot.1, signedGap_self]
    exact lt_irrefl 0
  · have same : s.accepted.length % 2 ^ k = s.taken.length % 2 ^ k := by
      rw [Nat.le_antisymm room full, Nat.add_mod_right]
    rw [same]
    rcases inv.head_seq with ⟨-, seq⟩ | ⟨-, seq⟩
    · rw [seq, signedGap_ofNat_of_near (by omega) (by omega)]
      omega
    · rw [seq, signedGap_ofNat_of_near (by omega) (by omega)]
      omega

/-- Call `c` is about to look at a slot. -/
def Mailbox.sendLooks (s : Mailbox w T) (c : Nat) : Bool :=
  (s.calls c).any fun call => call.pc.looks

/-- Call `c` is back with its caller. -/
def Mailbox.sendOver (s : Mailbox w T) (c : Nat) : Prop :=
  ∃ call, s.calls c = some call ∧ call.finished = true

/-- A lone `try_send` returns. -/
theorem try_send_returns {s : Mailbox w T} (notAhead : s.q.NotAhead) {c : Nat} {call : Call w T}
    (found : s.calls c = some call) (kind : call.kind = .trySend) :
    ∃ n ≤ 6, ∃ t, exec Mailbox.step s (List.replicate n (.enqueue c)) = some t ∧ t.sendOver c ∧
      passes Mailbox.step (·.sendLooks c) s (List.replicate n (.enqueue c)) ≤ 2 := by
  have alone := goal_of_alone Mailbox.step (fun u => u.sendOver c)
    (P := fun u => ∃ call, u.calls c = some call ∧ call.kind = .trySend ∧ call.pc.Served u.q)
    (.enqueue c)
    (fun u => ((u.calls c).map fun call => call.pc.rank u.q).getD 0)
    (fun u => ((u.calls c).map fun call => call.pc.looksLeft u.q).getD 0)
    (·.sendLooks c) ?_ (s := s) ⟨call, found, kind, fun _ => notAhead⟩
  · obtain ⟨n, short, t, executed, over_, cheap⟩ := alone
    simp only [found, Option.map_some, Option.getD_some] at short cheap
    refine ⟨n, short.trans ?_, t, executed, over_, cheap.trans ?_⟩
    · cases call.pc <;> simp [EnqueuePc.rank] <;> split <;> decide
    · cases call.pc <;> simp [EnqueuePc.looksLeft] <;> split <;> decide
  · rintro u ⟨call, found, kind, served⟩
    by_cases over_ : ∃ result, call.pc = .returned result
    · obtain ⟨result, returned⟩ := over_
      exact .inl ⟨call, found, by simp [Call.finished, kind, returned]⟩
    · obtain ⟨q', pc', stepped, served', lower, paid⟩ :=
        enqueueStep_alone (fun result same => over_ ⟨result, same⟩) served
      have moved : u.step (.enqueue c) = some (u.afterEnqueue c call q' pc') :=
        Mailbox.step_enqueue found kind stepped
      have after : (u.afterEnqueue c call q' pc').calls c = some { call with pc := pc' } :=
        Function.update_self ..
      refine .inr ⟨_, moved, ⟨_, after, kind, served'⟩, ?_⟩
      simp only [after, found, Mailbox.sendLooks, Option.map_some, Option.getD_some, Option.any_some]
      exact ⟨lower, paid⟩

/-! ### A lone `try_recv` -/

/-- How many steps a `dequeue` has left when nobody else moves. -/
def DequeuePc.rank {M : Type*} : DequeuePc w M → Nat
  | .loadPos => 5
  | .loadSeq _ => 4
  | .cas _ => 3
  | .read _ => 2
  | .storeSeq _ _ => 1
  | .returned _ => 0

def DequeuePc.looksLeft {M : Type*} : DequeuePc w M → Nat
  | .loadPos | .loadSeq _ => 1
  | _ => 0

def DequeuePc.looks {M : Type*} : DequeuePc w M → Bool
  | .loadSeq _ => true
  | _ => false

/-- The receiving side is about to look at a slot of `dequeue`. -/
def Mailbox.recvLooks (s : Mailbox w T) : Bool :=
  match s.consumer with
  | .dequeue pc => pc.looks
  | _ => false

section Consumer

variable {s : Mailbox w T}

/-- At the position it has loaded, the consumer never finds a slot ahead. -/
theorem Inv.head_not_ahead (inv : Inv k s) (fits : k < w) {pos : BitVec w}
    (at_ : s.consumer = .dequeue (.loadSeq pos)) :
    ¬ 0 < signedGap (s.q.slot pos).seq (pos + 1) := by
  have ok := inv.consumer
  rw [at_] at ok
  obtain rfl : pos = BitVec.ofNat w s.taken.length := ok
  rw [inv.slot_ofNat fits]
  have next : BitVec.ofNat w s.taken.length + 1 = BitVec.ofNat w (s.taken.length + 1) := by
    rw [BitVec.ofNat_add]
    rfl
  rcases inv.head_seq with ⟨-, seq⟩ | ⟨-, seq⟩
  · rw [seq, next, signedGap_self]
    exact lt_irrefl 0
  · rw [seq, signedGap_succ_right (by omega)]
    decide

/-- Nobody else moves `dequeue_pos`, so the consumer's compare-and-swap finds what it has loaded. -/
theorem Inv.cas_wins (inv : Inv k s) {pos : BitVec w} (at_ : s.consumer = .dequeue (.cas pos)) :
    s.q.dequeuePos = pos := by
  have ok := inv.consumer
  have current := inv.dequeuePos
  rw [at_] at ok current
  rw [current, ok.1]
  rfl

/-- One step of a `dequeue`. -/
theorem dequeueStep_alone (inv : Inv k s) (fits : k < w) {pc : DequeuePc w (Msg T)}
    (at_ : s.consumer = .dequeue pc) (running : ∀ result, pc ≠ .returned result) :
    ∃ q' pc', dequeueStep s.q pc = some (q', pc') ∧ pc'.rank < pc.rank ∧
      pc'.looksLeft + (if pc.looks then 1 else 0) ≤ pc.looksLeft := by
  cases pc with
  | loadPos =>
      refine ⟨_, _, rfl, ?_⟩
      simp [DequeuePc.rank, DequeuePc.looksLeft, DequeuePc.looks]
  | loadSeq pos =>
      refine ⟨_, _, rfl, ?_⟩
      split
      · simp [DequeuePc.rank, DequeuePc.looksLeft, DequeuePc.looks]
      · rename_i unready
        have behind : signedGap (s.q.slot pos).seq (pos + 1) < 0 :=
          lt_of_le_of_ne (not_lt.1 (inv.head_not_ahead fits at_)) unready
        rw [if_pos behind]
        simp [DequeuePc.rank, DequeuePc.looksLeft, DequeuePc.looks]
  | cas pos =>
      refine ⟨_, _, if_pos (inv.cas_wins at_), ?_⟩
      simp [DequeuePc.rank, DequeuePc.looksLeft, DequeuePc.looks]
  | read pos =>
      obtain ⟨m, -, live⟩ := inv.read_slot fits at_
      refine ⟨s.q.storeVal pos (.moved m), .storeSeq pos m, ?_, ?_⟩
      · simp only [dequeueStep, live]
      · simp [DequeuePc.rank, DequeuePc.looksLeft, DequeuePc.looks]
  | storeSeq pos item =>
      refine ⟨_, _, rfl, ?_⟩
      simp [DequeuePc.rank, DequeuePc.looksLeft, DequeuePc.looks]
  | returned result => exact absurd rfl (running result)

/-- A lone `dequeue` returns. -/
theorem try_recv_returns (handles : HandleInv s) (inv : Inv k s) (two : 1 ≤ k) (fits : k < w)
    {pc : DequeuePc w (Msg T)} (at_ : s.consumer = .dequeue pc) :
    ∃ n ≤ 5, ∃ t, exec Mailbox.step s (List.replicate n .consumer) = some t ∧
      (∃ result, t.consumer = .dequeue (.returned result)) ∧
      passes Mailbox.step Mailbox.recvLooks s (List.replicate n .consumer) ≤ 1 := by
  have alone := goal_of_alone Mailbox.step
    (fun u => ∃ result, u.consumer = .dequeue (.returned result))
    (P := fun u => HandleInv u ∧ Inv k u ∧ ∃ pc, u.consumer = .dequeue pc) .consumer
    (fun u => match u.consumer with | .dequeue pc => pc.rank | _ => 0)
    (fun u => match u.consumer with | .dequeue pc => pc.looksLeft | _ => 0)
    Mailbox.recvLooks ?_ (s := s) ⟨handles, inv, pc, at_⟩
  · obtain ⟨n, short, t, executed, returned, cheap⟩ := alone
    simp only [at_] at short cheap
    refine ⟨n, short.trans ?_, t, executed, returned, cheap.trans ?_⟩
    · cases pc <;> simp [DequeuePc.rank]
    · cases pc <;> simp [DequeuePc.looksLeft]
  · rintro u ⟨handles, inv, pc, at_⟩
    by_cases returned : ∃ result, pc = .returned result
    · obtain ⟨result, rfl⟩ := returned
      exact .inl ⟨result, at_⟩
    · obtain ⟨q', pc', stepped, lower, paid⟩ :=
        dequeueStep_alone inv fits at_ fun result same => returned ⟨result, same⟩
      have moved : u.step .consumer = some (u.afterDequeue pc q' pc') :=
        Mailbox.step_consumer at_ stepped
      have unlapped : NotLapped u .consumer := trivial
      refine .inr ⟨_, moved, ⟨handles.step moved, inv.step handles two fits unlapped moved, pc', rfl⟩, ?_⟩
      simp only [Mailbox.recvLooks, at_]
      exact ⟨lower, paid⟩

end Consumer

/-! ### The law -/

/-- What runs alone returns, and two branches of the consumer are dead. -/
structure NonBlocking (s : Mailbox w T) : Prop where
  /-- A `try_send` that has just started or stands anywhere in `enqueue` returns after two looks at
      most, while everybody else is stalled. -/
  send : ∀ c call, s.calls c = some call → call.kind = .trySend →
    ∃ n ≤ 6, ∃ t, exec Mailbox.step s (List.replicate n (.enqueue c)) = some t ∧ t.sendOver c ∧
      passes Mailbox.step (·.sendLooks c) s (List.replicate n (.enqueue c)) ≤ 2
  /-- So does a `try_recv`, after one look. -/
  recv : ∀ pc, s.consumer = .dequeue pc →
    ∃ n ≤ 5, ∃ t, exec Mailbox.step s (List.replicate n .consumer) = some t ∧
      (∃ result, t.consumer = .dequeue (.returned result)) ∧
      passes Mailbox.step Mailbox.recvLooks s (List.replicate n .consumer) ≤ 1
  casWins : ∀ pos, s.consumer = .dequeue (.cas pos) → s.q.dequeuePos = pos
  neverAhead : ∀ pos, s.consumer = .dequeue (.loadSeq pos) →
    ¬ 0 < signedGap (s.q.slot pos).seq (pos + 1)

/-- With two slots or more the operations are non-blocking in every state of every run in which no call
    is lapped. -/
theorem nonBlocking_of_run {capacity : Nat} {s : Mailbox w T} (run : Runs NotLapped capacity s)
    (two : 2 ≤ capacity) : NonBlocking s := by
  obtain ⟨k, one, narrow, slots, inv⟩ := run.inv two
  have fits : k < w - 1 := by
    obtain ⟨q, made, -⟩ := run
    have fits := (channel_eq_some made).1
    rwa [← Nat.pow_right_injective le_rfl (slots.trans rfl)] at fits
  exact
    { send := fun c call found kind => try_send_returns (inv.notAhead one fits) found kind
      recv := fun pc at_ => try_recv_returns run.handles inv one narrow at_
      casWins := fun pos at_ => inv.cas_wins at_
      neverAhead := fun pos at_ => inv.head_not_ahead narrow at_ }

/-- A producer has reserved the first slot and stalls, another has begun a `try_send` and the core a
    `try_recv`. -/
def stalledProducer : List (Act Nat) :=
  (.call 0 0 .trySend 7 :: List.replicate 4 (.enqueue 0)) ++ [.call 1 0 .trySend 8, .tryRecv]

theorem nonBlocking_of_stalledProducer :
    ∃ s, exec Mailbox.step (Mailbox.new (Queue.new 64 (Msg Nat) 2)) stalledProducer = some s ∧
      (∃ call item pos, s.calls 0 = some call ∧ call.pc = .write item pos) ∧ NonBlocking s := by
  have executed : (exec Mailbox.step (Mailbox.new (Queue.new 64 (Msg Nat) 2)) stalledProducer).isSome =
      true := rfl
  have run := (Option.some_get executed).symm
  have one : ((exec Mailbox.step (Mailbox.new (Queue.new 64 (Msg Nat) 2)) stalledProducer).get
      executed).accepted.length = 1 := rfl
  have unlapped := notLapped_of_short (reach_of_exec run) (by rw [one]; decide)
  refine ⟨_, run, ⟨_, _, _, rfl, rfl⟩, nonBlocking_of_run ⟨_, ?_, unlapped⟩ le_rfl⟩
  exact channel_two_pow (k := 1) (by decide)

/-! ### A lapped call -/

/-- The consumer stands before a slot that reads as two positions ahead of its own. -/
structure Spinning (s : Mailbox 64 Unit) : Prop where
  at_ : s.consumer = .dequeue .loadPos ∨ s.consumer = .dequeue (.loadSeq (-2))
  dequeuePos : s.q.dequeuePos = -2
  mask : s.q.mask = 1
  seq : (s.q.buffer 0).seq = 1

theorem Spinning.gap {s : Mailbox 64 Unit} (spinning : Spinning s) :
    signedGap (s.q.slot (-2)).seq (-2 + 1) = 2 := by
  have slot : s.q.slot (-2) = s.q.buffer 0 := by
    rw [Queue.slot, Queue.index, spinning.mask]
    rfl
  rw [slot, spinning.seq]
  decide

theorem Spinning.step {s : Mailbox 64 Unit} (spinning : Spinning s) :
    ∃ t, s.step .consumer = some t ∧ Spinning t := by
  rcases spinning.at_ with at_ | at_
  · refine ⟨{ s with consumer := .dequeue (.loadSeq (-2)) }, ?_, { spinning with at_ := .inr rfl }⟩
    simp [Mailbox.step, Mailbox.consumerStep, at_, dequeueStep, Mailbox.afterDequeue, Mailbox.delivered,
      spinning.dequeuePos]
  · refine ⟨{ s with consumer := .dequeue .loadPos }, ?_, { spinning with at_ := .inl rfl }⟩
    have stepped : dequeueStep s.q (.loadSeq (-2)) = some (s.q, .loadPos) := by
      simp only [dequeueStep]
      rw [if_neg (by rw [spinning.gap]; decide), if_neg (by rw [spinning.gap]; decide)]
    simp only [Mailbox.step, Mailbox.consumerStep, at_, stepped, Option.map_some, Mailbox.afterDequeue,
      Mailbox.delivered, List.append_nil, ite_self]

theorem Spinning.returns_never {s : Mailbox 64 Unit} (spinning : Spinning s) (n : Nat) :
    ∃ t, exec Mailbox.step s (List.replicate n .consumer) = some t ∧
      ∀ result, t.consumer ≠ .dequeue (.returned result) := by
  induction n generalizing s with
  | zero =>
      refine ⟨s, rfl, fun result returned => ?_⟩
      rcases spinning.at_ with at_ | at_
      all_goals
        rw [at_] at returned
        cases returned
  | succ n inductionHypothesis =>
      obtain ⟨u, moved, spins⟩ := spinning.step
      obtain ⟨t, executed, running⟩ := inductionHypothesis spins
      refine ⟨t, ?_, running⟩
      rw [List.replicate_succ, exec, moved]
      exact executed

/-- Behind a lapped call the slot at `dequeue_pos` is ahead, and a `try_recv` never returns. -/
theorem try_recv_spins :
    ∃ s : Mailbox 64 Unit, Runs Free 2 s ∧
      (∃ pos, s.consumer = .dequeue (.loadSeq pos) ∧ 0 < signedGap (s.q.slot pos).seq (pos + 1)) ∧
      ∀ n, ∃ t, exec Mailbox.step s (List.replicate n .consumer) = some t ∧
        ∀ result, t.consumer ≠ .dequeue (.returned result) := by
  obtain ⟨lost, s, filled⟩ := filled_exists
  have overran := exec_overrun filled.enqueuePos filled.stalled
  have published := exec_overrunPublished (s := overrun s) (by simp [overrun])
  have began : exec Mailbox.step (overrunPublished (overrun s)) [.tryRecv, .consumer] =
      some { overrunPublished (overrun s) with consumer := .dequeue (.loadSeq (-2)) } := by
    simp [exec, Mailbox.step, Mailbox.tryRecv, Mailbox.consumerStep, overrunPublished, overrun,
      filled.receiver, filled.consumer, dequeueStep, Mailbox.afterDequeue, Mailbox.delivered,
      filled.dequeuePos]
  have run := ((filled.run.trans (reach_of_exec overran)).trans (reach_of_exec published)).trans
    (reach_of_exec began)
  have spinning : Spinning
      { overrunPublished (overrun s) with consumer := .dequeue (.loadSeq (-2)) } :=
    ⟨.inr rfl, filled.dequeuePos, filled.mask, by simp [overrunPublished]⟩
  refine ⟨_, ⟨_, channel_two_pow (k := 1) (by decide), run⟩, ⟨-2, rfl, ?_⟩, spinning.returns_never⟩
  rw [spinning.gap]
  decide

end AetherFlow.Mpsc
