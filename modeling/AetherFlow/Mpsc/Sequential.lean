/-
Module: AetherFlow.Mpsc.Sequential
Purpose: What a mailbox is for, told by the calls of one thread at a time: a bounded FIFO queue. The
  abstract queue is a list; `Holds` says which list the slots of a `Queue` hold, the calls of
  `core/src/mpsc.rs` are run one after the other on it, and every call of every history is compared
  with the list. The sequence numbers separate "free for this lap" from "full from the last lap" as
  soon as there are two slots; with a single slot they do not.
Trusted boundary: human-reviewed transcription of `Queue::is_empty`
Main exports: Operation, Outcome, callStep, Histories, Fifo.perform, CapacityLaw, Holds
-/
import AetherFlow.Lib.Transition
import AetherFlow.Mpsc.Queue

namespace AetherFlow.Mpsc

open Transition Word

/-- `Queue::is_empty`. -/
def Queue.isEmpty {w : Nat} {M : Type*} (q : Queue w M) : Bool :=
  signedGap (q.slot q.dequeuePos).seq (q.dequeuePos + 1) < 0

/-- The calls on the two ends of a channel. -/
inductive Operation (M : Type*) where
  | trySend (item : M)
  | tryRecv

inductive Outcome (M : Type*) where
  | sent (result : Except (TrySendError M) Unit)
  | received (result : Option M)

/-- A call in progress. -/
inductive CallPc (w : Nat) (M : Type*) where
  | send (pc : EnqueuePc w M)
  | recv (pc : DequeuePc w M)

/-- A move of a call: its next atomic step, or a spurious failure of `compare_exchange_weak`. -/
inductive Move where
  | step
  | spurious
deriving DecidableEq

section Calls

variable {w : Nat} {M : Type*}

/-- Where `try_send` and `try_recv` start. -/
def Operation.start : Operation M → CallPc w M
  | .trySend item => .send (.checkAlive item)
  | .tryRecv => .recv .loadPos

/-- What a call returned, once it has. -/
def CallPc.outcome : CallPc w M → Option (Outcome M)
  | .send (.returned result) => some (.sent result)
  | .recv (.returned result) => some (.received result)
  | _ => none

/-- One move of a call that nothing runs against. -/
def callStep : Queue w M × CallPc w M → Move → Option (Queue w M × CallPc w M)
  | (q, .send pc), .step => (enqueueStep q pc).map fun next => (next.1, .send next.2)
  | (q, .send pc), .spurious => (enqueueSpurious q pc).map fun next => (q, .send next)
  | (q, .recv pc), .step => (dequeueStep q pc).map fun next => (next.1, .recv next.2)
  | (q, .recv pc), .spurious => (dequeueSpurious q pc).map fun next => (q, .recv next)

/-- The calls made one after the other from `q` and what each of them returned, up to the queue
    they leave behind. -/
inductive Histories (q : Queue w M) : List (Operation M × Outcome M) → Queue w M → Prop where
  | nil : Histories q [] q
  | snoc {history : List (Operation M × Outcome M)} {q₁ q₂ : Queue w M} {operation : Operation M}
      {moves : List Move} {pc : CallPc w M} {outcome : Outcome M}
      (before : Histories q history q₁)
      (ran : exec callStep (q₁, operation.start) moves = some (q₂, pc))
      (returned : pc.outcome = some outcome) :
      Histories q (history ++ [(operation, outcome)]) q₂

end Calls

/-! ### The bounded queue -/

namespace Fifo

variable {M : Type*}

/-- What a queue of capacity `bound` answers while it stores `stored`, and what it stores then. -/
def perform (bound : Nat) (stored : List M) : Operation M → Outcome M × List M
  | .trySend item =>
      if stored.length < bound then
        (.sent (.ok ()), stored ++ [item])
      else
        (.sent (.error (.full item)), stored)
  | .tryRecv => (.received stored.head?, stored.tail)

/-- `history` is a history of the bounded queue, which is empty at first and stores `stored` last. -/
inductive Histories (bound : Nat) : List (Operation M × Outcome M) → List M → Prop where
  | nil : Histories bound [] []
  | snoc {history : List (Operation M × Outcome M)} {stored : List M} (operation : Operation M)
      (before : Histories bound history stored) :
      Histories bound (history ++ [(operation, (perform bound stored operation).1)])
        (perform bound stored operation).2

end Fifo

/-- What one call does on a queue that stores `stored`, whatever moves it makes: it is never stuck and
    its moves are bounded up to spurious failures, it never writes on a stored message, and it returns
    what the bounded queue returns. -/
structure CallLaw {w : Nat} {M : Type*} (bound : Nat) (stored : List M) (operation : Operation M)
    (moves : List Move) (s : Queue w M × CallPc w M) : Prop where
  terminates : moves.length ≤ 6 + 2 * moves.count .spurious
  moves_on : s.2.outcome = none → (callStep s .step).isSome = true
  no_overwrite : ∀ item pos, s.2 = .send (.write item pos) → ¬ (s.1.slot pos).val.IsLive
  outcome : ∀ outcome, s.2.outcome = some outcome →
    outcome = (Fifo.perform bound stored operation).1

/-- The channel `q` behaves as a bounded FIFO queue of capacity `bound` in every history. -/
def CapacityLaw {w : Nat} {M : Type*} (q : Queue w M) (bound : Nat) : Prop :=
  ∀ history q₁, Histories q history q₁ →
    ∃ stored, Fifo.Histories bound history stored ∧ q₁.isEmpty = stored.isEmpty ∧
      ∀ operation moves s, exec callStep (q₁, operation.start) moves = some s →
        CallLaw bound stored operation moves s

/-! ### The list a queue holds -/

/-- The `2 ^ k` slots of `q` hold `stored`, oldest message first, from counter `head` on. A slot in use
    carries the number after its message's counter, a free one the counter it is free for. -/
structure Holds {w : Nat} {M : Type*} (q : Queue w M) (k head : Nat) (stored : List M) : Prop where
  mask : q.mask = BitVec.ofNat w (2 ^ k - 1)
  dequeuePos : q.dequeuePos = BitVec.ofNat w head
  enqueuePos : q.enqueuePos = BitVec.ofNat w (head + stored.length)
  alive : q.consumerAlive = true
  bounded : stored.length ≤ 2 ^ k
  used : ∀ i item, stored[i]? = some item →
    q.buffer ((head + i) % 2 ^ k) = ⟨BitVec.ofNat w (head + i + 1), .live item⟩
  free : ∀ i, stored.length ≤ i → i < 2 ^ k →
    (q.buffer ((head + i) % 2 ^ k)).seq = BitVec.ofNat w (head + i) ∧
      ¬ (q.buffer ((head + i) % 2 ^ k)).val.IsLive

/-- A fresh channel holds nothing. -/
theorem holds_new {w k : Nat} {M : Type*} : Holds (.new w M (2 ^ k)) k 0 [] where
  mask := rfl
  dequeuePos := rfl
  enqueuePos := rfl
  alive := rfl
  bounded := Nat.zero_le _
  used i item found := by simp at found
  free i _ small := by
    simp only [Queue.new, Nat.zero_add, Nat.mod_eq_of_lt small]
    exact ⟨trivial, id⟩

namespace Holds

variable {w k head : Nat} {M : Type*} {q q₁ : Queue w M} {stored : List M} {item : M}

/-- The slot a counter selects. -/
theorem slot_eq (holds : Holds q k head stored) (narrow : k < w) (n : Nat) :
    q.slot (BitVec.ofNat w n) = q.buffer (n % 2 ^ k) := by
  rw [Queue.slot, Queue.index, holds.mask, toNat_and_mask narrow.le]

/-- Putting one more message into the free slot at the end. -/
theorem enqueued (holds : Holds q k head stored) (room : stored.length < 2 ^ k)
    (mask : q₁.mask = q.mask) (dequeuePos : q₁.dequeuePos = q.dequeuePos)
    (enqueuePos : q₁.enqueuePos = BitVec.ofNat w (head + stored.length + 1))
    (alive : q₁.consumerAlive = q.consumerAlive)
    (buffer : q₁.buffer = Function.update q.buffer ((head + stored.length) % 2 ^ k)
      ⟨BitVec.ofNat w (head + stored.length + 1), .live item⟩) :
    Holds q₁ k head (stored ++ [item]) where
  mask := mask.trans holds.mask
  dequeuePos := dequeuePos.trans holds.dequeuePos
  enqueuePos := by rw [enqueuePos, List.length_append, List.length_singleton, Nat.add_assoc]
  alive := alive.trans holds.alive
  bounded := by
    rw [List.length_append, List.length_singleton]
    omega
  used i other found := by
    rw [buffer]
    by_cases last : i = stored.length
    · subst last
      rw [List.getElem?_concat_length] at found
      cases found
      rw [Function.update_self]
    · have inside : i < stored.length := by
        have := (List.getElem?_eq_some_iff.1 found).1
        rw [List.length_append, List.length_singleton] at this
        omega
      rw [List.getElem?_append_left inside] at found
      have apart := mod_ne_mod_of_near (show head + i < head + stored.length by omega)
        (show _ < 2 ^ k by omega)
      rw [Function.update_of_ne apart, holds.used i other found]
  free i beyond small := by
    rw [List.length_append, List.length_singleton] at beyond
    have apart := mod_ne_mod_of_near (show head + stored.length < head + i by omega)
      (show _ < 2 ^ k by omega)
    rw [buffer, Function.update_of_ne apart.symm]
    exact holds.free i (by omega) small

/-- Taking the oldest message out of its slot, which is then free one lap ahead. -/
theorem dequeued {rest : List M} {val : MaybeUninit M} (holds : Holds q k head (item :: rest))
    (mask : q₁.mask = q.mask) (enqueuePos : q₁.enqueuePos = q.enqueuePos)
    (dequeuePos : q₁.dequeuePos = BitVec.ofNat w (head + 1))
    (alive : q₁.consumerAlive = q.consumerAlive) (taken : ¬ val.IsLive)
    (buffer : q₁.buffer = Function.update q.buffer (head % 2 ^ k)
      ⟨BitVec.ofNat w (head + 2 ^ k), val⟩) :
    Holds q₁ k (head + 1) rest where
  mask := mask.trans holds.mask
  dequeuePos := dequeuePos
  enqueuePos := by
    rw [enqueuePos, holds.enqueuePos, List.length_cons]
    congr 1
    omega
  alive := alive.trans holds.alive
  bounded := by
    have := holds.bounded
    rw [List.length_cons] at this
    omega
  used i other found := by
    have inside := (List.getElem?_eq_some_iff.1 found).1
    have bounded := holds.bounded
    rw [List.length_cons] at bounded
    have apart := mod_ne_mod_of_near (show head < head + (i + 1) by omega) (show _ < 2 ^ k by omega)
    have slot := holds.used (i + 1) other (by simpa using found)
    rw [buffer, show head + 1 + i = head + (i + 1) by omega, Function.update_of_ne apart.symm, slot]
  free i beyond small := by
    rw [buffer]
    by_cases last : i + 1 = 2 ^ k
    · have same : head + 1 + i = head + 2 ^ k := by omega
      rw [same, Nat.add_mod_right, Function.update_self]
      exact ⟨rfl, taken⟩
    · have apart := mod_ne_mod_of_near (show head < head + (i + 1) by omega)
        (show _ < 2 ^ k by omega)
      rw [show head + 1 + i = head + (i + 1) by omega, Function.update_of_ne apart.symm]
      exact holds.free (i + 1) (by rw [List.length_cons]; omega) (by omega)

/-- While there is room, the slot at the end reads as free and holds no message. -/
theorem tail_free (holds : Holds q k head stored) (narrow : k < w)
    (room : stored.length < 2 ^ k) :
    signedGap (q.slot q.enqueuePos).seq q.enqueuePos = 0 ∧
      ¬ (q.slot q.enqueuePos).val.IsLive := by
  obtain ⟨seq, val⟩ := holds.free stored.length le_rfl room
  rw [holds.enqueuePos, holds.slot_eq narrow]
  exact ⟨signedGap_eq_zero_iff.2 seq, val⟩

/-- With two slots or more a full queue reads as one lap behind. The distance of `2 ^ k - 1` between
    the two counters is what a single slot lacks. -/
theorem tail_full (holds : Holds q k head stored) (slots : 1 ≤ k) (narrow : k < w)
    (full : ¬ stored.length < 2 ^ k) :
    signedGap (q.slot q.enqueuePos).seq q.enqueuePos < 0 := by
  have two : 2 ^ 1 ≤ 2 ^ k := Nat.pow_le_pow_right (by omega) slots
  have half : 2 ^ k ≤ 2 ^ (w - 1) := Nat.pow_le_pow_right (by omega) (by omega)
  have exactly : stored.length = 2 ^ k := by
    have := holds.bounded
    omega
  obtain ⟨item, rest, rfl⟩ : ∃ item rest, stored = item :: rest := by
    cases stored with
    | nil => simp at full
    | cons item rest => exact ⟨item, rest, rfl⟩
  have oldest := holds.used 0 item rfl
  rw [Nat.add_zero] at oldest
  rw [holds.enqueuePos, exactly, holds.slot_eq narrow, Nat.add_mod_right, oldest,
    signedGap_ofNat_of_near (by omega) (by omega)]
  omega

/-- The slot at the front of an empty queue reads as not yet written. -/
theorem head_empty (holds : Holds q k head ([] : List M)) (narrow : k < w) :
    signedGap (q.slot q.dequeuePos).seq (q.dequeuePos + 1) < 0 := by
  obtain ⟨seq, _⟩ := holds.free 0 le_rfl (Nat.two_pow_pos k)
  rw [Nat.add_zero] at seq
  rw [holds.dequeuePos, holds.slot_eq narrow, seq, signedGap_succ_right (by omega)]
  decide

/-- The slot at the front holds the oldest message and reads as written. -/
theorem head_used {rest : List M} (holds : Holds q k head (item :: rest)) (narrow : k < w) :
    signedGap (q.slot q.dequeuePos).seq (q.dequeuePos + 1) = 0 ∧
      (q.slot q.dequeuePos).val = .live item := by
  have oldest := holds.used 0 item rfl
  rw [Nat.add_zero] at oldest
  rw [holds.dequeuePos, holds.slot_eq narrow, oldest]
  exact ⟨signedGap_eq_zero_iff.2 (BitVec.ofNat_add head 1), rfl⟩

/-- `is_empty` agrees with the list. -/
theorem isEmpty_eq (holds : Holds q k head stored) (narrow : k < w) :
    q.isEmpty = stored.isEmpty := by
  cases stored with
  | nil => exact decide_eq_true (holds.head_empty narrow)
  | cons item rest =>
      have read := (holds.head_used narrow).1
      rw [Queue.isEmpty, read]
      rfl

end Holds

/-! ### One call -/

/-- How many steps a call has left if no compare-and-swap fails. -/
def CallPc.rank {w : Nat} {M : Type*} : CallPc w M → Nat
  | .send (.checkAlive _) => 6
  | .send (.loadPos _) | .recv .loadPos => 5
  | .send (.loadSeq _ _) | .recv (.loadSeq _) => 4
  | .send (.cas _ _) | .recv (.cas _) => 3
  | .send (.write _ _) | .recv (.read _) => 2
  | .send (.storeSeq _) | .send (.recheckAlive _) | .recv (.storeSeq _ _) => 1
  | .send (.returned _) | .recv (.returned _) => 0

/-- What a spurious failure gives back: itself and the look at the slot. -/
def Move.refund : Move → Nat
  | .step => 0
  | .spurious => 2

/-- Where a lone `try_send` of `item` stands, and what it has made of the queue `q` so far. -/
def SendAt {w : Nat} {M : Type*} (q : Queue w M) (k head : Nat) (stored : List M) (item : M)
    (now : Queue w M) : EnqueuePc w M → Prop
  | .checkAlive held | .loadPos held => now = q ∧ held = item
  | .loadSeq held pos => now = q ∧ held = item ∧ pos = q.enqueuePos
  | .cas held pos => now = q ∧ held = item ∧ pos = q.enqueuePos ∧ stored.length < 2 ^ k
  | .write held pos =>
      now = { q with enqueuePos := pos + 1 } ∧ held = item ∧ pos = q.enqueuePos ∧
        stored.length < 2 ^ k
  | .storeSeq pos =>
      now = { q with enqueuePos := pos + 1 }.storeVal pos (.live item) ∧ pos = q.enqueuePos ∧
        stored.length < 2 ^ k
  | .recheckAlive held => now = q ∧ held = item ∧ ¬ stored.length < 2 ^ k
  | .returned result =>
      Holds now k head (Fifo.perform (2 ^ k) stored (.trySend item)).2 ∧
        .sent result = (Fifo.perform (2 ^ k) stored (.trySend item)).1

/-- Where a lone `try_recv` stands. -/
def RecvAt {w : Nat} {M : Type*} (q : Queue w M) (k : Nat) (stored : List M)
    (now : Queue w M) : DequeuePc w M → Prop
  | .loadPos => now = q
  | .loadSeq pos => now = q ∧ pos = q.dequeuePos
  | .cas pos => now = q ∧ pos = q.dequeuePos ∧ stored ≠ []
  | .read pos => now = { q with dequeuePos := pos + 1 } ∧ pos = q.dequeuePos ∧ stored ≠ []
  | .storeSeq pos item =>
      now = { q with dequeuePos := pos + 1 }.storeVal pos (.moved item) ∧ pos = q.dequeuePos ∧
        stored.head? = some item
  | .returned result => result = stored.head? ∧ ∃ head, Holds now k head stored.tail

/-- Where a lone call stands. -/
def CallAt {w : Nat} {M : Type*} (q : Queue w M) (k head : Nat) (stored : List M)
    (operation : Operation M) (s : Queue w M × CallPc w M) : Prop :=
  match operation, s with
  | .trySend item, (now, .send pc) => SendAt q k head stored item now pc
  | .tryRecv, (now, .recv pc) => RecvAt q k stored now pc
  | _, _ => False

section OneCall

variable {w k head : Nat} {M : Type*} {q now next : Queue w M} {stored : List M} {item : M}

/-- Publishing the message leaves the queue with it at the end. -/
theorem Holds.published (holds : Holds q k head stored) (narrow : k < w)
    (room : stored.length < 2 ^ k) :
    Holds (({ q with enqueuePos := q.enqueuePos + 1 }.storeVal q.enqueuePos (.live item)).storeSeq
      q.enqueuePos (q.enqueuePos + 1)) k head (stored ++ [item]) := by
  have index : q.index q.enqueuePos = (head + stored.length) % 2 ^ k := by
    rw [Queue.index, holds.mask, holds.enqueuePos, toNat_and_mask narrow.le]
  have after : q.enqueuePos + 1 = BitVec.ofNat w (head + stored.length + 1) := by
    rw [holds.enqueuePos, BitVec.ofNat_add _ 1]
    rfl
  refine holds.enqueued room rfl rfl after rfl ?_
  rw [← index, ← after]
  simp [Queue.storeSeq, Queue.storeVal, Queue.slot, Queue.index]

/-- Releasing the slot leaves the queue without its oldest message. -/
theorem Holds.released {rest : List M} (holds : Holds q k head (item :: rest)) (narrow : k < w) :
    Holds (({ q with dequeuePos := q.dequeuePos + 1 }.storeVal q.dequeuePos (.moved item)).storeSeq
      q.dequeuePos (q.dequeuePos + q.mask + 1)) k (head + 1) rest := by
  have index : q.index q.dequeuePos = head % 2 ^ k := by
    rw [Queue.index, holds.mask, holds.dequeuePos, toNat_and_mask narrow.le]
  have after : q.dequeuePos + 1 = BitVec.ofNat w (head + 1) := by
    rw [holds.dequeuePos, BitVec.ofNat_add _ 1]
    rfl
  have lap : q.dequeuePos + q.mask + 1 = BitVec.ofNat w (head + 2 ^ k) := by
    have whole : head + 2 ^ k = head + (2 ^ k - 1) + 1 := by
      have := Nat.two_pow_pos k
      omega
    rw [holds.dequeuePos, holds.mask, whole, BitVec.ofNat_add _ 1, BitVec.ofNat_add]
    rfl
  have taken : ¬ (MaybeUninit.moved item).IsLive := id
  refine holds.dequeued rfl rfl after rfl taken ?_
  rw [← index, ← lap]
  simp [Queue.storeSeq, Queue.storeVal, Queue.slot, Queue.index]

/-- A step of a lone `try_send` leads to its next place, with one step less to go. -/
theorem SendAt.step {pc pc' : EnqueuePc w M} (holds : Holds q k head stored) (slots : 1 ≤ k)
    (narrow : k < w) (stands : SendAt q k head stored item now pc)
    (moved : enqueueStep now pc = some (next, pc')) :
    SendAt q k head stored item next pc' ∧
      (CallPc.send pc').rank + 1 ≤ (CallPc.send pc).rank := by
  cases pc with
  | checkAlive held =>
      obtain ⟨rfl, rfl⟩ := stands
      simp only [enqueueStep, holds.alive, if_true, Option.some.injEq, Prod.mk.injEq] at moved
      obtain ⟨rfl, rfl⟩ := moved
      exact ⟨⟨rfl, rfl⟩, le_rfl⟩
  | loadPos held =>
      obtain ⟨rfl, rfl⟩ := stands
      cases moved
      exact ⟨⟨rfl, rfl, rfl⟩, le_rfl⟩
  | loadSeq held pos =>
      obtain ⟨rfl, rfl, rfl⟩ := stands
      by_cases room : stored.length < 2 ^ k
      · have read := (holds.tail_free narrow room).1
        simp only [enqueueStep, read, if_true, Option.some.injEq, Prod.mk.injEq] at moved
        obtain ⟨rfl, rfl⟩ := moved
        exact ⟨⟨rfl, rfl, rfl, room⟩, le_rfl⟩
      · have read := holds.tail_full slots narrow room
        simp only [enqueueStep, read.ne, read, if_false, if_true, Option.some.injEq,
          Prod.mk.injEq] at moved
        obtain ⟨rfl, rfl⟩ := moved
        exact ⟨⟨rfl, rfl, room⟩, by simp [CallPc.rank]⟩
  | cas held pos =>
      obtain ⟨rfl, rfl, rfl, room⟩ := stands
      simp only [enqueueStep, if_true, Option.some.injEq, Prod.mk.injEq] at moved
      obtain ⟨rfl, rfl⟩ := moved
      exact ⟨⟨rfl, rfl, rfl, room⟩, le_rfl⟩
  | write held pos =>
      obtain ⟨rfl, rfl, rfl, room⟩ := stands
      cases moved
      exact ⟨⟨rfl, rfl, room⟩, le_rfl⟩
  | storeSeq pos =>
      obtain ⟨rfl, rfl, room⟩ := stands
      cases moved
      rw [SendAt, Fifo.perform, if_pos room]
      exact ⟨⟨holds.published narrow room, rfl⟩, le_rfl⟩
  | recheckAlive held =>
      obtain ⟨rfl, rfl, full⟩ := stands
      simp only [enqueueStep, holds.alive, if_true, Option.some.injEq, Prod.mk.injEq] at moved
      obtain ⟨rfl, rfl⟩ := moved
      rw [SendAt, Fifo.perform, if_neg full]
      exact ⟨⟨holds, rfl⟩, le_rfl⟩
  | returned result => cases moved

/-- A spurious failure sends a lone `try_send` back to the slot, at the position it had. -/
theorem SendAt.spurious {pc pc' : EnqueuePc w M} (stands : SendAt q k head stored item now pc)
    (moved : enqueueSpurious now pc = some pc') :
    SendAt q k head stored item now pc' ∧
      (CallPc.send pc').rank + 1 ≤ (CallPc.send pc).rank + 2 := by
  cases pc with
  | cas held pos =>
      obtain ⟨rfl, rfl, rfl, _⟩ := stands
      cases moved
      exact ⟨⟨rfl, rfl, rfl⟩, le_rfl⟩
  | checkAlive | loadPos | loadSeq | write | storeSeq | recheckAlive | returned => cases moved

/-- A step of a lone `try_recv` leads to its next place, with one step less to go. -/
theorem RecvAt.step {pc pc' : DequeuePc w M} (holds : Holds q k head stored) (narrow : k < w)
    (stands : RecvAt q k stored now pc) (moved : dequeueStep now pc = some (next, pc')) :
    RecvAt q k stored next pc' ∧ (CallPc.recv pc').rank + 1 ≤ (CallPc.recv pc).rank := by
  cases pc with
  | loadPos =>
      cases stands
      cases moved
      exact ⟨⟨rfl, rfl⟩, le_rfl⟩
  | loadSeq pos =>
      obtain ⟨rfl, rfl⟩ := stands
      cases stored with
      | nil =>
          have read := holds.head_empty narrow
          simp only [dequeueStep, read.ne, read, if_false, if_true, Option.some.injEq,
            Prod.mk.injEq] at moved
          obtain ⟨rfl, rfl⟩ := moved
          exact ⟨⟨rfl, head, holds⟩, by simp [CallPc.rank]⟩
      | cons item rest =>
          have read := (holds.head_used narrow).1
          simp only [dequeueStep, read, if_true, Option.some.injEq, Prod.mk.injEq] at moved
          obtain ⟨rfl, rfl⟩ := moved
          exact ⟨⟨rfl, rfl, List.cons_ne_nil _ _⟩, le_rfl⟩
  | cas pos =>
      obtain ⟨rfl, rfl, some⟩ := stands
      simp only [dequeueStep, if_true, Option.some.injEq, Prod.mk.injEq] at moved
      obtain ⟨rfl, rfl⟩ := moved
      exact ⟨⟨rfl, rfl, some⟩, le_rfl⟩
  | read pos =>
      obtain ⟨rfl, rfl, some⟩ := stands
      cases stored with
      | nil => exact absurd rfl some
      | cons item rest =>
          have val : (Queue.slot { q with dequeuePos := q.dequeuePos + 1 } q.dequeuePos).val =
            .live item := (holds.head_used narrow).2
          simp only [dequeueStep, val, Option.some.injEq, Prod.mk.injEq] at moved
          obtain ⟨rfl, rfl⟩ := moved
          exact ⟨⟨rfl, rfl, rfl⟩, le_rfl⟩
  | storeSeq pos item =>
      obtain ⟨rfl, rfl, first⟩ := stands
      cases moved
      obtain ⟨rest, rfl⟩ := List.head?_eq_some_iff.1 first
      exact ⟨⟨rfl, head + 1, holds.released narrow⟩, le_rfl⟩
  | returned result => cases moved

/-- A spurious failure sends a lone `try_recv` back to the slot. -/
theorem RecvAt.spurious {pc pc' : DequeuePc w M} (stands : RecvAt q k stored now pc)
    (moved : dequeueSpurious now pc = some pc') :
    RecvAt q k stored now pc' ∧ (CallPc.recv pc').rank + 1 ≤ (CallPc.recv pc).rank + 2 := by
  cases pc with
  | cas pos =>
      obtain ⟨rfl, rfl, _⟩ := stands
      cases moved
      exact ⟨⟨rfl, rfl⟩, le_rfl⟩
  | loadPos | loadSeq | read | storeSeq | returned => cases moved

/-- Every move of a lone call leads to its next place and is paid for by the rank. -/
theorem CallAt.step {operation : Operation M} {s t : Queue w M × CallPc w M} {move : Move}
    (holds : Holds q k head stored) (slots : 1 ≤ k) (narrow : k < w)
    (stands : CallAt q k head stored operation s) (moved : callStep s move = some t) :
    CallAt q k head stored operation t ∧ t.2.rank + 1 ≤ s.2.rank + move.refund := by
  obtain ⟨now, pc⟩ := s
  cases operation with
  | trySend item =>
      cases pc with
      | recv pc => exact stands.elim
      | send pc =>
          cases move with
          | step =>
              obtain ⟨⟨next, pc'⟩, stepped, rfl⟩ := Option.map_eq_some_iff.1 moved
              exact SendAt.step holds slots narrow stands stepped
          | spurious =>
              obtain ⟨pc', failed, rfl⟩ := Option.map_eq_some_iff.1 moved
              exact SendAt.spurious stands failed
  | tryRecv =>
      cases pc with
      | send pc => exact stands.elim
      | recv pc =>
          cases move with
          | step =>
              obtain ⟨⟨next, pc'⟩, stepped, rfl⟩ := Option.map_eq_some_iff.1 moved
              exact RecvAt.step holds narrow stands stepped
          | spurious =>
              obtain ⟨pc', failed, rfl⟩ := Option.map_eq_some_iff.1 moved
              exact RecvAt.spurious stands failed

/-- A lone call that has not returned has a step. -/
theorem CallAt.moves_on {operation : Operation M} {s : Queue w M × CallPc w M}
    (holds : Holds q k head stored) (narrow : k < w)
    (stands : CallAt q k head stored operation s) (running : s.2.outcome = none) :
    (callStep s .step).isSome = true := by
  obtain ⟨now, pc⟩ := s
  rw [callStep.eq_def]
  cases operation with
  | trySend item =>
      cases pc with
      | recv pc => exact stands.elim
      | send pc =>
          rw [Option.isSome_map]
          cases pc with
          | returned result => cases running
          | cas held pos =>
              obtain ⟨rfl, rfl, rfl, _⟩ := stands
              simp [enqueueStep]
          | checkAlive | loadPos | loadSeq | write | storeSeq | recheckAlive => rfl
  | tryRecv =>
      cases pc with
      | send pc => exact stands.elim
      | recv pc =>
          rw [Option.isSome_map]
          cases pc with
          | returned result => cases running
          | cas pos =>
              obtain ⟨rfl, rfl, _⟩ := stands
              simp [dequeueStep]
          | read pos =>
              obtain ⟨rfl, rfl, some⟩ := stands
              obtain ⟨item, rest, rfl⟩ := List.exists_cons_of_ne_nil some
              have val : (Queue.slot { q with dequeuePos := q.dequeuePos + 1 } q.dequeuePos).val =
                .live item := (holds.head_used narrow).2
              simp only [dequeueStep, val]
              rfl
          | loadPos | loadSeq | storeSeq => rfl

/-- A lone call is at its start when it starts. -/
theorem CallAt.start (operation : Operation M) :
    CallAt q k head stored operation (q, operation.start) := by
  cases operation with
  | trySend item => exact ⟨rfl, rfl⟩
  | tryRecv => exact rfl

/-- A lone call that has returned answered like the bounded queue and left it behind. -/
theorem CallAt.returned {operation : Operation M} {s : Queue w M × CallPc w M} {outcome : Outcome M}
    (stands : CallAt q k head stored operation s) (returned : s.2.outcome = some outcome) :
    outcome = (Fifo.perform (2 ^ k) stored operation).1 ∧
      ∃ head', Holds s.1 k head' (Fifo.perform (2 ^ k) stored operation).2 := by
  obtain ⟨now, pc⟩ := s
  cases operation with
  | trySend item =>
      rcases pc with (_ | _ | _ | _ | _ | _ | _ | result) | _
      case send.returned =>
        obtain rfl := Option.some.inj returned
        exact ⟨stands.2, head, stands.1⟩
      case recv => exact stands.elim
      all_goals cases returned
  | tryRecv =>
      rcases pc with _ | (_ | _ | _ | _ | _ | result)
      case recv.returned =>
        obtain rfl := Option.some.inj returned
        exact ⟨congrArg Outcome.received stands.1, stands.2⟩
      case send => exact stands.elim
      all_goals cases returned

theorem rank_start_le (operation : Operation M) : (operation.start : CallPc w M).rank ≤ 6 := by
  cases operation with
  | trySend item => exact le_rfl
  | tryRecv => exact Nat.le_succ 5

/-- What the moves of a call give back, all together. -/
theorem sum_refund (moves : List Move) :
    (moves.map Move.refund).sum = 2 * moves.count .spurious := by
  induction moves with
  | nil => rfl
  | cons move moves inductionHypothesis =>
      rw [List.map_cons, List.sum_cons, inductionHypothesis]
      cases move with
      | step => simp [Move.refund]
      | spurious =>
          rw [List.count_cons_self]
          simp only [Move.refund]
          omega

/-- Every move of every call obeys the law of one call. -/
theorem Holds.callLaw {operation : Operation M} {moves : List Move} {s : Queue w M × CallPc w M}
    (holds : Holds q k head stored) (slots : 1 ≤ k) (narrow : k < w)
    (ran : exec callStep (q, operation.start) moves = some s) :
    CallLaw (2 ^ k) stored operation moves s ∧ CallAt q k head stored operation s := by
  obtain ⟨stands, spent⟩ := length_le_of_exec (fun s => s.2.rank) Move.refund
    (CallAt.start operation)
    (fun _ _ _ _ stands moved => CallAt.step holds slots narrow stands moved) ran
  refine ⟨⟨?_, CallAt.moves_on holds narrow stands, ?_, fun _ returned =>
    (CallAt.returned stands returned).1⟩, stands⟩
  · have most := rank_start_le (w := w) operation
    rw [sum_refund] at spent
    dsimp only at spent
    omega
  · intro item pos writes
    obtain ⟨now, pc⟩ := s
    obtain rfl : pc = .send (.write item pos) := writes
    cases operation with
    | trySend held =>
        obtain ⟨rfl, _, rfl, room⟩ := stands
        exact (holds.tail_free narrow room).2
    | tryRecv => exact stands.elim

end OneCall

/-! ### Every history -/

/-- With two slots or more, every history is one of the bounded queue, and the slots hold what that
    queue stores. -/
theorem Histories.holds {w k : Nat} {M : Type*} {q : Queue w M}
    {history : List (Operation M × Outcome M)} (slots : 1 ≤ k) (narrow : k < w)
    (ran : Histories (.new w M (2 ^ k)) history q) :
    ∃ stored head, Fifo.Histories (2 ^ k) history stored ∧ Holds q k head stored := by
  induction ran with
  | nil => exact ⟨[], 0, .nil, holds_new⟩
  | snoc _ ran returned inductionHypothesis =>
      obtain ⟨stored, head, fifo, holds⟩ := inductionHypothesis
      obtain ⟨_, stands⟩ := holds.callLaw slots narrow ran
      obtain ⟨rfl, head', holds'⟩ := CallAt.returned stands returned
      exact ⟨_, head', fifo.snoc _, holds'⟩

/-- With two slots or more the channel is the bounded queue. -/
theorem capacityLaw_of_slots {w k : Nat} {M : Type*} (slots : 1 ≤ k) (narrow : k < w) :
    CapacityLaw (.new w M (2 ^ k)) (2 ^ k) := by
  intro history q ran
  obtain ⟨stored, head, fifo, holds⟩ := ran.holds slots narrow
  exact ⟨stored, fifo, holds.isEmpty_eq narrow,
    fun _ _ _ ran => (holds.callLaw slots narrow ran).1⟩

/-! ### A single slot -/

section SingleSlot

variable {w : Nat} {M : Type*} {q : Queue w M}

/-- The queue a lone `try_send` that found its slot free leaves behind. -/
def Queue.published (q : Queue w M) (item : M) : Queue w M :=
  ({ q with enqueuePos := q.enqueuePos + 1 }.storeVal q.enqueuePos (.live item)).storeSeq
    q.enqueuePos (q.enqueuePos + 1)

/-- A slot that reads as free is written, whatever it holds. -/
theorem exec_trySend_of_free (item : M) (alive : q.consumerAlive = true)
    (free : (q.slot q.enqueuePos).seq = q.enqueuePos) :
    exec callStep (q, (Operation.trySend item).start) (List.replicate 6 .step) =
      some (q.published item, .send (.returned (.ok ()))) := by
  simp [exec, callStep, enqueueStep, Operation.start, Queue.published, alive, free]

/-- With one slot the number a message is published under is the number the slot is free for. -/
theorem single_slot_accepts_twice (item item' : M) :
    ∃ q', Histories (.new w M 1)
      [(.trySend item, .sent (.ok ())), (.trySend item', .sent (.ok ()))] q' := by
  have fresh : ((Queue.new w M 1).slot (Queue.new w M 1).enqueuePos).seq =
      (Queue.new w M 1).enqueuePos := by
    simp [Queue.new, Queue.slot, Queue.index]
  have first := exec_trySend_of_free item rfl fresh
  have again : (((Queue.new w M 1).published item).slot
      ((Queue.new w M 1).published item).enqueuePos).seq =
        ((Queue.new w M 1).published item).enqueuePos := by
    simp [Queue.published, Queue.new, Queue.storeSeq, Queue.storeVal, Queue.slot, Queue.index]
  have second := exec_trySend_of_free item' rfl again
  exact ⟨_, .snoc (.snoc .nil first rfl) second rfl⟩

/-- The last call of a history of the bounded queue. -/
theorem Fifo.Histories.last {bound : Nat} (history : List (Operation M × Outcome M))
    {stored : List M} {operation : Operation M} {outcome : Outcome M}
    (fifo : Fifo.Histories bound (history ++ [(operation, outcome)]) stored) :
    ∃ before, Fifo.Histories bound history before ∧
      outcome = (Fifo.perform bound before operation).1 ∧
      stored = (Fifo.perform bound before operation).2 := by
  generalize whole : history ++ [(operation, outcome)] = calls at fifo
  cases fifo with
  | nil => simp at whole
  | snoc operation' before =>
      obtain ⟨rfl, last⟩ := List.append_inj' whole rfl
      cases last
      exact ⟨_, before, rfl, rfl⟩

/-- The bounded queue of capacity one refuses the second of two messages. -/
theorem single_slot_breaks_law [Inhabited M] : ¬ CapacityLaw (.new w M 1) 1 := by
  intro law
  obtain ⟨q', accepted⟩ := single_slot_accepts_twice (w := w) (default : M) default
  obtain ⟨stored, fifo, _⟩ := law _ _ accepted
  obtain ⟨one, first, refused, _⟩ := Fifo.Histories.last [_] fifo
  obtain ⟨none, start, _, rfl⟩ := Fifo.Histories.last [] first
  obtain rfl : none = [] := by
    generalize empty : ([] : List (Operation M × Outcome M)) = calls at start
    cases start with
    | nil => rfl
    | snoc => simp at empty
  simp [Fifo.perform] at refused

/-- The channel for a request of `capacity` is the bounded FIFO queue of the rounded capacity exactly
    when at least two slots were asked for. -/
theorem capacityLaw_iff_two_le [Inhabited M] {capacity : Nat}
    (made : channel w M capacity = some q) :
    CapacityLaw q (roundCapacity capacity) ↔ 2 ≤ capacity := by
  obtain ⟨narrow, rfl⟩ := channel_eq_some made
  rw [← one_le_clog_iff]
  constructor
  · intro law
    by_contra few
    have single : roundCapacity capacity = 1 := by
      rw [roundCapacity, Nat.lt_one_iff.1 (not_le.1 few), Nat.pow_zero]
    rw [single] at law
    exact single_slot_breaks_law law
  · intro slots
    exact capacityLaw_of_slots slots (by omega)

/-- Two slots on a 64-bit target. -/
theorem capacityLaw_two :
    CapacityLaw (.new 64 Nat 2) (roundCapacity 2) ∧ channel 64 Nat 2 = some (.new 64 Nat 2) :=
  have made : channel 64 Nat 2 = some (.new 64 Nat 2) := channel_two_pow (k := 1) (by decide)
  ⟨(capacityLaw_iff_two_le made).2 le_rfl, made⟩

/-- A request for one slot can be served and the channel it gets loses a message it accepted. -/
theorem capacityLaw_fails_at_one :
    ∃ q, channel 64 Nat 1 = some q ∧ ¬ CapacityLaw q (roundCapacity 1) :=
  have made : channel 64 Nat 1 = some (.new 64 Nat 1) := channel_two_pow (k := 0) (by decide)
  have single : roundCapacity 1 = 1 := roundCapacity_two_pow 0
  ⟨_, made, by rw [single]; exact single_slot_breaks_law⟩

end SingleSlot

end AetherFlow.Mpsc
