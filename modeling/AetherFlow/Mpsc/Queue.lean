/-
Module: AetherFlow.Mpsc.Queue
Purpose: The bounded sequence-numbered queue of `core/src/mpsc.rs`, one definition per atomic step.
  Positions and slot sequence numbers are machine words of width `w`, so `wrapping_add` and the
  signed wrapping difference are those of the source. An `enqueue` or `dequeue` call is a program
  counter with its local variables; a step reads or writes at most one shared cell.
Trusted boundary: human-reviewed transcription of `core/src/mpsc.rs`
Main exports: MaybeUninit, Slot, Queue, roundCapacity, channel, TrySendError, SendAnswer, EnqueuePc,
  enqueueStep, enqueueSpurious, DequeuePc, dequeueStep, dequeueSpurious
-/
import Mathlib.Logic.Function.Basic
import AetherFlow.Lib.Word

namespace AetherFlow.Mpsc

open Word

/-- Contents of a slot's `MaybeUninit`. `assume_init_read` copies the bits out, so a slot that was
    read still holds the bits of a message it no longer owns. -/
inductive MaybeUninit (M : Type*) where
  | uninit
  | live (m : M)
  | moved (m : M)
deriving DecidableEq

/-- The slot owns a message. -/
def MaybeUninit.IsLive {M : Type*} : MaybeUninit M → Prop
  | .live _ => True
  | _ => False

structure Slot (w : Nat) (M : Type*) where
  seq : BitVec w
  val : MaybeUninit M

/-- `producers` counts at most the strong references of one `Arc`, whose `clone` aborts the process
    long before a word overflows, so it is a plain number. -/
structure Queue (w : Nat) (M : Type*) where
  buffer : Nat → Slot w M
  mask : BitVec w
  enqueuePos : BitVec w
  dequeuePos : BitVec w
  producers : Nat
  consumerAlive : Bool

/-- `capacity.max(1).next_power_of_two()`. -/
def roundCapacity (capacity : Nat) : Nat := 2 ^ Nat.clog 2 (max capacity 1)

/-- The queue `channel` allocates for `cap` slots. -/
def Queue.new (w : Nat) (M : Type*) (cap : Nat) : Queue w M where
  buffer i := { seq := BitVec.ofNat w i, val := .uninit }
  mask := BitVec.ofNat w (cap - 1)
  enqueuePos := 0
  dequeuePos := 0
  producers := 1
  consumerAlive := true

/-- A fresh queue, or `none` where the rounded capacity leaves `isize`. The source panics on more requests
    than that: an allocation holds at most `isize::MAX` bytes, and how many a slot takes is not known
    here. A build without overflow checks rounds a request beyond `2 ^ (w - 1)` to 0 and returns a queue
    without slots, on which every send panics; there is no such queue here. -/
def channel (w : Nat) (M : Type*) (capacity : Nat) : Option (Queue w M) :=
  let cap := roundCapacity capacity
  if cap < 2 ^ (w - 1) then some (.new w M cap) else none

/-- Why a `try_send` failed; both variants return the message. -/
inductive TrySendError (M : Type*) where
  | full (m : M)
  | closed (m : M)
deriving DecidableEq

/-- `TrySendError::into_message`. -/
def TrySendError.intoMessage {M : Type*} : TrySendError M → M
  | .full m | .closed m => m

/-- How a `try_send` ended, for callers that do not look at the message they get back. -/
inductive SendAnswer where
  | accepted
  | full
  | closed
deriving DecidableEq

namespace Queue

variable {w : Nat} {M : Type*}

/-- `pos & mask`. -/
def index (q : Queue w M) (pos : BitVec w) : Nat := (pos &&& q.mask).toNat

/-- `&self.buffer[pos & mask]`. -/
def slot (q : Queue w M) (pos : BitVec w) : Slot w M := q.buffer (q.index pos)

/-- `slot.seq.store(seq)`. -/
def storeSeq (q : Queue w M) (pos seq : BitVec w) : Queue w M :=
  { q with buffer := Function.update q.buffer (q.index pos) { q.slot pos with seq := seq } }

/-- Replace the contents of a slot's `UnsafeCell`. -/
def storeVal (q : Queue w M) (pos : BitVec w) (val : MaybeUninit M) : Queue w M :=
  { q with buffer := Function.update q.buffer (q.index pos) { q.slot pos with val := val } }

end Queue

/-- Where an `enqueue` call stands, with the locals it holds there. -/
inductive EnqueuePc (w : Nat) (M : Type*) where
  /-- About to load `consumer_alive` for the first time. -/
  | checkAlive (item : M)
  /-- About to load `enqueue_pos`. -/
  | loadPos (item : M)
  /-- About to load the `seq` of the slot at `pos`. -/
  | loadSeq (item : M) (pos : BitVec w)
  /-- The slot read as free; about to reserve `pos`. -/
  | cas (item : M) (pos : BitVec w)
  /-- `pos` is reserved; about to write the item. -/
  | write (item : M) (pos : BitVec w)
  /-- The item is written; about to publish it. -/
  | storeSeq (pos : BitVec w)
  /-- The slot read as one lap behind; about to load `consumer_alive` again. -/
  | recheckAlive (item : M)
  | returned (result : Except (TrySendError M) Unit)

/-- The next atomic step of `Queue::enqueue`. -/
def enqueueStep {w : Nat} {M : Type*} (q : Queue w M) :
    EnqueuePc w M → Option (Queue w M × EnqueuePc w M)
  | .checkAlive item =>
      some (q, if q.consumerAlive then .loadPos item else .returned (.error (.closed item)))
  | .loadPos item => some (q, .loadSeq item q.enqueuePos)
  | .loadSeq item pos =>
      let dif := signedGap (q.slot pos).seq pos
      some (q, if dif = 0 then .cas item pos else if dif < 0 then .recheckAlive item else .loadPos item)
  | .cas item pos =>
      if q.enqueuePos = pos then
        some ({ q with enqueuePos := pos + 1 }, .write item pos)
      else
        some (q, .loadSeq item q.enqueuePos)
  | .write item pos => some (q.storeVal pos (.live item), .storeSeq pos)
  | .storeSeq pos => some (q.storeSeq pos (pos + 1), .returned (.ok ()))
  | .recheckAlive item =>
      some (q, .returned (.error (if q.consumerAlive then .full item else .closed item)))
  | .returned _ => none

/-- `compare_exchange_weak` on `enqueue_pos` may fail although the position still matches. -/
def enqueueSpurious {w : Nat} {M : Type*} (q : Queue w M) : EnqueuePc w M → Option (EnqueuePc w M)
  | .cas item _ => some (.loadSeq item q.enqueuePos)
  | _ => none

/-- Where a `dequeue` call stands. -/
inductive DequeuePc (w : Nat) (M : Type*) where
  | loadPos
  | loadSeq (pos : BitVec w)
  | cas (pos : BitVec w)
  /-- `pos` is claimed; about to move the item out of its slot. -/
  | read (pos : BitVec w)
  /-- The item is out; about to release the slot one lap ahead. -/
  | storeSeq (pos : BitVec w) (item : M)
  | returned (result : Option M)

/-- The next atomic step of `Queue::dequeue`. Reading a slot that was never written has no step: the
    source's `assume_init_read` is undefined there. -/
def dequeueStep {w : Nat} {M : Type*} (q : Queue w M) :
    DequeuePc w M → Option (Queue w M × DequeuePc w M)
  | .loadPos => some (q, .loadSeq q.dequeuePos)
  | .loadSeq pos =>
      let dif := signedGap (q.slot pos).seq (pos + 1)
      some (q, if dif = 0 then .cas pos else if dif < 0 then .returned none else .loadPos)
  | .cas pos =>
      if q.dequeuePos = pos then
        some ({ q with dequeuePos := pos + 1 }, .read pos)
      else
        some (q, .loadSeq q.dequeuePos)
  | .read pos =>
      match (q.slot pos).val with
      | .uninit => none
      | .live item | .moved item => some (q.storeVal pos (.moved item), .storeSeq pos item)
  | .storeSeq pos item => some (q.storeSeq pos (pos + q.mask + 1), .returned (some item))
  | .returned _ => none

/-- `compare_exchange_weak` on `dequeue_pos` may fail although the position still matches. -/
def dequeueSpurious {w : Nat} {M : Type*} (q : Queue w M) : DequeuePc w M → Option (DequeuePc w M)
  | .cas _ => some (.loadSeq q.dequeuePos)
  | _ => none

section Channel

variable {w : Nat} {M : Type*} {capacity : Nat} {q : Queue w M}

/-- A queue that could be allocated has `2 ^ k` slots for a `k` with `k < w - 1`. -/
theorem channel_eq_some (made : channel w M capacity = some q) :
    Nat.clog 2 (max capacity 1) < w - 1 ∧ q = .new w M (roundCapacity capacity) := by
  obtain ⟨fits, queue⟩ := Option.ite_none_right_eq_some.1 made
  exact ⟨(Nat.pow_lt_pow_iff_right (by omega)).1 fits, (Option.some.inj queue).symm⟩

theorem roundCapacity_two_pow (k : Nat) : roundCapacity (2 ^ k) = 2 ^ k := by
  rw [roundCapacity, max_eq_left (Nat.two_pow_pos k), Nat.clog_pow 2 k (by decide)]

/-- A power of two that fits is the number of slots. -/
theorem channel_two_pow {k : Nat} (fits : k < w - 1) :
    channel w M (2 ^ k) = some (.new w M (2 ^ k)) := by
  rw [channel, roundCapacity_two_pow]
  exact if_pos (Nat.pow_lt_pow_right (by decide) fits)

/-- The rounded capacity is at least two exactly for the requests of at least two. -/
theorem one_le_clog_iff : 1 ≤ Nat.clog 2 (max capacity 1) ↔ 2 ≤ capacity := by
  rw [← not_lt, ← not_lt, not_iff_not, Nat.lt_one_iff]
  constructor
  · intro zero
    have := Nat.le_pow_clog (b := 2) (by omega) (max capacity 1)
    rw [zero] at this
    omega
  · intro small
    have : max capacity 1 = 1 := by omega
    rw [this, Nat.clog_one_right]

end Channel

end AetherFlow.Mpsc
