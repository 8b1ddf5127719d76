/-
Module: AetherFlow.Spsc.Ring
Purpose: The single-producer, single-consumer ring of `core/src/spsc.rs` with its two ends on two threads,
  as a transition function over their individual steps. A load of the other end's index may be stale:
  each end has a view of that index, the values it has held since this end last saw it, and a load
  returns any of them. Next to the memory the state keeps what was accepted, popped and dropped.
Trusted boundary: human-reviewed transcription of `core/src/spsc.rs`
Main exports: Ring, PushPc, PopPc, ProducerState, ConsumerState, Channel, Act, Channel.step,
  channel
-/
import Mathlib.Data.List.Basic
import AetherFlow.Lib.Transition
import AetherFlow.Mpsc.Queue

namespace AetherFlow.Spsc

open Mpsc (MaybeUninit TrySendError)

/-- The indices are `usize` values of width `w`: numbers below `2 ^ w` with wrapping arithmetic. -/
structure Ring (w : Nat) (T : Type*) where
  slots : Nat → MaybeUninit T
  cap : Nat
  head : Nat
  tail : Nat
  closed : Bool

/-- `x + 1` on a `usize`. -/
def wrappingSucc (w x : Nat) : Nat := (x + 1) % 2 ^ w

/-- `x - y` on `usize`s. -/
def wrappingSub (w x y : Nat) : Nat := (x + 2 ^ w - y) % 2 ^ w

/-- Replace the contents of the slot that position `pos` selects. -/
def Ring.store {w : Nat} {T : Type*} (ring : Ring w T) (pos : Nat) (val : MaybeUninit T) : Ring w T :=
  { ring with slots := Function.update ring.slots (pos % ring.cap) val }

/-- Where a `try_push` call stands. -/
inductive PushPc (T : Type*) where
  | loadTail (item : T)
  | loadHead (item : T) (tail : Nat)
  | write (item : T) (tail : Nat)
  | storeTail (item : T) (tail : Nat)
  | returned (result : Except (TrySendError T) Unit)

/-- Where a `try_pop` call stands. -/
inductive PopPc (T : Type*) where
  | loadHead
  | loadTail (head : Nat)
  | read (head : Nat)
  | storeHead (head : Nat) (item : T)
  | returned (result : Option T)

inductive ProducerState (T : Type*) where
  | idle
  | push (pc : PushPc T)
  /-- `Producer::drop` has set `closed`; the reference is not yet given up. -/
  | closing
  | gone

inductive ConsumerState (T : Type*) where
  | idle
  | pop (pc : PopPc T)
  /-- `is_closed` has returned. -/
  | isClosed (verdict : Bool)
  | gone

/-- No call borrows the end. -/
def ProducerState.quiescent {T : Type*} : ProducerState T → Bool
  | .idle | .push (.returned _) => true
  | _ => false

@[inherit_doc ProducerState.quiescent]
def ConsumerState.quiescent {T : Type*} : ConsumerState T → Bool
  | .idle | .pop (.returned _) | .isClosed _ => true
  | _ => false

/-- A `try_push` that returned `Full`: how many items had been accepted, and the head it saw. -/
structure FullAnswer where
  accepted : Nat
  observed : Nat

structure Channel (w : Nat) (T : Type*) where
  ring : Ring w T
  producer : ProducerState T
  consumer : ConsumerState T
  /-- The values of `head` since the producer last saw it, that one first. -/
  headView : List Nat
  /-- The values of `tail` since the consumer last saw it. -/
  tailView : List Nat
  /-- The consumer has seen `closed` set. -/
  closedSeen : Bool
  strong : Nat
  /-- `Ring::drop` runs: the next position and the one to stop at. -/
  dropping : Option (Nat × Nat)
  accepted : List T
  popped : List T
  dropped : List T
  fulls : List FullAnswer

inductive Act (T : Type*) where
  | push (item : T)
  /-- The producer's next step, unless it loads `head`. -/
  | producer
  /-- The producer's load of `head` returns the value at this place of its view. -/
  | seeHead (i : Nat)
  | dropProducer
  | releaseProducer
  | pop
  | consumer
  | seeTail (i : Nat)
  /-- `is_closed`, with what its load returns. -/
  | isClosed (seen : Bool)
  | dropConsumer
  /-- `Ring::drop` drops one item. -/
  | drop

namespace Channel

variable {w : Nat} {T : Type*}

/-- Both ends of a fresh ring. -/
def new (w : Nat) (T : Type*) (cap : Nat) : Channel w T where
  ring := { slots := fun _ => .uninit, cap := cap, head := 0, tail := 0, closed := false }
  producer := .idle
  consumer := .idle
  headView := [0]
  tailView := [0]
  closedSeen := false
  strong := 2
  dropping := none
  accepted := []
  popped := []
  dropped := []
  fulls := []

/-- Give up one reference; the last one runs `Ring::drop`, which loads both indices. -/
def release (s : Channel w T) : Channel w T :=
  { s with
    strong := s.strong - 1
    dropping := if s.strong = 1 then some (s.ring.head, s.ring.tail) else s.dropping }

/-- A step of `try_push` other than the load of `head`. -/
def producerStep (s : Channel w T) : PushPc T → Option (Channel w T)
  | .loadTail item => some { s with producer := .push (.loadHead item s.ring.tail) }
  | .write item tail =>
      some { s with
        ring := s.ring.store tail (.live item)
        producer := .push (.storeTail item tail) }
  | .storeTail item tail =>
      some { s with
        ring := { s.ring with tail := wrappingSucc w tail }
        tailView := s.tailView ++ [wrappingSucc w tail]
        accepted := s.accepted ++ [item]
        producer := .push (.returned (.ok ())) }
  | .loadHead _ _ | .returned _ => none

/-- A step of `try_pop` other than the load of `tail`. Reading a slot that was never written has no
    step: `assume_init_read` is undefined there. -/
def consumerStep (s : Channel w T) : PopPc T → Option (Channel w T)
  | .loadHead => some { s with consumer := .pop (.loadTail s.ring.head) }
  | .read head =>
      match s.ring.slots (head % s.ring.cap) with
      | .uninit => none
      | .live item | .moved item =>
          some { s with
            ring := s.ring.store head (.moved item)
            consumer := .pop (.storeHead head item) }
  | .storeHead head item =>
      some { s with
        ring := { s.ring with head := wrappingSucc w head }
        headView := s.headView ++ [wrappingSucc w head]
        popped := s.popped ++ [item]
        consumer := .pop (.returned (some item)) }
  | .loadTail _ | .returned _ => none

/-- One step of either end, or of `Ring::drop`. -/
def step (s : Channel w T) : Act T → Option (Channel w T)
  | .push item =>
      if s.producer.quiescent then some { s with producer := .push (.loadTail item) } else none
  | .producer =>
      match s.producer with
      | .push pc => s.producerStep pc
      | _ => none
  | .seeHead i =>
      match s.producer, s.headView[i]? with
      | .push (.loadHead item tail), some head =>
          if wrappingSub w tail head = s.ring.cap then
            some { s with
              headView := s.headView.drop i
              producer := .push (.returned (.error (.full item)))
              fulls := s.fulls ++ [⟨s.accepted.length, head⟩] }
          else
            some { s with headView := s.headView.drop i, producer := .push (.write item tail) }
      | _, _ => none
  | .dropProducer =>
      if s.producer.quiescent then
        some { s with ring := { s.ring with closed := true }, producer := .closing }
      else none
  | .releaseProducer =>
      match s.producer with
      | .closing => some { s.release with producer := .gone }
      | _ => none
  | .pop => if s.consumer.quiescent then some { s with consumer := .pop .loadHead } else none
  | .consumer =>
      match s.consumer with
      | .pop pc => s.consumerStep pc
      | _ => none
  | .seeTail i =>
      match s.consumer, s.tailView[i]? with
      | .pop (.loadTail head), some tail =>
          some { s with
            tailView := s.tailView.drop i
            consumer := .pop (if head = tail then .returned none else .read head) }
      | _, _ => none
  | .isClosed seen =>
      -- An `Acquire` load that returns `true` also makes every push before the close visible.
      if s.consumer.quiescent ∧ (seen = true → s.ring.closed = true) ∧
          (seen = false → s.closedSeen = false) then
        some { s with
          consumer := .isClosed seen
          closedSeen := seen
          tailView := if seen then [s.ring.tail] else s.tailView }
      else none
  | .dropConsumer =>
      if s.consumer.quiescent then some { s.release with consumer := .gone } else none
  | .drop =>
      match s.dropping with
      | some (pos, stop) =>
          if pos < stop then
            match s.ring.slots (pos % s.ring.cap) with
            | .uninit => none
            | .live item | .moved item =>
                some { s with
                  ring := s.ring.store pos (.moved item)
                  dropped := s.dropped ++ [item]
                  dropping := some (pos + 1, stop) }
          else none
      | none => none

end Channel

/-- `channel(capacity)`, or `none` where it panics. A capacity is a `usize`. -/
def channel (w : Nat) (T : Type*) (capacity : Nat) : Option (Channel w T) :=
  if 1 ≤ capacity ∧ capacity < 2 ^ w then some (.new w T capacity) else none

end AetherFlow.Spsc
