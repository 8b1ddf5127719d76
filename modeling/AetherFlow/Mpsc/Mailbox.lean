/-
Module: AetherFlow.Mpsc.Mailbox
Purpose: One mailbox with any number of `Sender` clones on any threads and its single `Receiver`, as a
  transition function over the atomic steps of `core/src/mpsc.rs` and of `ActorRef::send_blocking`.
  A label names which party moves; every interleaving of the parties is a list of labels. Next to the
  shared memory the state keeps the history the properties speak of: the messages in the order of
  their successful compare-and-swap, those `try_recv` returned and those `Queue::drop` dropped.
Trusted boundary: human-reviewed transcription of `core/src/mpsc.rs` and `ActorRef::send_blocking`
Main exports: Msg, SendKind, Call, ConsumerPc, Mailbox, Act, Mailbox.step, NotLapped
-/
import Mathlib.Data.Finset.Card
import AetherFlow.Lib.Transition
import AetherFlow.Mpsc.Queue

namespace AetherFlow.Mpsc

/-- A message together with the number of the send call it was given to. The queue never looks at
    its items, so the number only tells messages of equal content apart. -/
structure Msg (T : Type*) where
  call : Nat
  body : T
deriving DecidableEq

inductive SendKind where
  | trySend
  | sendBlocking
deriving DecidableEq

/-- A send call: the thread that makes it, the `Sender` it borrows and where it stands. -/
structure Call (w : Nat) (T : Type*) where
  thread : Nat
  handle : Nat
  kind : SendKind
  body : T
  pc : EnqueuePc w (Msg T)

/-- The call is back with its caller. A `send_blocking` that was told `Full` tries again instead. -/
def Call.finished {w : Nat} {T : Type*} (call : Call w T) : Bool :=
  match call.kind, call.pc with
  | .sendBlocking, .returned (.error (.full _)) => false
  | _, .returned _ => true
  | _, _ => false

/-- What the core that owns the `Receiver` is doing with it. The thread whose reference is the last
    one runs `Queue::drop`, which is the same `dequeue`, so it takes over this program counter. -/
inductive ConsumerPc (w : Nat) (M : Type*) where
  | idle
  | dequeue (pc : DequeuePc w M)
  /-- `closed_and_empty`: about to load `producers`. -/
  | loadProducers
  /-- `is_empty`: about to load `dequeue_pos`. -/
  | emptyLoadPos
  | emptyLoadSeq (pos : BitVec w)
  | closedAndEmpty (verdict : Bool)
  /-- `Queue::drop` has returned. -/
  | freed

/-- No operation on the `Receiver` is in progress. -/
def ConsumerPc.quiescent {w : Nat} {M : Type*} : ConsumerPc w M → Bool
  | .idle | .dequeue (.returned _) | .closedAndEmpty _ => true
  | _ => false

/-- `closing`: `consumer_alive` is already `false`, the reference is not yet given up. -/
inductive ReceiverState where
  | held
  | closing
  | gone
deriving DecidableEq

structure Mailbox (w : Nat) (T : Type*) where
  q : Queue w (Msg T)
  calls : Nat → Option (Call w T)
  /-- Calls are numbered in the order they start. -/
  issued : Nat
  /-- The `Sender`s in existence, wherever they are kept (in a thread, an actor or a message). -/
  senders : Finset Nat
  nextHandle : Nat
  /-- The `Sender`s that a `clone` in progress has counted in `producers` but not yet in the `Arc`. -/
  cloning : List Nat
  /-- How many dropped `Sender`s still hold their reference to the queue. -/
  releasing : Nat
  receiver : ReceiverState
  /-- Strong references to the queue. -/
  strong : Nat
  /-- The last reference is gone and `Queue::drop` runs. -/
  teardown : Bool
  consumer : ConsumerPc w (Msg T)
  accepted : List (Msg T)
  received : List (Msg T)
  dropped : List (Msg T)
  /-- How many messages were accepted when a call last obtained the position it holds. -/
  loadedAt : Nat → Nat

/-- The parties' moves. -/
inductive Act (T : Type*) where
  | call (thread handle : Nat) (kind : SendKind) (body : T)
  | enqueue (c : Nat)
  | enqueueSpurious (c : Nat)
  | cloneStart (handle : Nat)
  | cloneFinish (handle : Nat)
  | dropSender (handle : Nat)
  | releaseSender
  | tryRecv
  | closedAndEmpty
  | consumer
  | consumerSpurious
  | dropReceiver
  | releaseReceiver

namespace Mailbox

variable {w : Nat} {T : Type*}

/-- The state right after `channel`: one `Sender`, the `Receiver`, nothing sent. -/
def new (q : Queue w (Msg T)) : Mailbox w T where
  q := q
  calls _ := none
  issued := 0
  senders := {0}
  nextHandle := 1
  cloning := []
  releasing := 0
  receiver := .held
  strong := 2
  teardown := false
  consumer := .idle
  accepted := []
  received := []
  dropped := []
  loadedAt _ := 0

/-- Everything taken out of the queue, by the `Receiver` first and by `Queue::drop` after it. -/
def taken (s : Mailbox w T) : List (Msg T) := s.received ++ s.dropped

/-- A thread makes one call at a time. -/
def threadIdle (s : Mailbox w T) (thread : Nat) : Bool :=
  (List.range s.issued).all fun c =>
    match s.calls c with
    | some call => call.thread != thread || call.finished
    | none => true

/-- A `Sender` is borrowed for the whole of every call and clone made through it. -/
def borrowed (s : Mailbox w T) (handle : Nat) : Bool :=
  s.cloning.contains handle ||
    (List.range s.issued).any fun c =>
      match s.calls c with
      | some call => call.handle == handle && !call.finished
      | none => false

/-- A thread starts `try_send` or `send_blocking` through a `Sender` it can reach. -/
def call (s : Mailbox w T) (thread handle : Nat) (kind : SendKind) (body : T) :
    Option (Mailbox w T) :=
  if handle ∈ s.senders ∧ s.threadIdle thread then
    some
      { s with
        calls := Function.update s.calls s.issued
          (some { thread, handle, kind, body, pc := .checkAlive { call := s.issued, body } })
        issued := s.issued + 1 }
  else
    none

def setPc (s : Mailbox w T) (c : Nat) (call : Call w T) (pc : EnqueuePc w (Msg T)) :
    Mailbox w T :=
  { s with calls := Function.update s.calls c (some { call with pc := pc }) }

/-- The message a compare-and-swap about to be made would reserve a position for. -/
def reserves (q : Queue w (Msg T)) : EnqueuePc w (Msg T) → Option (Msg T)
  | .cas item pos => if q.enqueuePos = pos then some item else none
  | _ => none

/-- The step hands the call a position: it loads `enqueue_pos`, or its compare-and-swap fails. -/
def loadsPos : EnqueuePc w (Msg T) → Bool
  | .loadPos _ | .cas _ _ => true
  | _ => false

/-- The step that left the queue at `q` and call `c` at `pc'`, with what it adds to the history. -/
def afterEnqueue (s : Mailbox w T) (c : Nat) (call : Call w T) (q : Queue w (Msg T))
    (pc' : EnqueuePc w (Msg T)) : Mailbox w T :=
  { s.setPc c call pc' with
    q := q
    accepted := s.accepted ++ (reserves s.q call.pc).toList
    loadedAt :=
      if loadsPos call.pc then Function.update s.loadedAt c s.accepted.length else s.loadedAt }

/-- The next atomic step of call `c`. `Full` sends a `send_blocking` round its loop. -/
def enqueue (s : Mailbox w T) (c : Nat) : Option (Mailbox w T) :=
  match s.calls c with
  | none => none
  | some call =>
      match call.kind, call.pc with
      | .sendBlocking, .returned (.error (.full item)) => some (s.setPc c call (.checkAlive item))
      | _, pc => (enqueueStep s.q pc).map fun (q, pc') => s.afterEnqueue c call q pc'

/-- The compare-and-swap of call `c` fails although its position still matches. -/
def enqueueSpurious (s : Mailbox w T) (c : Nat) : Option (Mailbox w T) :=
  match s.calls c with
  | none => none
  | some call =>
      (Mpsc.enqueueSpurious s.q call.pc).map fun pc =>
        { s.setPc c call pc with
          loadedAt := Function.update s.loadedAt c s.accepted.length }

/-- `Sender::clone`, first half: `producers.fetch_add(1)`. -/
def cloneStart (s : Mailbox w T) (handle : Nat) : Option (Mailbox w T) :=
  if handle ∈ s.senders then
    some { s with
      q := { s.q with producers := s.q.producers + 1 }
      cloning := handle :: s.cloning }
  else
    none

/-- `Sender::clone`, second half: the `Arc` is cloned and the new `Sender` exists. -/
def cloneFinish (s : Mailbox w T) (handle : Nat) : Option (Mailbox w T) :=
  if handle ∈ s.cloning then
    some { s with
      cloning := s.cloning.erase handle
      senders := insert s.nextHandle s.senders
      nextHandle := s.nextHandle + 1
      strong := s.strong + 1 }
  else
    none

/-- `Sender::drop`: `producers.fetch_sub(1)`. Nobody may be using the `Sender`. -/
def dropSender (s : Mailbox w T) (handle : Nat) : Option (Mailbox w T) :=
  if handle ∈ s.senders ∧ s.borrowed handle = false then
    some { s with
      q := { s.q with producers := s.q.producers - 1 }
      senders := s.senders.erase handle
      releasing := s.releasing + 1 }
  else
    none

/-- One strong reference is given up; the last one starts `Queue::drop`. -/
def release (s : Mailbox w T) : Mailbox w T :=
  if s.strong = 1 then
    { s with strong := 0, teardown := true, consumer := .dequeue .loadPos }
  else
    { s with strong := s.strong - 1 }

/-- The `Arc` of a dropped `Sender` is dropped. -/
def releaseSender (s : Mailbox w T) : Option (Mailbox w T) :=
  if 0 < s.releasing then some (release { s with releasing := s.releasing - 1 }) else none

/-- `Receiver::try_recv` starts. -/
def tryRecv (s : Mailbox w T) : Option (Mailbox w T) :=
  if s.receiver = .held ∧ s.consumer.quiescent then
    some { s with consumer := .dequeue .loadPos }
  else
    none

/-- `Cell::closed_and_empty` starts. -/
def closedAndEmpty (s : Mailbox w T) : Option (Mailbox w T) :=
  if s.receiver = .held ∧ s.consumer.quiescent then
    some { s with consumer := .loadProducers }
  else
    none

/-- The message that the step from `pc` hands over. -/
def delivered : DequeuePc w (Msg T) → List (Msg T)
  | .storeSeq _ item => [item]
  | _ => []

/-- The step of `dequeue` from `pc` to `pc'` that left the queue at `q`. A message that leaves the
    queue is returned by `try_recv`, or dropped at once by `Queue::drop`. -/
def afterDequeue (s : Mailbox w T) (pc : DequeuePc w (Msg T)) (q : Queue w (Msg T))
    (pc' : DequeuePc w (Msg T)) : Mailbox w T :=
  { s with
    q := q
    consumer := .dequeue pc'
    received := if s.teardown then s.received else s.received ++ delivered pc
    dropped := if s.teardown then s.dropped ++ delivered pc else s.dropped }

/-- The next atomic step of the operation in progress on the receiving side. -/
def consumerStep (s : Mailbox w T) : Option (Mailbox w T) :=
  match s.consumer with
  | .dequeue (.returned result) =>
      -- `while self.dequeue().is_some() {}`
      if s.teardown then
        some { s with consumer := if result.isSome then .dequeue .loadPos else .freed }
      else
        none
  | .dequeue pc => (dequeueStep s.q pc).map fun (q, pc') => s.afterDequeue pc q pc'
  | .loadProducers =>
      some { s with
        consumer := if 0 < s.q.producers then .closedAndEmpty false else .emptyLoadPos }
  | .emptyLoadPos => some { s with consumer := .emptyLoadSeq s.q.dequeuePos }
  | .emptyLoadSeq pos =>
      some { s with
        consumer := .closedAndEmpty (decide (Word.signedGap (s.q.slot pos).seq (pos + 1) < 0)) }
  | .idle | .closedAndEmpty _ | .freed => none

/-- The compare-and-swap on `dequeue_pos` fails although the position still matches. -/
def consumerSpurious (s : Mailbox w T) : Option (Mailbox w T) :=
  match s.consumer with
  | .dequeue pc => (dequeueSpurious s.q pc).map fun pc' => { s with consumer := .dequeue pc' }
  | _ => none

/-- `Receiver::drop`: `consumer_alive.store(false)`. -/
def dropReceiver (s : Mailbox w T) : Option (Mailbox w T) :=
  if s.receiver = .held ∧ s.consumer.quiescent then
    some { s with q := { s.q with consumerAlive := false }, receiver := .closing }
  else
    none

/-- The `Arc` of the dropped `Receiver` is dropped. -/
def releaseReceiver (s : Mailbox w T) : Option (Mailbox w T) :=
  if s.receiver = .closing then some (release { s with receiver := .gone }) else none

def step (s : Mailbox w T) : Act T → Option (Mailbox w T)
  | .call thread handle kind body => s.call thread handle kind body
  | .enqueue c => s.enqueue c
  | .enqueueSpurious c => s.enqueueSpurious c
  | .cloneStart handle => s.cloneStart handle
  | .cloneFinish handle => s.cloneFinish handle
  | .dropSender handle => s.dropSender handle
  | .releaseSender => s.releaseSender
  | .tryRecv => s.tryRecv
  | .closedAndEmpty => s.closedAndEmpty
  | .consumer => s.consumerStep
  | .consumerSpurious => s.consumerSpurious
  | .dropReceiver => s.dropReceiver
  | .releaseReceiver => s.releaseReceiver

end Mailbox

/-- A call does not reserve a position that `2 ^ w` or more reservations have passed since it read
    it. Only then does the wrapped `enqueue_pos` match a position that is no longer the current one. -/
def NotLapped {w : Nat} {T : Type*} (s : Mailbox w T) : Act T → Prop
  | .enqueue c => ∀ call item pos, s.calls c = some call → call.pc = .cas item pos →
      s.q.enqueuePos = pos → s.accepted.length - s.loadedAt c < 2 ^ w
  | _ => True

/-- The position that the next step of call `c` would reserve. -/
def Mailbox.wants {w : Nat} {T : Type*} (s : Mailbox w T) (c : Nat) : Option (BitVec w) :=
  match (s.calls c).map Call.pc with
  | some (.cas _ pos) => some pos
  | _ => none

instance {w : Nat} {T : Type*} (s : Mailbox w T) (a : Act T) : Decidable (NotLapped s a) :=
  match a with
  | .enqueue c => decidable_of_iff
      (s.wants c = some s.q.enqueuePos → s.accepted.length - s.loadedAt c < 2 ^ w) <| by
    constructor
    · intro unlapped call item pos found at_ current
      exact unlapped (by simp [Mailbox.wants, found, at_, current])
    · intro unlapped wants
      unfold Mailbox.wants at wants
      split at wants
      · rename_i item pos at_
        obtain ⟨call, found, at_⟩ := Option.map_eq_some_iff.1 at_
        exact unlapped call item pos found at_ (Option.some.inj wants).symm
      · cases wants
  | .call _ _ _ _ | .enqueueSpurious _ | .cloneStart _ | .cloneFinish _ | .dropSender _
  | .releaseSender | .tryRecv | .closedAndEmpty | .consumer | .consumerSpurious | .dropReceiver
  | .releaseReceiver => isTrue trivial

end AetherFlow.Mpsc
