/-
Module: AetherFlow.Ask.Reply
Purpose: The reply cells of `core/src/ask.rs`, with any number of `ask` or `ask_timeout` calls in flight.
  A call makes its cell, hands its `Responder` to `make_msg`, sends the message and polls the cell;
  its `Responder` is replied to or dropped by whoever holds it. Cells live at addresses that are used
  again once freed, so a party that keeps a pointer too long is seen to touch memory that is not its
  own. How `send_blocking` ends, when the clock runs out and who does what with a `Responder` are free.
Trusted boundary: human-reviewed transcription of `core/src/ask.rs`
Main exports: CellState, ReplyCell, Reply, Holding, CallerPc, ResponderPc, Asks, Act, Asks.step, AskRuns
-/
import Mathlib.Logic.Function.Basic
import AetherFlow.Lib.Transition

namespace AetherFlow.Ask

open Transition

inductive CellState where
  | pending
  | replied
  | abandoned
  | consumed
deriving DecidableEq

/-- `slot` is `none` as long as nothing was written to it. -/
structure ReplyCell (V : Type*) where
  state : CellState := .pending
  slot : Option V := none

/-- A value together with the number of the call whose `Responder` it was passed to. Nobody looks at
    the number; it tells equal values of different calls apart. -/
structure Reply (R : Type*) where
  call : Nat
  value : R

inductive AskError where
  | noReply
  | closed
  | wouldBlockCallingCore
  | timeout
deriving DecidableEq

/-- What a call returns. `none` stands for what is read from a slot nobody has written. -/
abbrev AskResult (R : Type*) := Except AskError (Option (Reply R))

/-- How the cell is held: `ask` keeps it on the caller's stack, `ask_timeout` in an `Arc`. -/
inductive Holding where
  | borrowed
  | owned
deriving DecidableEq

/-- Where a caller stands. -/
inductive CallerPc (R : Type*) where
  /-- The cell and the `Responder` are made; in `make_msg`. -/
  | making
  /-- In `send_blocking`. -/
  | sending
  /-- `send_blocking` gave the message back; about to drop it. -/
  | refused
  /-- Dropping the `Responder` in the message it got back. -/
  | droppingMessage
  /-- About to load the state of the cell. -/
  | poll
  /-- About to look at the clock. -/
  | waiting
  /-- The state read as `REPLIED`; about to move the value out. -/
  | reading
  /-- The value is out; about to store `CONSUMED`. -/
  | consuming (content : Option (Reply R))
  /-- About to give up its hold on the cell. -/
  | leaving (result : AskResult R)
  /-- Nobody else holds the cell; about to run `ReplyCell::drop`. -/
  | destroying (result : AskResult R)
  | returned (result : AskResult R)

/-- Where a `Responder` stands. An answer is the value it was replied with, `none` when it was
    dropped. -/
inductive ResponderPc (R : Type*) where
  /-- The call never made one. -/
  | absent
  /-- Held by somebody, in the message of its call or elsewhere. -/
  | held (inMessage : Bool)
  /-- In `reply`, about to write the slot. -/
  | writing (value : R)
  /-- In `reply`, about to store `REPLIED`. -/
  | storing (value : R)
  /-- In `Responder::drop`, about to swap `PENDING` for `ABANDONED`. -/
  | abandoning
  /-- About to drop its `Cell`. -/
  | releasing (answer : Option R)
  /-- Its `Arc` was the last one; about to run `ReplyCell::drop`. -/
  | destroying (answer : Option R)
  | gone (answer : Option R)

/-- A call of `ask` or `ask_timeout`, with the address of its cell. -/
structure Call (R : Type*) where
  addr : Nat
  caller : CallerPc R
  responder : ResponderPc R

/-- The memory of a cell; `strong` counts the `Arc`s and is unused on the stack. -/
structure Block (R : Type*) where
  strong : Nat
  cell : ReplyCell (Reply R)

structure Asks (R : Type*) where
  heap : Nat → Option (Block R)
  /-- Calls are numbered in the order they start. -/
  calls : List (Call R)
  /-- What `ReplyCell::drop` has dropped. -/
  dropped : List (Option (Reply R))
  /-- Some party has touched memory that was no reply cell any more. What follows is undefined. -/
  wild : Bool

inductive CallerMove where
  /-- `make_msg` returns. -/
  | made
  | sent
  | refused
  | clock (expired : Bool)
  | next
deriving DecidableEq

inductive ResponderMove (R : Type*) where
  /-- Somebody takes it out of the message of its call. -/
  | stash
  | reply (value : R)
  | drop
  | next

inductive Act (R : Type*) where
  /-- A call starts and gets this address for its cell. -/
  | ask (addr : Nat)
  /-- A call is turned away on its own core. -/
  | wouldBlock
  | caller (c : Nat) (move : CallerMove)
  | responder (c : Nat) (move : ResponderMove R)

namespace Asks

variable {R : Type*}

def new : Asks R where
  heap _ := none
  calls := []
  dropped := []
  wild := false

/-- A call makes its cell and its `Responder`. -/
def ask (kind : Holding) (s : Asks R) (addr : Nat) : Option (Asks R) :=
  if s.heap addr = none then
    some { s with
      heap := Function.update s.heap addr
        (some { strong := if kind = .owned then 2 else 1, cell := {} })
      calls := s.calls ++ [{ addr, caller := .making, responder := .held true }] }
  else
    none

def wouldBlock (s : Asks R) : Asks R :=
  { s with
    calls := s.calls ++
      [{ addr := 0, caller := .returned (.error .wouldBlockCallingCore), responder := .absent }] }

def setCaller (s : Asks R) (c : Nat) (call : Call R) (pc : CallerPc R) : Asks R :=
  { s with calls := s.calls.set c { call with caller := pc } }

def setResponder (s : Asks R) (c : Nat) (call : Call R) (pc : ResponderPc R) : Asks R :=
  { s with calls := s.calls.set c { call with responder := pc } }

def store (s : Asks R) (addr : Nat) (block : Block R) : Asks R :=
  { s with heap := Function.update s.heap addr (some block) }

/-- A party follows its pointer. -/
def access (s : Asks R) (addr : Nat) (use : Block R → Asks R) : Asks R :=
  match s.heap addr with
  | some block => use block
  | none => { s with wild := true }

/-- `ReplyCell::drop`, and the memory is free again. -/
def destroy (s : Asks R) (addr : Nat) (block : Block R) : Asks R :=
  { s with
    heap := Function.update s.heap addr none
    dropped := if block.cell.state = .replied then s.dropped ++ [block.cell.slot] else s.dropped }

/-- The next move of the caller of call `c`. -/
def callerStep (kind : Holding) (s : Asks R) (c : Nat) (call : Call R) (move : CallerMove) :
    Option (Asks R) :=
  match call.caller, move with
  | .making, .made => some (s.setCaller c call .sending)
  | .sending, .sent => some (s.setCaller c call .poll)
  | .sending, .refused => some (s.setCaller c call .refused)
  | .refused, .next =>
      match call.responder with
      | .held true =>
          some { s with
            calls := s.calls.set c
              { call with caller := .droppingMessage, responder := .abandoning } }
      | _ => some (s.setCaller c call (.leaving (.error .closed)))
  | .droppingMessage, .next =>
      match call.responder with
      | .gone _ => some (s.setCaller c call (.leaving (.error .closed)))
      | _ => none
  | .poll, .next =>
      some <| s.access call.addr fun block =>
        match block.cell.state with
        | .replied => s.setCaller c call .reading
        | .abandoned => s.setCaller c call (.leaving (.error .noReply))
        | .pending | .consumed =>
            match kind with
            | .owned => s.setCaller c call .waiting
            | .borrowed => s
  | .waiting, .clock expired =>
      some (s.setCaller c call (if expired then .leaving (.error .timeout) else .poll))
  | .reading, .next =>
      some <| s.access call.addr fun block => s.setCaller c call (.consuming block.cell.slot)
  | .consuming content, .next =>
      some <| s.access call.addr fun block =>
        (s.store call.addr { block with cell := { block.cell with state := .consumed } }).setCaller
          c call (.leaving (.ok content))
  | .leaving result, .next =>
      match kind with
      | .owned =>
          some <| s.access call.addr fun block =>
            (s.store call.addr { block with strong := block.strong - 1 }).setCaller c call
              (if block.strong = 1 then .destroying result else .returned result)
      | .borrowed => some (s.setCaller c call (.destroying result))
  | .destroying result, .next =>
      some <| s.access call.addr fun block =>
        (s.destroy call.addr block).setCaller c call (.returned result)
  | _, _ => none

/-- The next move of whoever holds the `Responder` of call `c`. -/
def responderStep (kind : Holding) (s : Asks R) (c : Nat) (call : Call R) (move : ResponderMove R) :
    Option (Asks R) :=
  match call.responder, move with
  | .held _, .stash => some (s.setResponder c call (.held false))
  | .held _, .reply value => some (s.setResponder c call (.writing value))
  | .held _, .drop => some (s.setResponder c call .abandoning)
  | .writing value, .next =>
      some <| s.access call.addr fun block =>
        (s.store call.addr
          { block with cell := { block.cell with slot := some { call := c, value } } }).setResponder
          c call (.storing value)
  | .storing value, .next =>
      some <| s.access call.addr fun block =>
        (s.store call.addr { block with cell := { block.cell with state := .replied } }).setResponder
          c call (.releasing (some value))
  | .abandoning, .next =>
      some <| s.access call.addr fun block =>
        (if block.cell.state = .pending then
          s.store call.addr { block with cell := { block.cell with state := .abandoned } }
        else
          s).setResponder c call (.releasing none)
  | .releasing answer, .next =>
      match kind with
      | .owned =>
          some <| s.access call.addr fun block =>
            (s.store call.addr { block with strong := block.strong - 1 }).setResponder c call
              (if block.strong = 1 then .destroying answer else .gone answer)
      | .borrowed => some (s.setResponder c call (.gone answer))
  | .destroying answer, .next =>
      some <| s.access call.addr fun block =>
        (s.destroy call.addr block).setResponder c call (.gone answer)
  | _, _ => none

def step (kind : Holding) (s : Asks R) : Act R → Option (Asks R)
  | .ask addr => s.ask kind addr
  | .wouldBlock => some s.wouldBlock
  | .caller c move => (s.calls[c]?).bind fun call => s.callerStep kind c call move
  | .responder c move => (s.calls[c]?).bind fun call => s.responderStep kind c call move

end Asks

/-- The states of any number of calls that hold their cells in this way, in runs whose steps all meet
    `ok`. -/
def AskRuns {R : Type*} (kind : Holding) (ok : Asks R → Act R → Prop) (s : Asks R) : Prop :=
  Reach (Asks.step kind) ok Asks.new s

end AetherFlow.Ask
