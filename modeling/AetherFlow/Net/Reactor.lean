/-
Module: AetherFlow.Net.Reactor
Purpose: The two reactors of `core/src/net.rs`: `scan_reactor`, which reads every connection in each pass,
  and `epoll_reactor`, which handles the events of one `epoll_wait` after the other. Whatever comes
  from outside is in the labels: what accept, read, write, `epoll_wait` and `epoll_ctl` return, and
  what a handler does to its `Io` in a callback. Each connection keeps its callbacks, the bytes it
  was given to write and the bytes the socket took.
Trusted boundary: human-reviewed transcription of `Conn`, `scan_reactor` and `epoll_reactor`
Main exports: IoCall, ReadOutcome, WriteOutcome, Conn, Conn.tryFlush, Conn.service, Scan, ScanAct,
  Scan.step, Epoll, EpollAct, Epoll.step
-/
import AetherFlow.Net.Framing
import AetherFlow.System.CoreLoop

namespace AetherFlow.Net

open AetherFlow.System (swapRemove)

/-! ### Connections -/

/-- A call a handler makes on its `Io`. -/
inductive IoCall where
  | write (bytes : List UInt8)
  | close
deriving DecidableEq

/-- What `stream.read(&mut rbuf)` returned; `ok []` is the end of the stream. -/
inductive ReadOutcome where
  | ok (bytes : List UInt8)
  | wouldBlock
  | interrupted
  | failed
deriving DecidableEq

/-- What `stream.write(&out)` returned. -/
inductive WriteOutcome where
  | ok (n : Nat)
  | wouldBlock
  | interrupted
  | failed
deriving DecidableEq

/-- The callbacks of a `Connection`. -/
inductive Callback where
  | onOpen
  | onData (bytes : List UInt8)
  | onClose
deriving DecidableEq

structure Conn where
  /-- Connections are numbered as they are accepted. -/
  id : Nat
  io : Io
  calls : List Callback
  /-- All bytes its handler passed to `Io::write`. -/
  written : List UInt8
  /-- All bytes its socket took. -/
  sent : List UInt8
deriving DecidableEq

/-- One call on the `Io` handle. -/
def Io.call (io : Io) : IoCall → Io
  | .write bytes => io.write bytes
  | .close => io.requestClose

/-- The bytes a call passes to `Io::write`. -/
def IoCall.bytes : IoCall → List UInt8
  | .write bytes => bytes
  | .close => []

namespace Conn

/-- A connection as it was just accepted. -/
def new (id : Nat) : Conn := ⟨id, .new, [], [], []⟩

/-- A callback with the `Io` handle, in which the handler makes the calls `reaction`. -/
def callback (conn : Conn) (name : Callback) (reaction : List IoCall) : Conn :=
  { conn with
    io := reaction.foldl Io.call conn.io
    calls := conn.calls ++ [name]
    written := conn.written ++ reaction.flatMap IoCall.bytes }

/-- `on_close`, which has no `Io` handle. -/
def onClose (conn : Conn) : Conn := conn.callback .onClose []

/-- `try_flush`, where `stream.write` returns `outcomes` one after the other; whether it returns `Err`.
    There is no result if the outcomes are not those of the calls the loop makes. -/
def tryFlush (conn : Conn) : List WriteOutcome → Option (Conn × Bool)
  | [] => if conn.io.out.isEmpty then some (conn, false) else none
  | outcome :: outcomes =>
      if conn.io.out.isEmpty then none
      else match outcome with
        | .ok 0 | .wouldBlock => if outcomes.isEmpty then some (conn, false) else none
        | .ok n =>
            if n ≤ conn.io.out.length then
              tryFlush { conn with
                io := { conn.io with out := conn.io.out.drop n }
                sent := conn.sent ++ conn.io.out.take n } outcomes
            else none
        | .interrupted => tryFlush conn outcomes
        | .failed => if outcomes.isEmpty then some (conn, true) else none

/-- `closing_done`. -/
def closingDone (conn : Conn) : Bool := conn.io.close && conn.io.out.isEmpty

/-- `service`: flush, and say whether the connection has to be dropped. -/
def service (conn : Conn) (writes : List WriteOutcome) : Option (Conn × Bool) :=
  (conn.tryFlush writes).map fun (conn, failed) =>
    if failed || conn.closingDone then (conn.onClose, true) else (conn, false)

end Conn

/-- What `listener.accept()` returned: a stream that could be made nonblocking or not. -/
inductive AcceptOutcome where
  | stream (nonblocking : Bool)
  | wouldBlock
  | interrupted
  | failed
deriving DecidableEq

/-- What one turn of a loop meets: the outcome of its read, the calls its handler makes, and the outcomes
    of its writes. -/
structure Turn where
  read : ReadOutcome
  reaction : List IoCall
  writes : List WriteOutcome

/-! ### `scan_reactor` -/

inductive ScanPc where
  /-- About to load `stop`. -/
  | top
  /-- About to accept. -/
  | accept
  /-- About to look at connection `i`. -/
  | pass (i : Nat)
  | stopped
deriving DecidableEq

structure Scan where
  conns : List Conn
  /-- The connections that were dropped, as they were then. -/
  dropped : List Conn
  accepted : Nat
  pc : ScanPc
  /-- The connections at the start of the pass, and those whose socket was read in it. -/
  atStart : List Nat
  attempted : List Nat

inductive ScanAct where
  | load (stop : Bool)
  /-- `accept`, and for a new connection `on_open` and `service`. -/
  | accept (outcome : AcceptOutcome) (reaction : List IoCall) (writes : List WriteOutcome)
  /-- One turn of the reading loop. -/
  | visit (turn : Turn)
  | passEnds

namespace Scan

def start : Scan where
  conns := []
  dropped := []
  accepted := 0
  pc := .top
  atStart := []
  attempted := []

/-- The body of the reading loop for one connection: what becomes of it, and `remove`. -/
def read (conn : Conn) (turn : Turn) : Option (Conn × Bool) :=
  match turn.read with
  | .ok [] => some (conn.onClose, true)
  | .ok bytes =>
      if bytes.length ≤ 4096 then (conn.callback (.onData bytes) turn.reaction).service turn.writes
      else none
  | .wouldBlock => conn.service turn.writes
  | .interrupted => some (conn, false)
  | .failed => some (conn.onClose, true)

def step (s : Scan) : ScanAct → Option Scan
  | .load stop =>
      match s.pc with
      | .top => some { s with pc := if stop then .stopped else .accept }
      | _ => none
  | .accept outcome reaction writes =>
      match s.pc with
      | .accept =>
          match outcome with
          | .stream false | .interrupted => some s
          | .stream true =>
              (((Conn.new s.accepted).callback .onOpen reaction).service writes).map
                fun (conn, remove) =>
                  if remove then
                    { s with dropped := conn :: s.dropped, accepted := s.accepted + 1 }
                  else { s with conns := s.conns ++ [conn], accepted := s.accepted + 1 }
          | .wouldBlock | .failed =>
              some { s with pc := .pass 0, atStart := s.conns.map Conn.id, attempted := [] }
      | _ => none
  | .visit turn =>
      match s.pc with
      | .pass i =>
          match s.conns[i]? with
          | some old =>
              (read old turn).map fun (conn, remove) =>
                if remove then
                  { s with
                    conns := swapRemove s.conns i
                    dropped := conn :: s.dropped
                    attempted := s.attempted ++ [old.id] }
                else
                  { s with
                    conns := s.conns.set i conn
                    pc := .pass (i + 1)
                    attempted := s.attempted ++ [old.id] }
          | none => none
      | _ => none
  | .passEnds =>
      match s.pc with
      | .pass i => if s.conns.length ≤ i then some { s with pc := .top } else none
      | _ => none

end Scan

/-! ### `epoll_reactor` -/

/-- The readiness bits of an event. -/
structure Bits where
  input : Bool
  output : Bool
  hangUp : Bool
  error : Bool
deriving DecidableEq

/-- `bits & (EPOLLHUP | EPOLLERR) != 0`. -/
def Bits.ended (bits : Bits) : Bool := bits.hangUp || bits.error

/-- An `epoll_event`: the descriptor and the bits. -/
abbrev Event := Nat × Bits

inductive EpollPc where
  | top
  /-- In `epoll_wait`. -/
  | wait
  /-- The events of the batch that are still to be handled. -/
  | batch (events : List Event)
  /-- In the accepting loop of the first of the events left. -/
  | accept (events : List Event)
  | stopped

structure Epoll where
  listenFd : Nat
  /-- The `HashMap`, by descriptor; its order does not show. -/
  conns : List (Nat × Conn)
  dropped : List Conn
  accepted : Nat
  /-- What is registered with epoll: the descriptors, and whether `EPOLLOUT` is wanted. -/
  interest : List (Nat × Bool)
  pc : EpollPc

inductive EpollAct where
  | load (stop : Bool)
  /-- `epoll_wait` returned `n < 0`, with `EINTR` or not. -/
  | waitFailed (interrupted : Bool)
  | waited (events : List Event)
  /-- One turn of the accepting loop; `fd` is the descriptor of the new stream. -/
  | accept (outcome : AcceptOutcome) (fd : Nat) (reaction : List IoCall) (writes : List WriteOutcome)
      (ctl : Bool)
  /-- The next event of the batch; `ctl` says whether `epoll_ctl` succeeds. -/
  | event (turn : Turn) (ctl : Bool)
  | batchEnds

/-- `remove` of a map. -/
def mapRemove {β : Type*} (m : List (Nat × β)) (fd : Nat) : List (Nat × β) :=
  m.eraseP (·.1 == fd)

/-- `insert` of a map; also what a change through `get_mut` leaves. -/
def mapInsert {β : Type*} (m : List (Nat × β)) (fd : Nat) (value : β) : List (Nat × β) :=
  (fd, value) :: mapRemove m fd

namespace Epoll

/-- After `epoll_create1` and the registration of the listener. -/
def start (listenFd : Nat) : Epoll where
  listenFd := listenFd
  conns := []
  dropped := []
  accepted := 0
  interest := [(listenFd, false)]
  pc := .top

/-- `ctl(EPOLL_CTL_ADD, ..)` and `ctl(EPOLL_CTL_MOD, ..)`, which fail without a trace. -/
def ctl (interest : List (Nat × Bool)) (fd : Nat) (wantOut succeeds : Bool) : List (Nat × Bool) :=
  if succeeds then mapInsert interest fd wantOut else interest

/-- The part under `EPOLLIN`: what becomes of the connection, and `remove`. -/
def readPart (conn : Conn) (bits : Bits) (turn : Turn) : Option (Conn × Bool) :=
  if bits.input then
    match turn.read with
    | .ok [] => some (conn.onClose, true)
    | .ok bytes =>
        if bytes.length ≤ 4096 then some (conn.callback (.onData bytes) turn.reaction, false)
        else none
    | .wouldBlock | .interrupted => some (conn, false)
    | .failed => some (conn.onClose, true)
  else some (conn, false)

/-- What an event does to its connection, and `remove`. -/
def handle (conn : Conn) (bits : Bits) (turn : Turn) : Option (Conn × Bool) :=
  if bits.ended then some (conn.onClose, true)
  else
    (readPart conn bits turn).bind fun (conn, remove) =>
      if remove then some (conn, true) else conn.service turn.writes

/-- A new stream: `on_open`, a flush whose error is ignored, and the registration. -/
def addConn (s : Epoll) (fd : Nat) (reaction : List IoCall) (writes : List WriteOutcome)
    (succeeds : Bool) : Option Epoll :=
  (((Conn.new s.accepted).callback .onOpen reaction).tryFlush writes).map fun (conn, _) =>
    if conn.closingDone then
      { s with dropped := conn.onClose :: s.dropped, accepted := s.accepted + 1 }
    else
      { s with
        conns := mapInsert s.conns fd conn
        interest := ctl s.interest fd (!conn.io.out.isEmpty) succeeds
        accepted := s.accepted + 1 }

def step (s : Epoll) : EpollAct → Option Epoll
  | .load stop =>
      match s.pc with
      | .top => some { s with pc := if stop then .stopped else .wait }
      | _ => none
  | .waitFailed interrupted =>
      match s.pc with
      | .wait => some { s with pc := if interrupted then .top else .stopped }
      | _ => none
  | .waited events =>
      match s.pc with
      | .wait => some { s with pc := .batch events }
      | _ => none
  | .accept outcome fd reaction writes succeeds =>
      match s.pc with
      | .accept events =>
          match outcome with
          | .stream false | .interrupted => some s
          | .stream true =>
              -- A descriptor that is open is not given out again.
              if fd ≠ s.listenFd ∧ s.conns.lookup fd = none then s.addConn fd reaction writes succeeds
              else none
          | .wouldBlock | .failed => some { s with pc := .batch events }
      | _ => none
  | .event turn succeeds =>
      match s.pc with
      | .batch ((fd, bits) :: events) =>
          if fd = s.listenFd then some { s with pc := .accept events }
          else
            match s.conns.lookup fd with
            | some old =>
                (handle old bits turn).map fun (conn, remove) =>
                  if remove then
                    { s with
                      conns := mapRemove s.conns fd
                      dropped := conn :: s.dropped
                      interest := mapRemove s.interest fd
                      pc := .batch events }
                  else
                    { s with
                      conns := mapInsert s.conns fd conn
                      interest := ctl s.interest fd (!conn.io.out.isEmpty) succeeds
                      pc := .batch events }
            | none => some { s with pc := .batch events }
      | _ => none
  | .batchEnds =>
      match s.pc with
      | .batch [] => some { s with pc := .top }
      | _ => none

end Epoll

end AetherFlow.Net
