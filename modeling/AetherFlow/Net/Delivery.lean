/-
Module: AetherFlow.Net.Delivery
Purpose: What the two reactors deliver to handlers that write nothing and never close, next to the
  kernel's side of the sockets: bytes arrive and stay in the receive queue until they are read, the
  peer ends the stream with a FIN or a reset, and a read returns queued bytes before it reports the
  end. `scan_reactor` learns of the end from `read` alone, after the last byte. `epoll_reactor` drops
  a connection as soon as an event reports a reset, with whatever the queue still holds.
Trusted boundary: the kernel's side of `read` and `epoll_wait`, as `Socket` describes it
Main exports: Socket, Network, scanNetwork, epollNetwork, Delivered, Network.drained,
  reactors_deliver_alike, epoll_loses_unread_bytes
-/
import AetherFlow.Net.Grammar

namespace AetherFlow.Net

open AetherFlow.System (swapRemove swapRemove_perm)
open Transition

/-! ### Sockets -/

/-- How a peer ends its stream. -/
inductive Ending where
  | fin
  | reset
deriving DecidableEq

/-- The kernel's side of a connection. -/
structure Socket where
  /-- All bytes that have arrived. -/
  arrived : List UInt8
  /-- Those that were not read yet. -/
  queue : List UInt8
  ending : Option Ending

namespace Socket

def fresh : Socket := ⟨[], [], none⟩

/-- Bytes arrive. -/
def arrive (socket : Socket) (bytes : List UInt8) : Option Socket :=
  if socket.ending = none then
    some { socket with arrived := socket.arrived ++ bytes, queue := socket.queue ++ bytes }
  else none

/-- The peer ends the stream. -/
def finish (socket : Socket) (ending : Ending) : Option Socket :=
  if socket.ending = none then some { socket with ending := some ending } else none

/-- What a `read` may return, and what it leaves. -/
def read (socket : Socket) : ReadOutcome → Option Socket
  | .ok [] => if socket.queue = [] ∧ socket.ending = some .fin then some socket else none
  | .ok bytes =>
      if bytes.isPrefixOf socket.queue then
        some { socket with queue := socket.queue.drop bytes.length }
      else none
  | .wouldBlock => if socket.queue = [] ∧ socket.ending = none then some socket else none
  | .interrupted => some socket
  | .failed => if socket.queue = [] ∧ socket.ending = some .reset then some socket else none

/-- The bits that level-triggered epoll reports for the socket. -/
def reports (socket : Socket) (bits : Bits) : Bool :=
  match socket.ending with
  | none => bits.input == !socket.queue.isEmpty && !bits.ended
  | some .fin => bits.input && !bits.ended
  | some .reset => bits.input && bits.ended

end Socket

/-! ### A reactor and the kernel -/

/-- A reactor next to the sockets of its connections, which are numbered as they are accepted. -/
structure Network (R : Type*) where
  reactor : R
  sockets : Nat → Socket

inductive NetworkAct (A : Type*) where
  | arrive (id : Nat) (bytes : List UInt8)
  | finish (id : Nat) (ending : Ending)
  | reactor (a : A)

/-- Replace the socket of connection `id`. -/
def setSocket (sockets : Nat → Socket) (id : Nat) (socket : Socket) : Nat → Socket :=
  Function.update sockets id socket

namespace Network

variable {R A : Type*}

/-- The read that a reactor's step makes, if it makes one, at its socket. -/
def readStep (sockets : Nat → Socket) : Option (Nat × ReadOutcome) → Option (Nat → Socket)
  | some (id, outcome) => ((sockets id).read outcome).map (setSocket sockets id)
  | none => some sockets

/-- A step of the peers, or a step of the reactor that the kernel allows. -/
def step (reactorStep : R → A → Option R) (reads : R → A → Option (Nat × ReadOutcome))
    (allowed : Network R → A → Bool) (s : Network R) : NetworkAct A → Option (Network R)
  | .arrive id bytes =>
      ((s.sockets id).arrive bytes).map fun socket =>
        { s with sockets := setSocket s.sockets id socket }
  | .finish id ending =>
      ((s.sockets id).finish ending).map fun socket =>
        { s with sockets := setSocket s.sockets id socket }
  | .reactor a =>
      if allowed s a then
        (readStep s.sockets (reads s.reactor a)).bind fun sockets =>
          (reactorStep s.reactor a).map fun reactor => ⟨reactor, sockets⟩
      else none

end Network

/-- The handlers make no call on their `Io` in this step. -/
def ScanAct.silent : ScanAct → Bool
  | .accept _ reaction _ => reaction.isEmpty
  | .visit turn => turn.reaction.isEmpty
  | .load _ | .passEnds => true

/-- The read of a step of `scan_reactor`. -/
def Scan.reads (s : Scan) : ScanAct → Option (Nat × ReadOutcome)
  | .visit turn =>
      match s.pc with
      | .pass i => s.conns[i]?.map fun conn => (conn.id, turn.read)
      | _ => none
  | _ => none

/-- `scan_reactor` with silent handlers. -/
def scanNetwork : Network Scan → NetworkAct ScanAct → Option (Network Scan) :=
  Network.step Scan.step Scan.reads fun _ a => a.silent

def EpollAct.silent : EpollAct → Bool
  | .accept _ _ reaction _ _ => reaction.isEmpty
  | .event turn _ => turn.reaction.isEmpty
  | .load _ | .waitFailed _ | .waited _ | .batchEnds => true

/-- The read of a step of `epoll_reactor`. -/
def Epoll.reads (s : Epoll) (a : EpollAct) : Option (Nat × ReadOutcome) :=
  (s.handled a).bind fun (conn, bits, turn) =>
    if !bits.ended && bits.input then some (conn.id, turn.read) else none

/-- `epoll_wait` returns one event for each descriptor at most, and the bits of its socket. -/
def Network.reported (s : Network Epoll) (events : List Event) : Bool :=
  (events.map Prod.fst).Nodup &&
    events.all fun (fd, bits) =>
      fd == s.reactor.listenFd ||
        match s.reactor.conns.lookup fd with
        | some conn => (s.sockets conn.id).reports bits
        | none => false

/-- What the kernel and silent handlers allow. -/
def Network.allowed (s : Network Epoll) (a : EpollAct) : Bool :=
  a.silent && match a with
    | .waited events => s.reported events
    | _ => true

/-- `epoll_reactor` with silent handlers. -/
def epollNetwork : Network Epoll → NetworkAct EpollAct → Option (Network Epoll) :=
  Network.step Epoll.step Epoll.reads Network.allowed

def Network.startScan : Network Scan := ⟨.start, fun _ => .fresh⟩

def Network.startEpoll (listenFd : Nat) : Network Epoll := ⟨.start listenFd, fun _ => .fresh⟩

/-! ### The account of the bytes -/

/-- The bytes a callback hands over. -/
def Callback.bytes : Callback → List UInt8
  | .onData bytes => bytes
  | .onOpen | .onClose => []

/-- All bytes the connection's handler was given. -/
def Conn.received (conn : Conn) : List UInt8 := conn.calls.flatMap Callback.bytes

theorem Conn.received_callback (conn : Conn) (name : Callback) (reaction : List IoCall) :
    (conn.callback name reaction).received = conn.received ++ name.bytes := by
  simp [Conn.received, Conn.callback]

/-- What the handlers were given and what the queue holds is what has arrived; a dropped connection's
    stream has ended. -/
structure Account (live dropped : List Conn) (accepted : Nat) (sockets : Nat → Socket) : Prop where
  grammar : CallbackGrammar live dropped accepted
  silent : ∀ c ∈ live, c.io = .new
  balance : ∀ c ∈ live ++ dropped, c.received ++ (sockets c.id).queue = (sockets c.id).arrived
  ended : ∀ c ∈ dropped, (sockets c.id).ending ≠ none
  unaccepted : ∀ id, accepted ≤ id → (sockets id).queue = (sockets id).arrived

/-- Nothing was left unread in the sockets of the dropped connections. -/
def AllRead (dropped : List Conn) (sockets : Nat → Socket) : Prop :=
  ∀ c ∈ dropped, (sockets c.id).queue = []

/-- What peers may do to a socket: bytes are appended or the stream ends, once. -/
structure Socket.Grown (old new : Socket) : Prop where
  appended : ∃ bytes, new.arrived = old.arrived ++ bytes ∧ new.queue = old.queue ++ bytes
  frozen : old.ending ≠ none → new = old

/-- What a turn at a connection does to it and to its socket. -/
structure Drains (old conn : Conn) (remove : Bool) (socket socket' : Socket) : Prop where
  turned : Conn.Turned old conn remove
  silent : conn.io = .new
  balance : conn.received ++ socket'.queue = old.received ++ socket.queue
  arrived : socket'.arrived = socket.arrived
  ending : socket'.ending = socket.ending
  ended : remove = true → socket.ending ≠ none

namespace Account

variable {live live' dropped rest : List Conn} {accepted : Nat} {sockets sockets' : Nat → Socket}
  {old conn : Conn} {socket : Socket}

theorem start : Account [] [] 0 fun _ => .fresh where
  grammar := .start
  silent _ member := by cases member
  balance _ member := by cases member
  ended _ member := by cases member
  unaccepted _ _ := rfl

theorem congr (account : Account live dropped accepted sockets) (same : live'.Perm live) :
    Account live' dropped accepted sockets where
  grammar := account.grammar.congr same
  silent c member := account.silent c (same.mem_iff.1 member)
  balance c member := account.balance c ((same.append_right dropped).mem_iff.1 member)
  ended := account.ended
  unaccepted := account.unaccepted

/-- Peers move. -/
theorem grow (account : Account live dropped accepted sockets)
    (grown : ∀ id, (sockets id).Grown (sockets' id)) :
    Account live dropped accepted sockets' where
  grammar := account.grammar
  silent := account.silent
  balance c member := by
    obtain ⟨bytes, arrived, queue⟩ := (grown c.id).appended
    rw [arrived, queue, ← List.append_assoc, account.balance c member]
  ended c member := by
    rw [(grown c.id).frozen (account.ended c member)]
    exact account.ended c member
  unaccepted id late := by
    obtain ⟨bytes, arrived, queue⟩ := (grown id).appended
    rw [arrived, queue, account.unaccepted id late]

/-- A new connection of a silent handler. -/
theorem comeIn (account : Account live dropped accepted sockets)
    (turned : Conn.Turned (.new accepted) conn false) (silent : conn.io = .new)
    (nothing : conn.received = []) : Account (conn :: live) dropped (accepted + 1) sockets where
  grammar := account.grammar.comeIn turned
  silent c member := by
    rcases List.mem_cons.1 member with rfl | member
    · exact silent
    · exact account.silent c member
  balance c member := by
    rcases List.mem_cons.1 member with rfl | member
    · have fresh : c.id = accepted := turned.id
      rw [nothing, List.nil_append, fresh]
      exact account.unaccepted accepted le_rfl
    · exact account.balance c member
  ended := account.ended
  unaccepted id late := account.unaccepted id (by omega)

/-- The connection that is handled is no other. -/
theorem apart (account : Account (old :: rest) dropped accepted sockets) {c : Conn}
    (member : c ∈ rest ++ dropped) : c.id ≠ old.id := by
  have nodup := account.grammar.each_once.nodup_iff.2 List.nodup_range
  rw [List.cons_append, List.map_cons, List.nodup_cons] at nodup
  intro same
  exact nodup.1 (same ▸ List.mem_map_of_mem member)

/-- The connection that is handled was accepted. -/
theorem lt_accepted (account : Account (old :: rest) dropped accepted sockets) :
    old.id < accepted := by
  have member : old.id ∈ (old :: rest ++ dropped).map Conn.id := List.mem_cons_self
  exact List.mem_range.1 (account.grammar.each_once.mem_iff.1 member)

/-- The balance of all connections after the turn of one of them. -/
theorem balance_turn {remove : Bool} (account : Account (old :: rest) dropped accepted sockets)
    (drains : Drains old conn remove (sockets old.id) socket) {c : Conn}
    (member : c = conn ∨ c ∈ rest ++ dropped) :
    c.received ++ (setSocket sockets old.id socket c.id).queue =
      (setSocket sockets old.id socket c.id).arrived := by
  rcases member with rfl | member
  · have before := account.balance old List.mem_cons_self
    rw [setSocket, drains.turned.id, Function.update_self, drains.arrived, drains.balance, before]
  · rw [setSocket, Function.update_of_ne (account.apart member)]
    exact account.balance c (List.mem_cons_of_mem _ member)

theorem unaccepted_turn (account : Account (old :: rest) dropped accepted sockets) (id : Nat)
    (late : accepted ≤ id) : (setSocket sockets old.id socket id).queue =
      (setSocket sockets old.id socket id).arrived := by
  have := account.lt_accepted
  rw [setSocket, Function.update_of_ne (by omega)]
  exact account.unaccepted id late

/-- A turn that keeps its connection. -/
theorem keep (account : Account (old :: rest) dropped accepted sockets)
    (drains : Drains old conn false (sockets old.id) socket) :
    Account (conn :: rest) dropped accepted (setSocket sockets old.id socket) where
  grammar := account.grammar.keep drains.turned
  silent c member := by
    rcases List.mem_cons.1 member with rfl | member
    · exact drains.silent
    · exact account.silent c (List.mem_cons_of_mem _ member)
  balance c member := account.balance_turn drains (List.mem_cons.1 member)
  ended c member := by
    rw [setSocket, Function.update_of_ne (account.apart (List.mem_append_right _ member))]
    exact account.ended c member
  unaccepted := account.unaccepted_turn

/-- A turn that removes its connection. -/
theorem drop (account : Account (old :: rest) dropped accepted sockets)
    (drains : Drains old conn true (sockets old.id) socket) :
    Account rest (conn :: dropped) accepted (setSocket sockets old.id socket) where
  grammar := account.grammar.drop drains.turned
  silent c member := account.silent c (List.mem_cons_of_mem _ member)
  balance c member := by
    refine account.balance_turn drains ?_
    rw [List.mem_append, List.mem_cons] at member
    rw [List.mem_append]
    tauto
  ended c member := by
    rcases List.mem_cons.1 member with rfl | member
    · rw [setSocket, drains.turned.id, Function.update_self, drains.ending]
      exact drains.ended rfl
    · rw [setSocket, Function.update_of_ne (account.apart (List.mem_append_right _ member))]
      exact account.ended c member
  unaccepted := account.unaccepted_turn

end Account

/-! ### Turns with silent handlers -/

/-- With nothing to send there is nothing to flush. -/
theorem Conn.tryFlush_silent {conn conn' : Conn} {failed : Bool} {writes : List WriteOutcome}
    (silent : conn.io = .new) (flushed : conn.tryFlush writes = some (conn', failed)) :
    conn' = conn ∧ failed = false := by
  have empty : conn.io.out.isEmpty = true := by
    rw [silent]
    rfl
  cases writes with
  | nil =>
      rw [Conn.tryFlush, if_pos empty] at flushed
      cases flushed
      exact ⟨rfl, rfl⟩
  | cons outcome outcomes => simp [Conn.tryFlush, empty] at flushed

theorem Conn.service_silent {conn conn' : Conn} {remove : Bool} {writes : List WriteOutcome}
    (silent : conn.io = .new) (served : conn.service writes = some (conn', remove)) :
    conn' = conn ∧ remove = false := by
  obtain ⟨⟨flushed, failed⟩, done, ends⟩ := Option.map_eq_some_iff.1 served
  obtain ⟨rfl, rfl⟩ := Conn.tryFlush_silent silent done
  have staysOpen : flushed.closingDone = false := by
    rw [Conn.closingDone, silent]
    rfl
  simp only [staysOpen, Bool.or_self, Bool.false_eq_true, if_false] at ends
  cases ends
  exact ⟨rfl, rfl⟩

namespace Drains

variable {old : Conn} {socket socket' : Socket}

/-- Nothing was read. -/
theorem keep (opened : old.Opened) (silent : old.io = .new) : Drains old old false socket socket :=
  ⟨.keep opened, silent, rfl, rfl, rfl, fun never => by cases never⟩

/-- The connection is closed, and its stream has ended. -/
theorem close (opened : old.Opened) (silent : old.io = .new) (ended : socket.ending ≠ none) :
    Drains old old.onClose true socket socket := by
  refine ⟨.close opened, silent, ?_, rfl, rfl, fun _ => ended⟩
  rw [Conn.onClose, Conn.received_callback]
  simp [Callback.bytes]

/-- Bytes were read and handed over. -/
theorem data {bytes : List UInt8} (opened : old.Opened) (silent : old.io = .new)
    (nonempty : bytes ≠ []) (read : socket.read (.ok bytes) = some socket') :
    Drains old (old.callback (.onData bytes) []) false socket socket' := by
  obtain ⟨b, more, rfl⟩ := List.exists_cons_of_ne_nil nonempty
  obtain ⟨queued, rfl⟩ := guarded read
  obtain ⟨left, queue⟩ := List.isPrefixOf_iff_prefix.1 queued
  refine ⟨⟨rfl, opened.onData _ _⟩, silent, ?_, rfl, rfl, fun never => by cases never⟩
  rw [Conn.received_callback, List.append_assoc]
  simp only [Callback.bytes]
  rw [← queue, List.drop_left]

/-- A stream that has ended stays so. -/
theorem endings {conn : Conn} {remove : Bool} {sockets : Nat → Socket}
    (drains : Drains old conn remove (sockets old.id) socket) (id : Nat)
    (ended : (sockets id).ending ≠ none) : (setSocket sockets old.id socket id).ending ≠ none := by
  by_cases here : id = old.id
  · rw [setSocket, here, Function.update_self, drains.ending, ← here]
    exact ended
  · rw [setSocket, Function.update_of_ne here]
    exact ended

end Drains

/-- A turn of the scanning loop reads what is queued, and removes a connection after the last byte. -/
theorem Scan.read_drains {old conn : Conn} {remove : Bool} {turn : Turn} {socket socket' : Socket}
    (opened : old.Opened) (silent : old.io = .new) (quiet : turn.reaction = [])
    (done : Scan.read old turn = some (conn, remove))
    (read : socket.read turn.read = some socket') :
    Drains old conn remove socket socket' ∧ (remove = true → socket'.queue = []) := by
  unfold Scan.read at done
  split at done
  · rename_i outcome
    rw [outcome] at read
    obtain ⟨⟨empty, ending⟩, rfl⟩ := guarded read
    cases done
    exact ⟨.close opened silent (by simp [ending]), fun _ => empty⟩
  · rename_i bytes nonempty outcome
    rw [outcome] at read
    rw [quiet] at done
    split at done
    · have still : (old.callback (.onData bytes) []).io = .new := silent
      obtain ⟨rfl, rfl⟩ := Conn.service_silent still done
      exact ⟨.data opened silent (fun none => nonempty none) read, fun never => by cases never⟩
    · cases done
  · rename_i outcome
    rw [outcome] at read
    obtain ⟨_, rfl⟩ := guarded read
    obtain ⟨rfl, rfl⟩ := Conn.service_silent silent done
    exact ⟨.keep opened silent, fun never => by cases never⟩
  · rename_i outcome
    rw [outcome] at read
    cases read
    cases done
    exact ⟨.keep opened silent, fun never => by cases never⟩
  · rename_i outcome
    rw [outcome] at read
    obtain ⟨⟨empty, ending⟩, rfl⟩ := guarded read
    cases done
    exact ⟨.close opened silent (by simp [ending]), fun _ => empty⟩

/-- The part of an event under `EPOLLIN` does the same. -/
theorem Epoll.readPart_drains {old conn : Conn} {remove : Bool} {bits : Bits} {turn : Turn}
    {socket socket' : Socket} (opened : old.Opened) (silent : old.io = .new)
    (quiet : turn.reaction = []) (done : Epoll.readPart old bits turn = some (conn, remove))
    (read : (if bits.input then socket.read turn.read else some socket) = some socket') :
    Drains old conn remove socket socket' ∧ (remove = true → socket'.queue = []) := by
  unfold Epoll.readPart at done
  split at done
  · rename_i input
    rw [if_pos input] at read
    split at done
    · rename_i outcome
      rw [outcome] at read
      obtain ⟨⟨empty, ending⟩, rfl⟩ := guarded read
      cases done
      exact ⟨.close opened silent (by simp [ending]), fun _ => empty⟩
    · rename_i bytes nonempty outcome
      rw [outcome] at read
      rw [quiet] at done
      obtain ⟨_, same⟩ := guarded done
      cases same
      exact ⟨.data opened silent (fun none => nonempty none) read, fun never => by cases never⟩
    · rename_i outcome
      rw [outcome] at read
      obtain ⟨_, rfl⟩ := guarded read
      cases done
      exact ⟨.keep opened silent, fun never => by cases never⟩
    · rename_i outcome
      rw [outcome] at read
      cases read
      cases done
      exact ⟨.keep opened silent, fun never => by cases never⟩
    · rename_i outcome
      rw [outcome] at read
      obtain ⟨⟨empty, ending⟩, rfl⟩ := guarded read
      cases done
      exact ⟨.close opened silent (by simp [ending]), fun _ => empty⟩
  · rename_i input
    rw [if_neg input] at read
    cases read
    cases done
    exact ⟨.keep opened silent, fun never => by cases never⟩

/-- An event: a reported end removes the connection unread, anything else is read first. -/
theorem Epoll.handle_drains {old conn : Conn} {remove : Bool} {bits : Bits} {turn : Turn}
    {socket socket' : Socket} (opened : old.Opened) (silent : old.io = .new)
    (quiet : turn.reaction = []) (ended : bits.ended = true → socket.ending ≠ none)
    (done : Epoll.handle old bits turn = some (conn, remove))
    (read : (if !bits.ended && bits.input then socket.read turn.read else some socket) =
      some socket') :
    Drains old conn remove socket socket' ∧
      (remove = true → bits.ended = false → socket'.queue = []) ∧
      (bits.ended = true → remove = true ∧ socket' = socket) := by
  unfold Epoll.handle at done
  split at done
  · rename_i reported
    simp only [reported, Bool.not_true, Bool.false_and, Bool.false_eq_true, if_false] at read
    cases read
    cases done
    refine ⟨.close opened silent (ended reported), fun _ never => ?_, fun _ => ⟨rfl, rfl⟩⟩
    rw [reported] at never
    cases never
  · rename_i reported
    rw [Bool.not_eq_true] at reported
    simp only [reported, Bool.not_false, Bool.true_and] at read
    obtain ⟨⟨middle, removed⟩, first, rest⟩ := Option.bind_eq_some_iff.1 done
    obtain ⟨drains, empty⟩ := Epoll.readPart_drains opened silent quiet first read
    have running : bits.ended ≠ true := by simp [reported]
    cases removed with
    | true =>
        cases rest
        exact ⟨drains, fun _ _ => empty rfl, fun never => absurd never running⟩
    | false =>
        obtain ⟨rfl, rfl⟩ := Conn.service_silent drains.silent rest
        exact ⟨drains, fun never => (by cases never), fun never => absurd never running⟩

/-! ### The scan loses nothing -/

namespace Network

variable {R A : Type*} {reactorStep : R → A → Option R} {reads : R → A → Option (Nat × ReadOutcome)}
  {allowed : Network R → A → Bool} {s t : Network R}

theorem grown_setSocket {sockets : Nat → Socket} {id : Nat} {socket : Socket}
    (grown : (sockets id).Grown socket) (other : Nat) :
    (sockets other).Grown (setSocket sockets id socket other) := by
  by_cases here : other = id
  · subst here
    rw [setSocket, Function.update_self]
    exact grown
  · rw [setSocket, Function.update_of_ne here]
    exact ⟨⟨[], by simp, by simp⟩, fun _ => rfl⟩

theorem grown_of_arrive {socket socket' : Socket} {bytes : List UInt8}
    (arrived : socket.arrive bytes = some socket') : socket.Grown socket' := by
  obtain ⟨running, rfl⟩ := guarded arrived
  exact ⟨⟨bytes, rfl, rfl⟩, fun ended => absurd running ended⟩

theorem grown_of_finish {socket socket' : Socket} {ending : Ending}
    (finished : socket.finish ending = some socket') : socket.Grown socket' := by
  obtain ⟨running, rfl⟩ := guarded finished
  exact ⟨⟨[], by simp, by simp⟩, fun ended => absurd running ended⟩

/-- What a step of the whole can be: peers move, or the reactor does and the kernel answers its read. -/
theorem step_cases {a : NetworkAct A} (moved : step reactorStep reads allowed s a = some t) :
    ((∀ b, a ≠ .reactor b) ∧ t.reactor = s.reactor ∧ ∀ id, (s.sockets id).Grown (t.sockets id)) ∨
      ∃ b, a = .reactor b ∧ allowed s b = true ∧
        readStep s.sockets (reads s.reactor b) = some t.sockets ∧
        reactorStep s.reactor b = some t.reactor := by
  cases a with
  | arrive id bytes =>
      obtain ⟨socket, arrived, rfl⟩ := Option.map_eq_some_iff.1 moved
      exact .inl ⟨by simp, rfl, grown_setSocket (grown_of_arrive arrived)⟩
  | finish id ending =>
      obtain ⟨socket, finished, rfl⟩ := Option.map_eq_some_iff.1 moved
      exact .inl ⟨by simp, rfl, grown_setSocket (grown_of_finish finished)⟩
  | reactor b =>
      obtain ⟨met, moved⟩ := Option.ite_none_right_eq_some.1 moved
      obtain ⟨sockets, read, moved⟩ := Option.bind_eq_some_iff.1 moved
      obtain ⟨reactor, stepped, rfl⟩ := Option.map_eq_some_iff.1 moved
      exact .inr ⟨b, rfl, met, read, stepped⟩

end Network

namespace AllRead

variable {live dropped rest : List Conn} {accepted : Nat} {sockets sockets' : Nat → Socket}
  {old conn : Conn} {socket : Socket}

/-- Peers leave the sockets of dropped connections alone. -/
theorem grow (read : AllRead dropped sockets) (account : Account live dropped accepted sockets)
    (grown : ∀ id, (sockets id).Grown (sockets' id)) : AllRead dropped sockets' := by
  intro c member
  rw [(grown c.id).frozen (account.ended c member)]
  exact read c member

/-- So does a turn at a connection. -/
theorem keep (read : AllRead dropped sockets)
    (account : Account (old :: rest) dropped accepted sockets) :
    AllRead dropped (setSocket sockets old.id socket) := by
  intro c member
  rw [setSocket, Function.update_of_ne (account.apart (List.mem_append_right _ member))]
  exact read c member

/-- A connection is removed after its last byte. -/
theorem drop (read : AllRead dropped sockets)
    (account : Account (old :: rest) dropped accepted sockets)
    (drains : Drains old conn true (sockets old.id) socket) (empty : socket.queue = []) :
    AllRead (conn :: dropped) (setSocket sockets old.id socket) := by
  intro c member
  rcases List.mem_cons.1 member with rfl | member
  · rw [setSocket, drains.turned.id, Function.update_self]
    exact empty
  · exact read.keep account c member

end AllRead

/-- What holds of the scan and its sockets. -/
structure ScanDelivers (s : Network Scan) : Prop where
  account : Account s.reactor.conns s.reactor.dropped s.reactor.accepted s.sockets
  read : AllRead s.reactor.dropped s.sockets

theorem ScanDelivers.visit {s t : Network Scan} {turn : Turn} (delivers : ScanDelivers s)
    (quiet : turn.reaction = [])
    (read : Network.readStep s.sockets (s.reactor.reads (.visit turn)) = some t.sockets)
    (moved : s.reactor.step (.visit turn) = some t.reactor) : ScanDelivers t := by
  obtain ⟨account, allRead⟩ := delivers
  simp only [Scan.step] at moved
  split at moved
  · rename_i i stands
    split at moved
    · rename_i old found
      simp only [Scan.reads, stands, found, Option.map_some] at read
      obtain ⟨socket, outcome, sockets⟩ := Option.map_eq_some_iff.1 read
      obtain ⟨⟨conn, remove⟩, done, after⟩ := Option.map_eq_some_iff.1 moved
      obtain ⟨inside, rfl⟩ := List.getElem?_eq_some_iff.1 found
      have split := (List.getElem_cons_eraseIdx_perm inside).symm
      have here : s.reactor.conns[i] ∈ s.reactor.conns := List.getElem_mem inside
      obtain ⟨drains, empty⟩ := Scan.read_drains (account.grammar.opened _ here)
        (account.silent _ here) quiet done outcome
      have held := account.congr split.symm
      obtain ⟨reactor, sockets'⟩ := t
      cases sockets
      cases remove with
      | true =>
          cases after
          exact ⟨(held.drop drains).congr (swapRemove_perm inside), allRead.drop held drains (empty rfl)⟩
      | false =>
          cases after
          exact ⟨(held.keep drains).congr (List.set_perm_cons_eraseIdx inside conn), allRead.keep held⟩
    · cases moved
  · cases moved

/-- The connection that `accept` brings in stays, with nothing to flush. -/
theorem Account.accept {live dropped : List Conn} {accepted : Nat} {sockets : Nat → Socket}
    (account : Account live dropped accepted sockets) :
    Account ((Conn.new accepted).callback .onOpen [] :: live) dropped (accepted + 1) sockets :=
  account.comeIn ⟨rfl, Conn.opened_new _ _⟩ rfl rfl

theorem ScanDelivers.reactor {s t : Network Scan} {a : ScanAct} (delivers : ScanDelivers s)
    (quiet : a.silent = true)
    (read : Network.readStep s.sockets (s.reactor.reads a) = some t.sockets)
    (moved : s.reactor.step a = some t.reactor) : ScanDelivers t := by
  obtain ⟨account, allRead⟩ := delivers
  cases a with
  | visit turn => exact ScanDelivers.visit ⟨account, allRead⟩ (List.isEmpty_iff.1 quiet) read moved
  | load stop =>
      obtain ⟨reactor, sockets⟩ := t
      cases read
      simp only [Scan.step] at moved
      split at moved <;> cases moved
      exact ⟨account, allRead⟩
  | passEnds =>
      obtain ⟨reactor, sockets⟩ := t
      cases read
      simp only [Scan.step] at moved
      split at moved
      · obtain ⟨_, rfl⟩ := guarded moved
        exact ⟨account, allRead⟩
      · cases moved
  | accept outcome reaction writes =>
      obtain ⟨reactor, sockets⟩ := t
      cases read
      obtain rfl : reaction = [] := List.isEmpty_iff.1 quiet
      simp only [Scan.step] at moved
      split at moved
      · cases outcome with
        | interrupted | wouldBlock | failed =>
            cases moved
            exact ⟨account, allRead⟩
        | stream nonblocking =>
            cases nonblocking with
            | false =>
                cases moved
                exact ⟨account, allRead⟩
            | true =>
                obtain ⟨⟨conn, remove⟩, served, rfl⟩ := Option.map_eq_some_iff.1 moved
                obtain ⟨rfl, rfl⟩ := Conn.service_silent rfl served
                exact ⟨account.accept.congr (List.perm_append_singleton _ _), allRead⟩
      · cases moved

theorem ScanDelivers.step {s t : Network Scan} {a : NetworkAct ScanAct}
    (delivers : ScanDelivers s) (moved : scanNetwork s a = some t) : ScanDelivers t := by
  rcases Network.step_cases moved with ⟨_, reactor, grown⟩ | ⟨b, _, quiet, read, stepped⟩
  · obtain ⟨account, allRead⟩ := delivers
    exact ⟨reactor ▸ account.grow grown, reactor ▸ allRead.grow account grown⟩
  · exact delivers.reactor quiet read stepped

theorem ScanDelivers.of_run {s : Network Scan}
    (run : Reach scanNetwork Free .startScan s) : ScanDelivers s := by
  refine run.invariant ⟨.start, fun c member => by cases member⟩ ?_
  exact fun _ _ _ delivers _ moved => delivers.step moved

/-! ### What the events lose -/

namespace Network

/-- The events of a batch that are still to be handled are for different descriptors, each that of a
    connection, and if one of them reports the end of a stream, the stream has ended. -/
structure Pending (s : Network Epoll) (events : List Event) : Prop where
  nodup : (events.map Prod.fst).Nodup
  known : ∀ e ∈ events, e.1 ≠ s.reactor.listenFd → ∃ conn, s.reactor.conns.lookup e.1 = some conn ∧
    (e.2.ended = true → (s.sockets conn.id).ending ≠ none)

variable {s t : Network Epoll} {events : List Event}

/-- The connections of the events stay in the map. -/
theorem Pending.frame (pending : s.Pending events)
    (listenFd : t.reactor.listenFd = s.reactor.listenFd)
    (lookups : ∀ e ∈ events, e.1 ≠ s.reactor.listenFd →
      t.reactor.conns.lookup e.1 = s.reactor.conns.lookup e.1)
    (endings : ∀ id, (s.sockets id).ending ≠ none → (t.sockets id).ending ≠ none) :
    t.Pending events where
  nodup := pending.nodup
  known e member apart := by
    rw [listenFd] at apart
    obtain ⟨conn, found, ended⟩ := pending.known e member apart
    exact ⟨conn, (lookups e member apart).trans found, fun reported => endings _ (ended reported)⟩

theorem Pending.tail {e : Event} (pending : s.Pending (e :: events)) : s.Pending events where
  nodup := (List.nodup_cons.1 pending.nodup).2
  known f member := pending.known f (List.mem_cons_of_mem _ member)

theorem Pending.head_ne {e f : Event} (pending : s.Pending (e :: events)) (member : f ∈ events) :
    f.1 ≠ e.1 := by
  intro same
  exact (List.nodup_cons.1 pending.nodup).1 (same ▸ List.mem_map_of_mem member)

/-- The first event was handled: the map changes at its descriptor only. -/
theorem Pending.handled {fd : Nat} {bits : Bits} (pending : s.Pending ((fd, bits) :: events))
    (listenFd : t.reactor.listenFd = s.reactor.listenFd)
    (lookups : ∀ fd', fd' ≠ fd → t.reactor.conns.lookup fd' = s.reactor.conns.lookup fd')
    (endings : ∀ id, (s.sockets id).ending ≠ none → (t.sockets id).ending ≠ none) :
    t.Pending events :=
  pending.tail.frame listenFd (fun _ member _ => lookups _ (pending.head_ne member)) endings

/-- What `epoll_wait` reports. -/
theorem pending_of_reported (returned : s.reported events = true) : s.Pending events := by
  rw [reported, Bool.and_eq_true, decide_eq_true_iff, List.all_eq_true] at returned
  refine ⟨returned.1, fun e member apart => ?_⟩
  have known := returned.2 e member
  simp only [Bool.or_eq_true, beq_iff_eq] at known
  have known := known.resolve_left apart
  cases found : s.reactor.conns.lookup e.1 with
  | none =>
      rw [found] at known
      cases known
  | some conn =>
      rw [found] at known
      refine ⟨conn, rfl, fun ended running => ?_⟩
      simp [Socket.reports, running, ended] at known

end Network

/-- What holds of the epoll loop and its sockets. -/
structure EpollDelivers (s : Network Epoll) : Prop where
  account : Account s.reactor.live s.reactor.dropped s.reactor.accepted s.sockets
  pending : ∀ events, s.reactor.pc = .batch events ∨ s.reactor.pc = .accept events →
    s.Pending events

namespace EpollDelivers

variable {s t : Network Epoll}

theorem start (listenFd : Nat) : EpollDelivers (.startEpoll listenFd) :=
  ⟨.start, fun _ stands => by rcases stands with never | never <;> cases never⟩

theorem grow (delivers : EpollDelivers s) (reactor : t.reactor = s.reactor)
    (grown : ∀ id, (s.sockets id).Grown (t.sockets id)) : EpollDelivers t := by
  refine ⟨reactor ▸ delivers.account.grow grown, fun events stands => ?_⟩
  rw [reactor] at stands
  refine (delivers.pending events stands).frame (by rw [reactor]) (fun e _ _ => by rw [reactor]) ?_
  intro id ended
  rw [(grown id).frozen ended]
  exact ended

end EpollDelivers

/-- The socket that an event reads. -/
theorem Epoll.readStep_handled {s : Epoll} {a : EpollAct} {sockets sockets' : Nat → Socket}
    {conn : Conn} {bits : Bits} {turn : Turn} (handles : s.handled a = some (conn, bits, turn))
    (read : Network.readStep sockets (s.reads a) = some sockets') :
    ∃ socket, sockets' = setSocket sockets conn.id socket ∧
      (if !bits.ended && bits.input then (sockets conn.id).read turn.read
        else some (sockets conn.id)) = some socket := by
  rw [Epoll.reads, handles] at read
  simp only [Option.bind_some] at read
  split at read
  · rename_i reading
    obtain ⟨socket, outcome, same⟩ := Option.map_eq_some_iff.1 read
    exact ⟨socket, same.symm, by rw [if_pos reading]; exact outcome⟩
  · rename_i reading
    cases read
    exact ⟨sockets conn.id, (Function.update_eq_self _ _).symm, by rw [if_neg reading]⟩

/-- An event that reports the end of a stream finds the queue of its socket empty. -/
def Network.drained (s : Network Epoll) : NetworkAct EpollAct → Bool
  | .reactor a =>
      match s.reactor.handled a with
      | some (conn, bits, _) => !bits.ended || (s.sockets conn.id).queue.isEmpty
      | none => true
  | .arrive _ _ | .finish _ _ => true

/-- What a step does to the dropped connections and their sockets: those that were dropped stay as they
    are, and one that is dropped now was read to the end exactly if the step is `clean`. -/
structure Network.Drops (s t : Network Epoll) (clean : Bool) : Prop where
  stay : ∀ c ∈ s.reactor.dropped, c ∈ t.reactor.dropped ∧ t.sockets c.id = s.sockets c.id
  whole : clean = true → ∀ c ∈ t.reactor.dropped, c ∈ s.reactor.dropped ∨ (t.sockets c.id).queue = []
  lost : clean = false → ∃ c ∈ t.reactor.dropped, (t.sockets c.id).queue ≠ []

namespace Network.Drops

variable {s t : Network Epoll} {clean : Bool}

/-- A step that drops nobody and touches no dropped connection's socket. -/
theorem of_same (dropped : t.reactor.dropped = s.reactor.dropped)
    (sockets : ∀ c ∈ s.reactor.dropped, t.sockets c.id = s.sockets c.id) : Drops s t true where
  stay c member := ⟨dropped ▸ member, sockets c member⟩
  whole _ c member := .inl (dropped ▸ member)
  lost never := by cases never

/-- A step that drops a connection; it is clean exactly if that leaves nothing unread. -/
theorem of_removed {old conn : Conn} {rest : List Conn} {accepted : Nat} {socket : Socket}
    (account : Account (old :: rest) s.reactor.dropped accepted s.sockets)
    (drains : Drains old conn true (s.sockets old.id) socket)
    (dropped : t.reactor.dropped = conn :: s.reactor.dropped)
    (sockets : t.sockets = setSocket s.sockets old.id socket)
    (exactly : clean = socket.queue.isEmpty) : Drops s t clean := by
  have own : t.sockets conn.id = socket := by
    rw [sockets, setSocket, drains.turned.id, Function.update_self]
  refine ⟨fun c member => ?_, fun drained c member => ?_, fun unread => ?_⟩
  · rw [dropped, sockets]
    refine ⟨List.mem_cons_of_mem _ member, ?_⟩
    exact Function.update_of_ne (account.apart (List.mem_append_right _ member)) _ _
  · rw [dropped] at member
    rcases List.mem_cons.1 member with rfl | member
    · rw [own]
      exact .inr (List.isEmpty_iff.1 (exactly ▸ drained))
    · exact .inl member
  · refine ⟨conn, by rw [dropped]; exact List.mem_cons_self, fun empty => ?_⟩
    rw [own] at empty
    rw [exactly, empty] at unread
    cases unread

theorem allRead (drops : Drops s t true) (before : AllRead s.reactor.dropped s.sockets) :
    AllRead t.reactor.dropped t.sockets := by
  intro c member
  rcases drops.whole rfl c member with old | empty
  · rw [(drops.stay c old).2]
    exact before c old
  · exact empty

theorem not_allRead (drops : Drops s t clean)
    (before : ¬ AllRead s.reactor.dropped s.sockets) : ¬ AllRead t.reactor.dropped t.sockets := by
  intro after
  refine before fun c member => ?_
  obtain ⟨still, same⟩ := drops.stay c member
  rw [← same]
  exact after c still

end Network.Drops

/-- A step of the epoll loop that neither handles a connection nor accepts one. -/
theorem EpollDelivers.idle {s t : Network Epoll} (delivers : EpollDelivers s)
    (sockets : t.sockets = s.sockets) (conns : t.reactor.conns = s.reactor.conns)
    (dropped : t.reactor.dropped = s.reactor.dropped)
    (accepted : t.reactor.accepted = s.reactor.accepted)
    (pending : ∀ events, t.reactor.pc = .batch events ∨ t.reactor.pc = .accept events →
      t.Pending events) : EpollDelivers t ∧ s.Drops t true := by
  refine ⟨⟨?_, pending⟩, .of_same dropped fun c _ => by rw [sockets]⟩
  rw [Epoll.live, conns, dropped, accepted, sockets]
  exact delivers.account

/-- An event at a connection: whether it was clean shows in what it leaves unread. -/
theorem EpollDelivers.handle {s t : Network Epoll} {fd : Nat} {bits : Bits} {events : List Event}
    {old conn : Conn} {remove : Bool} {turn : Turn} {socket : Socket} (delivers : EpollDelivers s)
    (pending : s.Pending ((fd, bits) :: events)) (found : s.reactor.conns.lookup fd = some old)
    (ended : bits.ended = true → (s.sockets old.id).ending ≠ none) (quiet : turn.reaction = [])
    (done : Epoll.handle old bits turn = some (conn, remove))
    (outcome : (if !bits.ended && bits.input then (s.sockets old.id).read turn.read
      else some (s.sockets old.id)) = some socket)
    (listenFd : t.reactor.listenFd = s.reactor.listenFd)
    (accepted : t.reactor.accepted = s.reactor.accepted)
    (conns : t.reactor.conns =
      if remove then mapRemove s.reactor.conns fd else mapInsert s.reactor.conns fd conn)
    (dropped : t.reactor.dropped = if remove then conn :: s.reactor.dropped else s.reactor.dropped)
    (sockets : t.sockets = setSocket s.sockets old.id socket) (pc : t.reactor.pc = .batch events) :
    EpollDelivers t ∧ s.Drops t (!bits.ended || (s.sockets old.id).queue.isEmpty) := by
  have account := delivers.account.congr ((lookup_perm found).map Prod.snd).symm
  obtain ⟨drains, empty, unread⟩ := Epoll.handle_drains
    (account.grammar.opened old List.mem_cons_self) (account.silent old List.mem_cons_self) quiet
    ended done outcome
  have lookups : ∀ fd', fd' ≠ fd → t.reactor.conns.lookup fd' = s.reactor.conns.lookup fd' := by
    intro fd' apart
    rw [conns]
    split
    · exact lookup_mapRemove_of_ne apart
    · exact lookup_mapInsert_of_ne apart
  have waiting : ∀ events', t.reactor.pc = .batch events' ∨ t.reactor.pc = .accept events' →
      t.Pending events' := by
    rw [pc]
    rintro events' (here | never)
    · cases here
      exact pending.handled listenFd lookups (by rw [sockets]; exact drains.endings)
    · cases never
  cases remove with
  | true =>
      have exactly : (!bits.ended || (s.sockets old.id).queue.isEmpty) = socket.queue.isEmpty := by
        cases reported : bits.ended with
        | false => simp [empty rfl reported]
        | true => simp [(unread reported).2]
      refine ⟨⟨?_, waiting⟩, .of_removed account drains dropped sockets exactly⟩
      rw [Epoll.live, conns, dropped, accepted, sockets]
      exact account.drop drains
  | false =>
      have running : bits.ended = false := by
        cases reported : bits.ended with
        | false => rfl
        | true => cases (unread reported).1
      rw [running]
      refine ⟨⟨?_, waiting⟩, .of_same dropped fun c member => ?_⟩
      · rw [Epoll.live, conns, dropped, accepted, sockets]
        exact account.keep drains
      · rw [sockets]
        exact Function.update_of_ne (account.apart (List.mem_append_right _ member)) _ _

/-- The next event of a batch. -/
theorem EpollDelivers.event {s t : Network Epoll} {turn : Turn} {succeeds : Bool}
    (delivers : EpollDelivers s) (quiet : turn.reaction = [])
    (read : Network.readStep s.sockets (s.reactor.reads (.event turn succeeds)) = some t.sockets)
    (moved : s.reactor.step (.event turn succeeds) = some t.reactor) :
    EpollDelivers t ∧ s.Drops t (s.drained (.reactor (.event turn succeeds))) := by
  obtain ⟨reactor, sockets⟩ := t
  simp only [Epoll.step] at moved
  split at moved
  · rename_i fd bits events stands
    have pending := delivers.pending _ (.inl stands)
    split at moved
    · rename_i listens
      have idle : s.reactor.handled (.event turn succeeds) = none := by
        simp [Epoll.handled, stands, listens]
      rw [Epoll.reads, idle] at read
      rw [Network.drained, idle]
      cases read
      cases moved
      refine delivers.idle rfl rfl rfl rfl fun events' stands' => ?_
      rcases stands' with never | here
      · cases never
      · cases here
        exact pending.tail.frame rfl (fun _ _ _ => rfl) (fun _ ended => ended)
    · rename_i apart
      obtain ⟨old, found, ended⟩ := pending.known (fd, bits) List.mem_cons_self apart
      have handles : s.reactor.handled (.event turn succeeds) = some (old, bits, turn) := by
        have found : s.reactor.conns.lookup fd = some old := found
        simp [Epoll.handled, stands, apart, found]
      obtain ⟨socket, same, outcome⟩ := Epoll.readStep_handled handles read
      rw [Network.drained, handles]
      rw [show s.reactor.conns.lookup fd = some old from found] at moved
      obtain ⟨⟨conn, remove⟩, done, after⟩ := Option.map_eq_some_iff.1 moved
      cases remove with
      | true =>
          cases after
          exact delivers.handle pending found ended quiet done outcome rfl rfl rfl rfl same rfl
      | false =>
          cases after
          exact delivers.handle pending found ended quiet done outcome rfl rfl rfl rfl same rfl
  · cases moved

theorem EpollDelivers.accept {s t : Network Epoll} {outcome : AcceptOutcome} {fd : Nat}
    {writes : List WriteOutcome} {succeeds : Bool} (delivers : EpollDelivers s)
    (sockets : t.sockets = s.sockets)
    (moved : s.reactor.step (.accept outcome fd [] writes succeeds) = some t.reactor) :
    EpollDelivers t ∧ s.Drops t true := by
  obtain ⟨reactor, sockets'⟩ := t
  cases sockets
  have waiting := delivers.pending
  simp only [Epoll.step] at moved
  split at moved
  · rename_i events stands
    cases outcome with
    | interrupted =>
        cases moved
        exact ⟨delivers, .of_same rfl fun _ _ => rfl⟩
    | wouldBlock | failed =>
        cases moved
        refine delivers.idle rfl rfl rfl rfl fun events' stands' => ?_
        rcases stands' with here | never
        · cases here
          exact (waiting events (.inr stands)).frame rfl (fun _ _ _ => rfl) fun _ ended => ended
        · cases never
    | stream nonblocking =>
        cases nonblocking with
        | false =>
            cases moved
            exact ⟨delivers, .of_same rfl fun _ _ => rfl⟩
        | true =>
            obtain ⟨⟨_, fresh⟩, moved⟩ := Option.ite_none_right_eq_some.1 moved
            obtain ⟨⟨conn, failed⟩, flushed, after⟩ := Option.map_eq_some_iff.1 moved
            obtain ⟨rfl, rfl⟩ := Conn.tryFlush_silent rfl flushed
            cases after
            refine ⟨⟨delivers.account.accept.congr ?_, fun events' stands' => ?_⟩,
              .of_same rfl fun _ _ => rfl⟩
            · show ((mapInsert s.reactor.conns fd _).map Prod.snd).Perm _
              rw [mapInsert, mapRemove_of_lookup_eq_none fresh]
              exact .refl _
            · have there := waiting events' stands'
              refine there.frame rfl (fun e member apart => lookup_mapInsert_of_ne ?_)
                fun _ ended => ended
              -- The new descriptor is that of no connection, the event's is.
              rintro rfl
              obtain ⟨conn, found, _⟩ := there.known e member apart
              rw [fresh] at found
              cases found
  · cases moved

/-- A step of the epoll loop that the kernel allows. -/
theorem EpollDelivers.reactor {s t : Network Epoll} {a : EpollAct} (delivers : EpollDelivers s)
    (allowed : s.allowed a = true)
    (read : Network.readStep s.sockets (s.reactor.reads a) = some t.sockets)
    (moved : s.reactor.step a = some t.reactor) :
    EpollDelivers t ∧ s.Drops t (s.drained (.reactor a)) := by
  obtain ⟨reactor, sockets⟩ := t
  cases a with
  | event turn succeeds =>
      have quiet := (Bool.and_eq_true_iff.1 allowed).1
      exact delivers.event (List.isEmpty_iff.1 quiet) read moved
  | accept outcome fd reaction writes succeeds =>
      have quiet := (Bool.and_eq_true_iff.1 allowed).1
      obtain rfl : reaction = [] := List.isEmpty_iff.1 quiet
      exact delivers.accept (Option.some.inj read).symm moved
  | load stop =>
      cases read
      simp only [Epoll.step] at moved
      split at moved <;> cases moved
      refine delivers.idle rfl rfl rfl rfl fun events stands => ?_
      cases stop <;> rcases stands with never | never <;> cases never
  | waitFailed interrupted =>
      cases read
      simp only [Epoll.step] at moved
      split at moved <;> cases moved
      refine delivers.idle rfl rfl rfl rfl fun events stands => ?_
      cases interrupted <;> rcases stands with never | never <;> cases never
  | waited events =>
      have pending := Network.pending_of_reported (Bool.and_eq_true_iff.1 allowed).2
      cases read
      simp only [Epoll.step] at moved
      split at moved <;> cases moved
      refine delivers.idle rfl rfl rfl rfl fun events' stands => ?_
      rcases stands with here | never
      · cases here
        exact pending.frame rfl (fun _ _ _ => rfl) fun _ ended => ended
      · cases never
  | batchEnds =>
      cases read
      simp only [Epoll.step] at moved
      split at moved <;> cases moved
      refine delivers.idle rfl rfl rfl rfl fun events stands => ?_
      rcases stands with never | never <;> cases never

/-- Every step next to the sockets. -/
theorem EpollDelivers.step {s t : Network Epoll} {a : NetworkAct EpollAct}
    (delivers : EpollDelivers s) (moved : epollNetwork s a = some t) :
    EpollDelivers t ∧ s.Drops t (s.drained a) := by
  rcases Network.step_cases moved with ⟨peers, reactor, grown⟩ | ⟨b, rfl, allowed, read, stepped⟩
  · have clean : s.drained a = true := by
      cases a with
      | arrive | finish => rfl
      | reactor b => exact absurd rfl (peers b)
    rw [clean]
    refine ⟨delivers.grow reactor grown, .of_same (by rw [reactor]) fun c member => ?_⟩
    exact (grown c.id).frozen (delivers.account.ended c member)
  · exact delivers.reactor allowed read stepped

/-! ### Both reactors -/

/-- The connection was closed, once and last, after its handler was given everything that had arrived. -/
structure Delivered (sockets : Nat → Socket) (conn : Conn) : Prop where
  closed : conn.Closed
  everything : conn.received = (sockets conn.id).arrived

/-- A dropped connection was given everything exactly if its socket holds nothing. -/
theorem Account.delivered_iff {live dropped : List Conn} {accepted : Nat} {sockets : Nat → Socket}
    (account : Account live dropped accepted sockets) {c : Conn} (member : c ∈ dropped) :
    Delivered sockets c ↔ (sockets c.id).queue = [] := by
  have balance := account.balance c (List.mem_append_right _ member)
  constructor
  · intro delivered
    rw [delivered.everything] at balance
    exact List.append_right_eq_self.1 balance
  · intro empty
    rw [empty, List.append_nil] at balance
    exact ⟨account.grammar.closed c member, balance⟩

theorem Account.delivered_all_iff {live dropped : List Conn} {accepted : Nat}
    {sockets : Nat → Socket} (account : Account live dropped accepted sockets) :
    (∀ c ∈ dropped, Delivered sockets c) ↔ AllRead dropped sockets :=
  forall₂_congr fun _ member => account.delivered_iff member

/-- In every run the handlers of the epoll loop were given everything exactly if each event that
    reported the end of a stream found its queue empty. -/
theorem allRead_iff_drained {listenFd : Nat} {labels : List (NetworkAct EpollAct)}
    {t : Network Epoll} (executed : exec epollNetwork (.startEpoll listenFd) labels = some t) :
    AllRead t.reactor.dropped t.sockets ↔
      execChecked epollNetwork (fun s a => s.drained a = true) (.startEpoll listenFd) labels =
        some t := by
  refine good_iff_execChecked (fun s a => s.drained a = true) (P := EpollDelivers)
    (Q := fun s => AllRead s.reactor.dropped s.sockets) ?_ ?_ ?_ ?_ (.start listenFd)
    (fun c member => by cases member) executed
  · intro u a v delivers moved
    exact (delivers.step moved).1
  · intro u a v delivers met moved read
    have drops := (delivers.step moved).2
    rw [met] at drops
    exact drops.allRead read
  · intro u a v delivers unmet moved allRead
    obtain ⟨c, member, left⟩ := (delivers.step moved).2.lost (Bool.not_eq_true _ ▸ unmet)
    exact left (allRead c member)
  · intro u a v delivers lost moved
    exact (delivers.step moved).2.not_allRead lost

/-- The scan gives every connection that it drops everything that had arrived, and `on_close` once. The
    epoll loop does so exactly in the runs in which each event that reports a reset finds nothing
    unread; and a connection with the same history is given the same by both exactly if the epoll
    loop left nothing unread in its socket. -/
theorem reactors_deliver_alike {s : Network Scan} {t : Network Epoll} {listenFd : Nat}
    {labels : List (NetworkAct EpollAct)} (scan : Reach scanNetwork Free .startScan s)
    (epoll : exec epollNetwork (.startEpoll listenFd) labels = some t) :
    (∀ c ∈ s.reactor.dropped, Delivered s.sockets c) ∧
      ((∀ d ∈ t.reactor.dropped, Delivered t.sockets d) ↔
        execChecked epollNetwork (fun s a => s.drained a = true) (.startEpoll listenFd) labels =
          some t) ∧
      ∀ c ∈ s.reactor.dropped, ∀ d ∈ t.reactor.dropped,
        (s.sockets c.id).arrived = (t.sockets d.id).arrived →
          (c.received = d.received ↔ (t.sockets d.id).queue = []) := by
  obtain ⟨scanned, allRead⟩ := ScanDelivers.of_run scan
  have handled : EpollDelivers t := (reach_of_exec epoll).invariant (.start listenFd)
    fun _ _ _ delivers _ moved => (delivers.step moved).1
  have whole := scanned.delivered_all_iff.2 allRead
  refine ⟨whole, handled.account.delivered_all_iff.trans (allRead_iff_drained epoll), ?_⟩
  intro c member d member' history
  rw [← handled.account.delivered_iff member', (whole c member).everything, history]
  exact ⟨fun same => ⟨handled.account.grammar.closed d member', same.symm⟩,
    fun delivered => delivered.everything.symm⟩

/-- One connection: three bytes arrive, then the peer ends the stream. The scan reads them, and the end
    in the next pass. -/
def scannedUntil (ending : Ending) (last : ReadOutcome) : List (NetworkAct ScanAct) :=
  [.reactor (.load false), .reactor (.accept (.stream true) [] []), .arrive 0 [1, 2, 3],
    .finish 0 ending, .reactor (.accept .wouldBlock [] []),
    .reactor (.visit ⟨.ok [1, 2, 3], [], []⟩), .reactor .passEnds, .reactor (.load false),
    .reactor (.accept .wouldBlock [] []), .reactor (.visit ⟨last, [], []⟩)]

/-- The epoll loop accepts a connection as descriptor 4, and three bytes arrive. -/
def acceptedAndSent : List (NetworkAct EpollAct) :=
  [.reactor (.load false), .reactor (.waited [(3, ⟨true, false, false, false⟩)]),
    .reactor (.event ⟨.wouldBlock, [], []⟩ true),
    .reactor (.accept (.stream true) 4 [] [] true),
    .reactor (.accept .wouldBlock 0 [] [] true), .reactor .batchEnds, .arrive 0 [1, 2, 3]]

/-- The peer sends a FIN; the loop reads two bytes, the third one, and the end. -/
def handledUntilFin : List (NetworkAct EpollAct) :=
  acceptedAndSent ++
    [.finish 0 .fin, .reactor (.load false), .reactor (.waited [(4, ⟨true, false, false, false⟩)]),
      .reactor (.event ⟨.ok [1, 2], [], []⟩ true), .reactor .batchEnds, .reactor (.load false),
      .reactor (.waited [(4, ⟨true, false, false, false⟩)]),
      .reactor (.event ⟨.ok [3], [], []⟩ true), .reactor .batchEnds, .reactor (.load false),
      .reactor (.waited [(4, ⟨true, false, false, false⟩)]),
      .reactor (.event ⟨.ok [], [], []⟩ true)]

theorem reactors_deliver_alike_fin :
    ∃ s t, exec scanNetwork .startScan (scannedUntil .fin (.ok [])) = some s ∧
      exec epollNetwork (.startEpoll 3) handledUntilFin = some t ∧
      s.reactor.dropped.map Conn.received = [[1, 2, 3]] ∧
      t.reactor.dropped.map Conn.received = [[1, 2, 3]] ∧
      (∀ c ∈ s.reactor.dropped, Delivered s.sockets c) ∧
      ∀ d ∈ t.reactor.dropped, Delivered t.sockets d := by
  obtain ⟨s, scanned, received⟩ : ∃ s,
      exec scanNetwork .startScan (scannedUntil .fin (.ok [])) = some s ∧
        s.reactor.dropped.map Conn.received = [[1, 2, 3]] := ⟨_, rfl, rfl⟩
  obtain ⟨t, handled, received', checked⟩ : ∃ t,
      exec epollNetwork (.startEpoll 3) handledUntilFin = some t ∧
        t.reactor.dropped.map Conn.received = [[1, 2, 3]] ∧
        execChecked epollNetwork (fun s a => s.drained a = true) (.startEpoll 3) handledUntilFin =
          some t := ⟨_, rfl, rfl, rfl⟩
  obtain ⟨one, two, _⟩ := reactors_deliver_alike (reach_of_exec scanned) handled
  exact ⟨s, t, scanned, handled, received, received', one, two.2 checked⟩

/-- The peer resets the connection while three bytes are queued. The scan hands them over; the epoll loop
    is told of the reset together with the bytes, and drops the connection with the bytes unread. -/
theorem epoll_loses_unread_bytes :
    ∃ s t, exec scanNetwork .startScan (scannedUntil .reset .failed) = some s ∧
      exec epollNetwork (.startEpoll 3) (acceptedAndSent ++
        [.finish 0 .reset, .reactor (.load false),
          .reactor (.waited [(4, ⟨true, false, true, true⟩)]),
          .reactor (.event ⟨.wouldBlock, [], []⟩ true)]) = some t ∧
      (s.sockets 0).arrived = [1, 2, 3] ∧ (t.sockets 0).arrived = [1, 2, 3] ∧
      s.reactor.dropped.map Conn.received = [[1, 2, 3]] ∧
      t.reactor.dropped.map Conn.received = [[]] ∧
      ¬ ∀ d ∈ t.reactor.dropped, Delivered t.sockets d := by
  refine ⟨_, _, rfl, rfl, rfl, rfl, rfl, rfl, fun all => ?_⟩
  have delivered := (all _ List.mem_cons_self).everything
  cases delivered

end AetherFlow.Net
