/-
Module: AetherFlow.Net.Hosted
Purpose: The reactors with handlers that answer. A handler is a deterministic machine over its own
  fields; hosting it means that every callback makes the calls that machine makes. Whatever either
  reactor does, what a connection was given to write is then what the machine puts out for its
  callbacks, and what the peer is sent is the beginning of the answer to what the peer has sent.
  `Framed` makes the machine one over frames.
Trusted boundary: human-reviewed transcription of the traits `Connection` and `FramedConnection`
Main exports: Handler, Handler.Streaming, scanServer, epollServer, Ledger, Answered, replies_of_run,
  FrameHandler, FrameHandler.framed, requests_answered
-/
import AetherFlow.Lib.Transducer
import AetherFlow.Net.Codec
import AetherFlow.Net.Delivery
import AetherFlow.Net.Output

namespace AetherFlow.Net

open AetherFlow.System (swapRemove swapRemove_perm)
open Transition

variable {S : Type*}

/-! ### Handlers -/

/-- A `Connection`: what `factory()` makes, and for each callback what the handler keeps and the calls it
    makes on its `Io`. It does not look at `Io::pending`. -/
structure Handler (S : Type*) where
  factory : S
  onOpen : S → S × List IoCall
  onData : S → List UInt8 → S × List IoCall
  onClose : S → S

/-- The bytes that calls pass to `Io::write`. -/
def writtenBy (calls : List IoCall) : List UInt8 := calls.flatMap IoCall.bytes

theorem writtenBy_prefix {calls calls' : List IoCall} (longer : calls <+: calls') :
    writtenBy calls <+: writtenBy calls' := by
  obtain ⟨more, rfl⟩ := longer
  rw [writtenBy, writtenBy, List.flatMap_append]
  exact List.prefix_append _ _

namespace Handler

/-- The handler as a machine over its callbacks; `on_close` has no `Io`. -/
def machine (handler : Handler S) : Transducer S Callback IoCall where
  start := handler.factory
  step state
    | .onOpen => handler.onOpen state
    | .onData bytes => handler.onData state bytes
    | .onClose => (handler.onClose state, [])

/-- The calls that the handler makes in `name` after the callbacks `past`. -/
def react (handler : Handler S) (past : List Callback) (name : Callback) : List IoCall :=
  (handler.machine.step (handler.machine.run handler.factory past).1 name).2

/-- The calls that the handler makes when it is opened and given these chunks. -/
def answers (handler : Handler S) (chunks : List (List UInt8)) : List IoCall :=
  handler.machine.output (.onOpen :: chunks.map .onData)

/-- What the handler writes depends on the bytes it was given, and not on how they were cut. -/
def Streaming (handler : Handler S) (reply : List UInt8 → List UInt8) : Prop :=
  ∀ chunks, writtenBy (handler.answers chunks) = reply chunks.flatten

end Handler

/-- The turn makes the handler's calls. -/
def Turn.hosts (handler : Handler S) (conn : Conn) (turn : Turn) : Bool :=
  match turn.read with
  | .ok (byte :: bytes) => turn.reaction == handler.react conn.calls (.onData (byte :: bytes))
  | _ => true

def Scan.hosts (handler : Handler S) (s : Scan) : ScanAct → Bool
  | .accept (.stream true) reaction _ => reaction == handler.react [] .onOpen
  | .visit turn => s.visited.all fun conn => turn.hosts handler conn
  | _ => true

def Epoll.hosts (handler : Handler S) (s : Epoll) : EpollAct → Bool
  | .accept (.stream true) _ reaction _ _ => reaction == handler.react [] .onOpen
  | .event turn succeeds =>
      (s.handled (.event turn succeeds)).all fun (conn, _, turn) => turn.hosts handler conn
  | _ => true

/-- `scan_reactor` with this handler, and the kernel. -/
def scanServer (handler : Handler S) : Network Scan → NetworkAct ScanAct → Option (Network Scan) :=
  Network.step Scan.step Scan.reads fun s a => s.reactor.hosts handler a

/-- `epoll_reactor` with this handler, and the kernel; `epoll_wait` may return any events. -/
def epollServer (handler : Handler S) :
    Network Epoll → NetworkAct EpollAct → Option (Network Epoll) :=
  Network.step Epoll.step Epoll.reads fun s a => s.reactor.hosts handler a

/-! ### What a connection was given to write -/

/-- The connection was given to write what the handler puts out for its callbacks. -/
def Conn.Plays (handler : Handler S) (conn : Conn) : Prop :=
  conn.written = writtenBy (handler.machine.output conn.calls)

namespace Conn

variable {handler : Handler S} {old conn conn' : Conn} {remove failed : Bool}
  {writes : List WriteOutcome}

theorem Plays.callback (plays : conn.Plays handler) (name : Callback) :
    (conn.callback name (handler.react conn.calls name)).Plays handler := by
  rw [Plays] at plays ⊢
  rw [Conn.callback, plays, Transducer.output, Transducer.output, Transducer.run_concat, writtenBy,
    writtenBy, List.flatMap_append]
  rfl

theorem Plays.onClose (plays : conn.Plays handler) : conn.onClose.Plays handler :=
  plays.callback .onClose

theorem plays_opened (id : Nat) :
    ((new id).callback .onOpen (handler.react [] .onOpen)).Plays handler := by
  have made : (new id).Plays handler := rfl
  exact made.callback .onOpen

theorem written_tryFlush (flushed : conn.tryFlush writes = some (conn', failed)) :
    conn'.written = conn.written := by
  induction writes generalizing conn with
  | nil =>
      simp only [tryFlush] at flushed
      split at flushed <;> cases flushed
      rfl
  | cons outcome outcomes inductionHypothesis =>
      simp only [tryFlush] at flushed
      split at flushed
      · cases flushed
      · split at flushed
        · split at flushed <;> cases flushed
          rfl
        · split at flushed <;> cases flushed
          rfl
        · split at flushed
          · exact (inductionHypothesis flushed).trans rfl
          · cases flushed
        · exact inductionHypothesis flushed
        · split at flushed <;> cases flushed
          rfl

theorem Plays.tryFlush (plays : conn.Plays handler)
    (flushed : conn.tryFlush writes = some (conn', failed)) : conn'.Plays handler := by
  rw [Plays, written_tryFlush flushed, (tryFlush_spec flushed).2]
  exact plays

theorem Plays.service (plays : conn.Plays handler)
    (served : conn.service writes = some (conn', remove)) : conn'.Plays handler := by
  rw [Conn.service, Option.map_eq_some_iff] at served
  obtain ⟨⟨flushed, failed⟩, done, ends⟩ := served
  have still := plays.tryFlush done
  dsimp only at ends
  split at ends <;> cases ends
  · exact still.onClose
  · exact still

end Conn

section Turns

variable {handler : Handler S} {old conn : Conn} {remove : Bool} {turn : Turn}

/-- A read that returned bytes leads to the handler's `on_data`. -/
theorem Conn.Plays.onData (plays : old.Plays handler) (hosted : turn.hosts handler old = true)
    {bytes : List UInt8} (outcome : turn.read = .ok bytes) (nonempty : bytes ≠ []) :
    (old.callback (.onData bytes) turn.reaction).Plays handler := by
  obtain ⟨byte, more, rfl⟩ := List.exists_cons_of_ne_nil nonempty
  rw [Turn.hosts, outcome] at hosted
  rw [beq_iff_eq.1 hosted]
  exact plays.callback _

theorem Scan.read_plays (plays : old.Plays handler) (hosted : turn.hosts handler old = true)
    (done : Scan.read old turn = some (conn, remove)) : conn.Plays handler := by
  unfold Scan.read at done
  split at done
  · cases done
    exact plays.onClose
  · rename_i bytes nonempty outcome
    split at done
    · exact (plays.onData hosted outcome nonempty).service done
    · cases done
  · exact plays.service done
  · cases done
    exact plays
  · cases done
    exact plays.onClose

theorem Epoll.handle_plays {bits : Bits} (plays : old.Plays handler)
    (hosted : turn.hosts handler old = true)
    (done : Epoll.handle old bits turn = some (conn, remove)) : conn.Plays handler := by
  unfold Epoll.handle at done
  split at done
  · cases done
    exact plays.onClose
  · obtain ⟨⟨middle, removed⟩, first, rest⟩ := Option.bind_eq_some_iff.1 done
    have read : middle.Plays handler := by
      unfold Epoll.readPart at first
      split at first
      · split at first
        · cases first
          exact plays.onClose
        · rename_i bytes nonempty outcome
          split at first <;> cases first
          exact plays.onData hosted outcome nonempty
        · cases first
          exact plays
        · cases first
          exact plays
        · cases first
          exact plays.onClose
      · cases first
        exact plays
    cases removed with
    | true =>
        cases rest
        exact read
    | false => exact read.service rest

end Turns

/-- Every connection of a hosting scan. -/
theorem Scan.plays_of_run {handler : Handler S} {s : Scan}
    (run : Reach Scan.step (fun s a => s.hosts handler a = true) .start s) :
    ∀ c ∈ s.conns ++ s.dropped, c.Plays handler := by
  refine run.invariant (P := fun s => ∀ c ∈ s.conns ++ s.dropped, c.Plays handler)
    (fun _ member => by cases member) ?_
  intro s a t plays hosted moved
  refine (effect_of_step moved).forall_mem ?_ ?_ plays
  · rintro conn remove ⟨reaction, writes, rfl, served⟩
    obtain rfl : reaction = handler.react [] .onOpen := beq_iff_eq.1 hosted
    exact (Conn.plays_opened s.accepted).service served
  · rintro old conn remove before ⟨turn, rfl, visited, done⟩
    rw [hosts, visited] at hosted
    exact read_plays before hosted done

/-- Every connection of a hosting epoll loop. -/
theorem Epoll.plays_of_run {handler : Handler S} {listenFd : Nat} {s : Epoll}
    (run : Reach Epoll.step (fun s a => s.hosts handler a = true) (.start listenFd) s) :
    ∀ c ∈ s.live ++ s.dropped, c.Plays handler := by
  refine run.invariant (P := fun s => ∀ c ∈ s.live ++ s.dropped, c.Plays handler)
    (fun _ member => by cases member) ?_
  intro s a t plays hosted moved
  refine (effect_of_step moved).forall_mem ?_ ?_ plays
  · rintro conn remove ⟨fd, reaction, writes, succeeds, flushed, failed, rfl, done, -, rfl⟩
    obtain rfl : reaction = handler.react [] .onOpen := beq_iff_eq.1 hosted
    have opened := (Conn.plays_opened s.accepted).tryFlush done
    split
    · exact opened.onClose
    · exact opened
  · rintro old conn remove before ⟨bits, turn, handles, done⟩
    obtain ⟨succeeds, -, -, rfl, -⟩ := event_of_handled handles
    rw [hosts, handles] at hosted
    exact handle_plays before hosted done

/-! ### What the peers have sent -/

/-- What the handlers were given and what the queues hold is what has arrived. -/
structure Ledger (conns : List Conn) (accepted : Nat) (sockets : Nat → Socket) : Prop where
  once : (conns.map Conn.id).Perm (List.range accepted)
  balance : ∀ c ∈ conns, c.received ++ (sockets c.id).queue = (sockets c.id).arrived
  unaccepted : ∀ id, accepted ≤ id → (sockets id).queue = (sockets id).arrived

namespace Ledger

variable {conns conns' rest : List Conn} {accepted : Nat} {sockets sockets' : Nat → Socket}
  {old conn : Conn} {socket : Socket}

theorem start : Ledger [] 0 fun _ => .fresh where
  once := .refl _
  balance _ member := by cases member
  unaccepted _ _ := rfl

theorem congr (ledger : Ledger conns accepted sockets) (same : conns'.Perm conns) :
    Ledger conns' accepted sockets where
  once := (same.map _).trans ledger.once
  balance c member := ledger.balance c (same.mem_iff.1 member)
  unaccepted := ledger.unaccepted

/-- Peers move. -/
theorem grow (ledger : Ledger conns accepted sockets)
    (grown : ∀ id, (sockets id).Grown (sockets' id)) : Ledger conns accepted sockets' where
  once := ledger.once
  balance c member := by
    obtain ⟨bytes, arrived, queue⟩ := (grown c.id).appended
    rw [arrived, queue, ← List.append_assoc, ledger.balance c member]
  unaccepted id late := by
    obtain ⟨bytes, arrived, queue⟩ := (grown id).appended
    rw [arrived, queue, ledger.unaccepted id late]

/-- A new connection has received nothing. -/
theorem comeIn (ledger : Ledger conns accepted sockets) (id : conn.id = accepted)
    (nothing : conn.received = []) : Ledger (conn :: conns) (accepted + 1) sockets where
  once := by
    rw [List.map_cons, id]
    exact CallbackGrammar.range_succ_perm ledger.once
  balance c member := by
    rcases List.mem_cons.1 member with rfl | member
    · rw [nothing, List.nil_append, id]
      exact ledger.unaccepted accepted le_rfl
    · exact ledger.balance c member
  unaccepted id late := ledger.unaccepted id (by omega)

/-- A turn moves bytes from the queue of its connection to the handler. -/
theorem turn (ledger : Ledger (old :: rest) accepted sockets) (id : conn.id = old.id)
    (fed : conn.received ++ socket.queue = old.received ++ (sockets old.id).queue)
    (arrived : socket.arrived = (sockets old.id).arrived) :
    Ledger (conn :: rest) accepted (setSocket sockets old.id socket) := by
  have once := ledger.once
  rw [List.map_cons] at once
  have apart : ∀ c ∈ rest, c.id ≠ old.id := by
    intro c member same
    exact (List.nodup_cons.1 (once.nodup_iff.2 List.nodup_range)).1
      (same ▸ List.mem_map_of_mem member)
  refine ⟨by rw [List.map_cons, id]; exact once, fun c member => ?_, fun other late => ?_⟩
  · rcases List.mem_cons.1 member with rfl | member
    · rw [setSocket, id, Function.update_self, arrived, fed]
      exact ledger.balance old List.mem_cons_self
    · rw [setSocket, Function.update_of_ne (apart c member)]
      exact ledger.balance c (List.mem_cons_of_mem _ member)
  · have inside := List.mem_range.1 (once.mem_iff.1 List.mem_cons_self)
    rw [setSocket, Function.update_of_ne (by omega)]
    exact ledger.unaccepted other late

end Ledger

/-- What a turn does to the bytes of its connection. -/
structure Fed (old conn : Conn) (socket socket' : Socket) : Prop where
  id : conn.id = old.id
  balance : conn.received ++ socket'.queue = old.received ++ socket.queue
  arrived : socket'.arrived = socket.arrived

namespace Fed

variable {old conn conn' : Conn} {socket socket' : Socket} {writes : List WriteOutcome} {remove : Bool}

theorem keep : Fed old old socket socket := ⟨rfl, rfl, rfl⟩

theorem received_onClose (conn : Conn) : conn.onClose.received = conn.received := by
  rw [Conn.onClose, Conn.received_callback, Callback.bytes, List.append_nil]

theorem close (fed : Fed old conn socket socket') : Fed old conn.onClose socket socket' :=
  ⟨fed.id, by rw [received_onClose]; exact fed.balance, fed.arrived⟩

/-- A flush touches no byte that came in. -/
theorem tryFlush {failed : Bool} (fed : Fed old conn socket socket')
    (flushed : conn.tryFlush writes = some (conn', failed)) : Fed old conn' socket socket' := by
  obtain ⟨id, calls⟩ := Conn.tryFlush_spec flushed
  exact ⟨id.trans fed.id, by rw [Conn.received, calls]; exact fed.balance, fed.arrived⟩

theorem service (fed : Fed old conn socket socket')
    (served : conn.service writes = some (conn', remove)) : Fed old conn' socket socket' := by
  rw [Conn.service, Option.map_eq_some_iff] at served
  obtain ⟨⟨flushed, failed⟩, done, ends⟩ := served
  have still := fed.tryFlush done
  dsimp only at ends
  split at ends <;> cases ends
  · exact still.close
  · exact still

/-- Bytes were read and handed over. -/
theorem data {bytes : List UInt8} {reaction : List IoCall} (nonempty : bytes ≠ [])
    (read : socket.read (.ok bytes) = some socket') :
    Fed old (old.callback (.onData bytes) reaction) socket socket' := by
  obtain ⟨byte, more, rfl⟩ := List.exists_cons_of_ne_nil nonempty
  obtain ⟨queued, rfl⟩ := guarded read
  obtain ⟨left, queue⟩ := List.isPrefixOf_iff_prefix.1 queued
  refine ⟨rfl, ?_, rfl⟩
  rw [Conn.received_callback, List.append_assoc]
  simp only [Callback.bytes]
  rw [← queue, List.drop_left]

end Fed

/-- A read that returned no bytes leaves its socket as it is. -/
theorem Socket.read_same {socket socket' : Socket} {outcome : ReadOutcome}
    (read : socket.read outcome = some socket') (nothing : ∀ bytes, outcome = .ok bytes → bytes = []) :
    socket' = socket := by
  unfold Socket.read at read
  split at read
  · exact (guarded read).2
  · rename_i bytes some_
    exact absurd (nothing bytes rfl) (fun none => some_ none)
  · exact (guarded read).2
  · cases read
    rfl
  · exact (guarded read).2

theorem Scan.read_fed {old conn : Conn} {remove : Bool} {turn : Turn} {socket socket' : Socket}
    (done : Scan.read old turn = some (conn, remove))
    (read : socket.read turn.read = some socket') : Fed old conn socket socket' := by
  unfold Scan.read at done
  split at done <;> rename_i outcome <;> rw [outcome] at read
  · cases Socket.read_same read (by simp)
    cases done
    exact Fed.keep.close
  · rename_i bytes nonempty
    split at done
    · exact (Fed.data (fun none => nonempty none) read).service done
    · cases done
  · cases Socket.read_same read (by simp)
    exact Fed.keep.service done
  · cases Socket.read_same read (by simp)
    cases done
    exact .keep
  · cases Socket.read_same read (by simp)
    cases done
    exact Fed.keep.close

theorem Epoll.handle_fed {old conn : Conn} {remove : Bool} {bits : Bits} {turn : Turn}
    {socket socket' : Socket} (done : Epoll.handle old bits turn = some (conn, remove))
    (read : (if !bits.ended && bits.input then socket.read turn.read else some socket) =
      some socket') : Fed old conn socket socket' := by
  unfold Epoll.handle at done
  split at done
  · rename_i reported
    simp only [reported, Bool.not_true, Bool.false_and, Bool.false_eq_true, if_false] at read
    cases read
    cases done
    exact Fed.keep.close
  · rename_i reported
    rw [Bool.not_eq_true] at reported
    simp only [reported, Bool.not_false, Bool.true_and] at read
    obtain ⟨⟨middle, removed⟩, first, rest⟩ := Option.bind_eq_some_iff.1 done
    have fed : Fed old middle socket socket' := by
      unfold Epoll.readPart at first
      split at first
      · rename_i input
        rw [if_pos input] at read
        split at first <;> rename_i outcome <;> rw [outcome] at read
        · cases Socket.read_same read (by simp)
          cases first
          exact Fed.keep.close
        · rename_i bytes nonempty
          split at first <;> cases first
          exact Fed.data (fun none => nonempty none) read
        · cases Socket.read_same read (by simp)
          cases first
          exact .keep
        · cases Socket.read_same read (by simp)
          cases first
          exact .keep
        · cases Socket.read_same read (by simp)
          cases first
          exact Fed.keep.close
      · rename_i input
        rw [if_neg input] at read
        cases read
        cases first
        exact .keep
    cases removed with
    | true =>
        cases rest
        exact fed
    | false => exact fed.service rest

/-- A new connection has received nothing, whatever it is greeted with. -/
theorem Fed.onOpen (id : Nat) (reaction : List IoCall) (socket : Socket) :
    Fed (.new id) ((Conn.new id).callback .onOpen reaction) socket socket :=
  ⟨rfl, rfl, rfl⟩

theorem Fed.nothing {id : Nat} {conn : Conn} {socket : Socket} (fed : Fed (.new id) conn socket socket) :
    conn.id = id ∧ conn.received = [] :=
  ⟨fed.id, List.append_left_eq_self.1 fed.balance⟩

/-- A step without a read. -/
theorem Ledger.idle {opens : Conn → Bool → Prop} {turns : Conn → Conn → Bool → Prop}
    {live dropped live' dropped' : List Conn} {accepted accepted' : Nat} {sockets : Nat → Socket}
    (ledger : Ledger (live ++ dropped) accepted sockets)
    (effect : Effect opens turns live dropped accepted live' dropped' accepted')
    (opened : ∀ conn remove, opens conn remove → conn.id = accepted ∧ conn.received = [])
    (still : ∀ old conn remove, ¬ turns old conn remove) :
    Ledger (live' ++ dropped') accepted' sockets := by
  cases effect with
  | same => exact ledger
  | comeIn came after =>
      obtain ⟨id, nothing⟩ := opened _ _ came
      exact (ledger.comeIn id nothing).congr (after.append_right _)
  | reject came =>
      obtain ⟨id, nothing⟩ := opened _ _ came
      exact (ledger.comeIn id nothing).congr List.perm_middle
  | keep turned | drop turned => exact absurd turned (still _ _ _)

/-- The connection of the turn goes through it and stays or is dropped. -/
theorem Ledger.served {live live' dropped rest : List Conn} {old conn : Conn} {accepted : Nat}
    {sockets : Nat → Socket} {socket : Socket} (remove : Bool)
    (ledger : Ledger (live ++ dropped) accepted sockets) (before : live.Perm (old :: rest))
    (fed : Fed old conn (sockets old.id) socket)
    (after : live'.Perm (if remove then rest else conn :: rest)) :
    Ledger (live' ++ if remove then conn :: dropped else dropped) accepted
      (setSocket sockets old.id socket) := by
  have first := ledger.congr (before.append_right dropped).symm
  refine (first.turn fed.id fed.balance fed.arrived).congr ?_
  cases remove with
  | true => exact (after.append_right _).trans List.perm_middle
  | false => exact after.append_right _

namespace Scan

variable {s t : Network Scan}

theorem ledger_visit {turn : Turn}
    (ledger : Ledger (s.reactor.conns ++ s.reactor.dropped) s.reactor.accepted s.sockets)
    (read : Network.readStep s.sockets (s.reactor.reads (.visit turn)) = some t.sockets)
    (moved : s.reactor.step (.visit turn) = some t.reactor) :
    Ledger (t.reactor.conns ++ t.reactor.dropped) t.reactor.accepted t.sockets := by
  obtain ⟨reactor, sockets'⟩ := t
  simp only [Scan.step] at moved
  split at moved
  · rename_i i stands
    split at moved
    · rename_i old found
      simp only [Scan.reads, stands, found, Option.map_some] at read
      obtain ⟨socket, outcome, rfl⟩ := Option.map_eq_some_iff.1 read
      obtain ⟨⟨conn, remove⟩, done, rfl⟩ := Option.map_eq_some_iff.1 moved
      obtain ⟨inside, rfl⟩ := List.getElem?_eq_some_iff.1 found
      have before := (List.getElem_cons_eraseIdx_perm inside).symm
      have fed := Scan.read_fed done outcome
      cases remove with
      | true => exact ledger.served true before fed (swapRemove_perm inside)
      | false => exact ledger.served false before fed (List.set_perm_cons_eraseIdx inside conn)
    · cases moved
  · cases moved

theorem ledger_step {a : ScanAct}
    (ledger : Ledger (s.reactor.conns ++ s.reactor.dropped) s.reactor.accepted s.sockets)
    (read : Network.readStep s.sockets (s.reactor.reads a) = some t.sockets)
    (moved : s.reactor.step a = some t.reactor) :
    Ledger (t.reactor.conns ++ t.reactor.dropped) t.reactor.accepted t.sockets := by
  cases a with
  | visit turn => exact ledger_visit ledger read moved
  | load | accept | passEnds =>
      rw [← show s.sockets = t.sockets from Option.some.inj read]
      refine ledger.idle (effect_of_step moved) ?_ ?_
      · rintro conn remove ⟨reaction, writes, _, served⟩
        exact ((Fed.onOpen _ reaction .fresh).service served).nothing
      · rintro old conn remove ⟨turn, never, _⟩
        cases never

end Scan

namespace Epoll

variable {s t : Network Epoll}

theorem ledger_step {a : EpollAct}
    (ledger : Ledger (s.reactor.live ++ s.reactor.dropped) s.reactor.accepted s.sockets)
    (read : Network.readStep s.sockets (s.reactor.reads a) = some t.sockets)
    (moved : s.reactor.step a = some t.reactor) :
    Ledger (t.reactor.live ++ t.reactor.dropped) t.reactor.accepted t.sockets := by
  obtain ⟨reactor, sockets'⟩ := t
  cases handles : s.reactor.handled a with
  | none =>
      rw [Epoll.reads, handles] at read
      cases read
      refine ledger.idle (effect_of_step moved) ?_ ?_
      · rintro conn remove ⟨fd, reaction, writes, succeeds, flushed, failed, _, done, -, rfl⟩
        have fed := (Fed.onOpen _ reaction .fresh).tryFlush done
        split
        · exact fed.close.nothing
        · exact fed.nothing
      · rintro old conn remove ⟨bits, turn, found, _⟩
        rw [handles] at found
        cases found
  | some handled =>
      obtain ⟨old, bits, turn⟩ := handled
      obtain ⟨succeeds, fd, events, rfl, stands, apart, found⟩ := event_of_handled handles
      obtain ⟨socket, rfl, outcome⟩ := readStep_handled handles read
      simp only [Epoll.step, stands, if_neg apart, found] at moved
      obtain ⟨⟨conn, remove⟩, done, rfl⟩ := Option.map_eq_some_iff.1 moved
      have before := (lookup_perm found).map Prod.snd
      have fed := handle_fed done outcome
      cases remove with
      | true => exact ledger.served true before fed (.refl _)
      | false => exact ledger.served false before fed (.refl _)

end Epoll

/-! ### What the peers are sent -/

/-- The reactor's part of a run next to the sockets. -/
theorem Network.reactor_run {R A : Type*} {reactorStep : R → A → Option R}
    {reads : R → A → Option (Nat × ReadOutcome)} {hosted : R → A → Bool} {s t : Network R}
    (run : Reach (Network.step reactorStep reads fun s a => hosted s.reactor a) Free s t) :
    Reach reactorStep (fun s a => hosted s a = true) s.reactor t.reactor := by
  refine run.project Network.reactor fun u a v _ moved => ?_
  rcases Network.step_cases moved with ⟨_, reactor, _⟩ | ⟨b, _, hosts, _, stepped⟩
  · rw [reactor]
    exact .refl _
  · exact .single hosts stepped

theorem Scan.ledger_of_run {handler : Handler S} {s : Network Scan}
    (run : Reach (scanServer handler) Free .startScan s) :
    Ledger (s.reactor.conns ++ s.reactor.dropped) s.reactor.accepted s.sockets := by
  refine run.invariant (P := fun s =>
    Ledger (s.reactor.conns ++ s.reactor.dropped) s.reactor.accepted s.sockets) .start ?_
  intro s a t ledger _ moved
  rcases Network.step_cases moved with ⟨_, reactor, grown⟩ | ⟨b, _, _, read, stepped⟩
  · rw [reactor]
    exact ledger.grow grown
  · exact Scan.ledger_step ledger read stepped

theorem Epoll.ledger_of_run {handler : Handler S} {listenFd : Nat} {s : Network Epoll}
    (run : Reach (epollServer handler) Free (.startEpoll listenFd) s) :
    Ledger (s.reactor.live ++ s.reactor.dropped) s.reactor.accepted s.sockets := by
  refine run.invariant (P := fun s =>
    Ledger (s.reactor.live ++ s.reactor.dropped) s.reactor.accepted s.sockets) .start ?_
  intro s a t ledger _ moved
  rcases Network.step_cases moved with ⟨_, reactor, grown⟩ | ⟨b, _, _, read, stepped⟩
  · rw [reactor]
    exact ledger.grow grown
  · exact Epoll.ledger_step ledger read stepped

/-- What the peer was sent is the beginning of `answer`, and all of it once nothing waits in the socket's
    queue nor in the output buffer. -/
structure Answered (answer : List UInt8) (socket : Socket) (conn : Conn) : Prop where
  begins : conn.sent <+: answer
  whole : socket.queue = [] → conn.io.out = [] → conn.sent = answer

namespace Handler

variable {handler : Handler S} {reply : List UInt8 → List UInt8}

/-- The answer to more bytes goes on where that to fewer ends. -/
theorem Streaming.reply_prefix (streaming : handler.Streaming reply) {bytes bytes' : List UInt8}
    (longer : bytes <+: bytes') : reply bytes <+: reply bytes' := by
  obtain ⟨more, rfl⟩ := longer
  have one := streaming [bytes]
  have two := streaming [bytes, more]
  rw [List.flatten_cons, List.flatten_nil, List.append_nil] at one
  rw [List.flatten_cons, List.flatten_cons, List.flatten_nil, List.append_nil] at two
  rw [← one, ← two]
  exact writtenBy_prefix (Transducer.output_prefix ⟨[.onData more], rfl⟩)

/-- The answer to `on_close` is none. -/
theorem output_onClose (calls : List Callback) :
    handler.machine.output (calls ++ [.onClose]) = handler.machine.output calls := by
  rw [Transducer.output, Transducer.run_concat]
  exact List.append_nil _

/-- The callbacks of a connection, in their order, were answered with the reply to its bytes. -/
theorem Streaming.output_calls (streaming : handler.Streaming reply) {conn : Conn}
    (lawful : conn.Opened ∨ conn.Closed) :
    writtenBy (handler.machine.output conn.calls) = reply conn.received := by
  have data : ∀ chunks : List (List UInt8),
      (Callback.onOpen :: chunks.map .onData).flatMap Callback.bytes = chunks.flatten := by
    intro chunks
    rw [List.flatMap_cons, List.flatMap_map]
    exact List.flatMap_id'
  rcases lawful with ⟨chunks, calls⟩ | ⟨chunks, calls⟩
  · rw [Conn.received, calls, data]
    exact streaming chunks
  · have nothing : [Callback.onClose].flatMap Callback.bytes = [] := rfl
    rw [Conn.received, calls, output_onClose, List.flatMap_append, data, nothing, List.append_nil]
    exact streaming chunks

end Handler

/-- One connection: it plays the handler, its output is balanced and its bytes are accounted for. -/
theorem Conn.Plays.answered {handler : Handler S} {reply : List UInt8 → List UInt8}
    (streaming : handler.Streaming reply) {conn : Conn} {socket : Socket}
    (plays : conn.Plays handler) (balanced : conn.Balanced) (lawful : conn.Opened ∨ conn.Closed)
    (balance : conn.received ++ socket.queue = socket.arrived) :
    Answered (reply socket.arrived) socket conn := by
  rw [Conn.Plays, streaming.output_calls lawful] at plays
  rw [Conn.Balanced, plays] at balanced
  constructor
  · rw [← balance]
    exact .trans ⟨_, balanced⟩ (streaming.reply_prefix (List.prefix_append _ _))
  · intro read flushed
    rw [flushed, List.append_nil] at balanced
    rw [read, List.append_nil] at balance
    rw [balanced, balance]

theorem Scan.answered_of_run {handler : Handler S} {reply : List UInt8 → List UInt8}
    (streaming : handler.Streaming reply) {s : Network Scan}
    (run : Reach (scanServer handler) Free .startScan s) :
    ∀ c ∈ s.reactor.conns ++ s.reactor.dropped,
      Answered (reply (s.sockets c.id).arrived) (s.sockets c.id) c := by
  have hosted := Network.reactor_run run
  have free := @Reach.weaken _ _ _ _ Free _ _ hosted fun _ _ _ => trivial
  have grammar := (Lawful.of_run free).grammar
  intro c member
  refine (plays_of_run hosted c member).answered streaming (balanced_of_run free c member) ?_
    ((ledger_of_run run).balance c member)
  rcases List.mem_append.1 member with live | gone
  · exact .inl (grammar.opened c live)
  · exact .inr (grammar.closed c gone)

theorem Epoll.answered_of_run {handler : Handler S} {reply : List UInt8 → List UInt8}
    (streaming : handler.Streaming reply) {listenFd : Nat} {s : Network Epoll}
    (run : Reach (epollServer handler) Free (.startEpoll listenFd) s) :
    ∀ c ∈ s.reactor.live ++ s.reactor.dropped,
      Answered (reply (s.sockets c.id).arrived) (s.sockets c.id) c := by
  have hosted := Network.reactor_run run
  have free := @Reach.weaken _ _ _ _ Free _ _ hosted fun _ _ _ => trivial
  have grammar := grammar_of_run free
  intro c member
  refine (plays_of_run hosted c member).answered streaming (balanced_of_run free c member) ?_
    ((ledger_of_run run).balance c member)
  rcases List.mem_append.1 member with live | gone
  · exact .inl (grammar.opened c live)
  · exact .inr (grammar.closed c gone)

/-- Whatever the peers do and however the kernel cuts reads and writes, both reactors send every peer the
    beginning of the reply to what it has sent, and the whole reply once everything was read and
    flushed; then two connections with the same history were sent the same by both. -/
theorem replies_of_run {handler : Handler S} {reply : List UInt8 → List UInt8}
    (streaming : handler.Streaming reply) {s : Network Scan} {t : Network Epoll} {listenFd : Nat}
    (scan : Reach (scanServer handler) Free .startScan s)
    (epoll : Reach (epollServer handler) Free (.startEpoll listenFd) t) :
    (∀ c ∈ s.reactor.conns ++ s.reactor.dropped,
      Answered (reply (s.sockets c.id).arrived) (s.sockets c.id) c) ∧
      (∀ d ∈ t.reactor.live ++ t.reactor.dropped,
        Answered (reply (t.sockets d.id).arrived) (t.sockets d.id) d) ∧
      ∀ c ∈ s.reactor.conns ++ s.reactor.dropped, ∀ d ∈ t.reactor.live ++ t.reactor.dropped,
        (s.sockets c.id).arrived = (t.sockets d.id).arrived →
          (s.sockets c.id).queue = [] → c.io.out = [] →
            (t.sockets d.id).queue = [] → d.io.out = [] → c.sent = d.sent := by
  have scanned := Scan.answered_of_run streaming scan
  have handled := Epoll.answered_of_run streaming epoll
  refine ⟨scanned, handled, fun c member d member' history read flushed read' flushed' => ?_⟩
  rw [(scanned c member).whole read flushed, (handled d member').whole read' flushed', history]

/-- The handler that writes back what it is given. -/
def echo : Handler Unit where
  factory := ()
  onOpen _ := ((), [])
  onData _ bytes := ((), [.write bytes])
  onClose _ := ()

theorem echo_streaming : echo.Streaming id := by
  intro chunks
  have given : ∀ chunks : List (List UInt8),
      writtenBy (echo.machine.run () (chunks.map .onData)).2 = chunks.flatten := by
    intro chunks
    induction chunks with
    | nil => rfl
    | cons chunk chunks inductionHypothesis =>
        exact congrArg (chunk ++ ·) inductionHypothesis
  exact given chunks

/-- Three bytes come in two segments; the socket takes two of them back, and then the last one. -/
def scannedEcho : List (NetworkAct ScanAct) :=
  [.reactor (.load false), .reactor (.accept (.stream true) [] []), .arrive 0 [1],
    .reactor (.accept .wouldBlock [] []), .reactor (.visit ⟨.ok [1], [.write [1]], [.wouldBlock]⟩),
    .reactor .passEnds, .arrive 0 [2, 3], .reactor (.load false),
    .reactor (.accept .wouldBlock [] []),
    .reactor (.visit ⟨.ok [2, 3], [.write [2, 3]], [.ok 2, .ok 1]⟩)]

/-- The epoll loop reads them at once, and the socket takes one of them. -/
def handledEcho : List (NetworkAct EpollAct) :=
  acceptedAndSent ++
    [.reactor (.load false), .reactor (.waited [(4, ⟨true, false, false, false⟩)]),
      .reactor (.event ⟨.ok [1, 2, 3], [.write [1, 2, 3]], [.ok 1, .wouldBlock]⟩ true)]

theorem replies_of_run_echo :
    ∃ s t, exec (scanServer echo) .startScan scannedEcho = some s ∧
      exec (epollServer echo) (.startEpoll 3) handledEcho = some t ∧
      s.reactor.conns.map Conn.sent = [[1, 2, 3]] ∧ t.reactor.live.map Conn.sent = [[1]] ∧
      (∀ c ∈ s.reactor.conns ++ s.reactor.dropped,
        Answered (s.sockets c.id).arrived (s.sockets c.id) c) ∧
      ∀ d ∈ t.reactor.live ++ t.reactor.dropped,
        Answered (t.sockets d.id).arrived (t.sockets d.id) d := by
  obtain ⟨s, scanned, sent⟩ : ∃ s, exec (scanServer echo) .startScan scannedEcho = some s ∧
      s.reactor.conns.map Conn.sent = [[1, 2, 3]] := ⟨_, rfl, rfl⟩
  obtain ⟨t, handled, sent'⟩ : ∃ t, exec (epollServer echo) (.startEpoll 3) handledEcho = some t ∧
      t.reactor.live.map Conn.sent = [[1]] := ⟨_, rfl, rfl⟩
  obtain ⟨one, two, _⟩ :=
    replies_of_run echo_streaming (reach_of_exec scanned) (reach_of_exec handled)
  exact ⟨s, t, scanned, handled, sent, sent', one, two⟩

/-! ### `Framed` -/

/-- A `FramedConnection`: what `factory()` makes, and for each callback what the handler keeps and the
    calls it makes on its `Io`. -/
structure FrameHandler (S : Type*) where
  factory : S
  onOpen : S → S × List IoCall
  onFrame : S → List UInt8 → S × List IoCall
  onClose : S → S

namespace FrameHandler

/-- The handler as a machine over its frames, once it is open. -/
def frames (handler : FrameHandler S) : Transducer S (List UInt8) IoCall where
  start := (handler.onOpen handler.factory).1
  step := handler.onFrame

/-- `Framed::new(inner)` as a `Connection`: the handler and the buffer. -/
def framed (handler : FrameHandler S) (codec : Codec) : Handler (S × List UInt8) where
  factory := (handler.factory, [])
  onOpen state := (((handler.onOpen state.1).1, state.2), (handler.onOpen state.1).2)
  onData := (handler.frames.behind codec).step
  onClose state := (handler.onClose state.1, state.2)

/-- What the handler does to an `Io`. -/
def connection (handler : FrameHandler S) : FramedConnection S where
  onFrame inner frame io :=
    ((handler.onFrame inner frame).1, (handler.onFrame inner frame).2.foldl Io.call io)

/-- The calls that answer a whole stream of bytes. -/
def reply (handler : FrameHandler S) (codec : Codec) (bytes : List UInt8) : List IoCall :=
  (handler.onOpen handler.factory).2 ++ (handler.frames.behind codec).output [bytes]

/-- The calls that answer these requests. -/
def answers (handler : FrameHandler S) (requests : List (List UInt8)) : List IoCall :=
  (handler.onOpen handler.factory).2 ++ handler.frames.output requests

variable {handler : FrameHandler S} {codec : Codec}

/-- The loop that acts on the `Io` makes the calls that the machine collects. -/
theorem drain_connection (handled : Handled S) (buf : List UInt8) :
    let drained := codec.drain handler.connection.handle handled buf
    let collected := codec.drain handler.frames.collect (handled.inner, []) buf
    drained.1.inner = collected.1.1 ∧ drained.1.io = collected.1.2.foldl Io.call handled.io ∧
      drained.2 = collected.2 := by
  induction handled, buf using Decoder.drain_induction codec handler.connection.handle with
  | waiting handled buf decoded =>
      dsimp only
      rw [Decoder.drain_of_none decoded, Decoder.drain_of_none decoded]
      exact ⟨rfl, rfl, rfl⟩
  | taken handled buf frame rest decoded inductionHypothesis =>
      dsimp only at inductionHypothesis ⊢
      obtain ⟨inner, io, buffer⟩ := inductionHypothesis
      rw [Decoder.drain_of_some decoded, Decoder.drain_of_some decoded]
      have first : handler.frames.collect (handled.inner, []) frame =
        ((handler.onFrame handled.inner frame).1, (handler.onFrame handled.inner frame).2) := rfl
      rw [first, Transducer.drain_collect, List.foldl_append]
      exact ⟨inner, io, buffer⟩

/-- `framed` does to its handler, its buffer and its `Io` what `Session.onData` does. -/
theorem framed_onData (session : Session S) (chunk : List UInt8) :
    let made := (handler.framed codec).onData (session.handled.inner, session.buf) chunk
    let after := session.onData codec handler.connection chunk
    (after.handled.inner, after.buf) = made.1 ∧
      after.handled.io = made.2.foldl Io.call session.handled.io := by
  obtain ⟨inner, io, buffer⟩ :=
    @drain_connection _ handler codec session.handled (session.buf ++ chunk)
  exact ⟨Prod.ext inner buffer, io⟩

/-- A framed handler does not see how its bytes are cut. -/
theorem framed_streaming (handler : FrameHandler S) (codec : Codec) :
    (handler.framed codec).Streaming fun bytes => writtenBy (handler.reply codec bytes) := by
  intro chunks
  refine congrArg writtenBy ?_
  have given : (handler.framed codec).machine.run (handler.frames.start, []) (chunks.map .onData) =
      (handler.frames.behind codec).run (handler.frames.start, []) chunks :=
    Transducer.run_map (f := Callback.onData) (fun _ _ => rfl) _ _
  rw [reply, Transducer.behind_output, List.flatten_cons, List.flatten_nil, List.append_nil,
    ← Transducer.behind_output, Transducer.output, show (handler.frames.behind codec).start =
      (handler.frames.start, []) from rfl, ← given]
  rfl

/-- The reply to a stream of pieces and an unfinished rest answers the requests they stand for. -/
theorem reply_pieces {Piece : List UInt8 → List UInt8 → Prop} (reads : codec.Reads Piece)
    {requests pieces : List (List UInt8)} {rest : List UInt8}
    (stand : List.Forall₂ Piece requests pieces) (waiting : codec.decode rest = none) :
    handler.reply codec (pieces.flatten ++ rest) = handler.answers requests := by
  rw [reply, answers, Transducer.behind_output_pieces reads stand waiting]
  rw [List.flatten_cons, List.flatten_nil, List.append_nil]

end FrameHandler

/-- A client that has sent these requests, and perhaps a part of the next, in whatever segments, is sent
    the beginning of the handler's answers to them, and all answers once everything was read and
    flushed; on either reactor, with any codec that reads a grammar of pieces. -/
theorem requests_answered {handler : FrameHandler S} {codec : Codec}
    {Piece : List UInt8 → List UInt8 → Prop} (reads : codec.Reads Piece) {s : Network Scan}
    {t : Network Epoll} {listenFd : Nat}
    (scan : Reach (scanServer (handler.framed codec)) Free .startScan s)
    (epoll : Reach (epollServer (handler.framed codec)) Free (.startEpoll listenFd) t)
    {requests pieces : List (List UInt8)} {rest : List UInt8}
    (stand : List.Forall₂ Piece requests pieces) (waiting : codec.decode rest = none) :
    (∀ c ∈ s.reactor.conns ++ s.reactor.dropped,
      (s.sockets c.id).arrived = pieces.flatten ++ rest →
        Answered (writtenBy (handler.answers requests)) (s.sockets c.id) c) ∧
      ∀ d ∈ t.reactor.live ++ t.reactor.dropped,
        (t.sockets d.id).arrived = pieces.flatten ++ rest →
          Answered (writtenBy (handler.answers requests)) (t.sockets d.id) d := by
  have streaming := handler.framed_streaming codec
  rw [← FrameHandler.reply_pieces reads stand waiting]
  constructor
  · intro c member arrived
    rw [← arrived]
    exact Scan.answered_of_run streaming scan c member
  · intro d member arrived
    rw [← arrived]
    exact Epoll.answered_of_run streaming epoll d member

/-- It writes back the payload of each frame, counts them, and greets first. -/
def echoFrames : FrameHandler Nat where
  factory := 0
  onOpen count := (count, [.write [33]])
  onFrame count frame := (count + 1, [.write frame])
  onClose count := count

/-- A whole frame with the payload 7, and the beginning of the next one. -/
def requested : List UInt8 := [0, 0, 0, 1, 7, 0, 0]

theorem echoFrames_onData :
    (echoFrames.framed LengthPrefixed.codec).onData (0, []) requested =
      ((1, [0, 0]), [.write [7]]) := by
  have taken : LengthPrefixed.codec.decode requested = some ([7], [0, 0]) := rfl
  have waiting : LengthPrefixed.codec.decode [0, 0] = none := rfl
  have drained (start : Nat × List IoCall) :
      LengthPrefixed.codec.drain echoFrames.frames.collect start requested =
        (echoFrames.frames.collect start [7], [0, 0]) := by
    rw [Decoder.drain_of_some taken, Decoder.drain_of_none waiting]
  have made := drained (0, [])
  rw [← List.nil_append requested] at made
  exact congrArg (fun drained => ((drained.1.1, drained.2), drained.1.2)) made

/-- The turn that reads it. -/
def requestTurn (writes : List WriteOutcome) : Turn := ⟨.ok requested, [.write [7]], writes⟩

theorem requestTurn_hosts (writes : List WriteOutcome) {conn : Conn}
    (opened : conn.calls = [.onOpen]) :
    (requestTurn writes).hosts (echoFrames.framed LengthPrefixed.codec) conn = true := by
  have answer : (echoFrames.framed LengthPrefixed.codec).react [.onOpen] (.onData requested) =
      [.write [7]] := congrArg Prod.snd echoFrames_onData
  rw [Turn.hosts, opened]
  exact beq_iff_eq.2 answer.symm

/-- The peer of a scanned connection is greeted and sends it. -/
def scannedRequest : List (NetworkAct ScanAct) :=
  [.reactor (.load false), .reactor (.accept (.stream true) [.write [33]] [.ok 1]),
    .arrive 0 requested, .reactor (.accept .wouldBlock [] [])]

/-- So does the peer of a connection of the epoll loop. -/
def handledRequest : List (NetworkAct EpollAct) :=
  [.reactor (.load false), .reactor (.waited [(3, ⟨true, false, false, false⟩)]),
    .reactor (.event ⟨.wouldBlock, [], []⟩ true),
    .reactor (.accept (.stream true) 4 [.write [33]] [.wouldBlock] true),
    .reactor (.accept .wouldBlock 0 [] [] true), .reactor .batchEnds, .arrive 0 requested,
    .reactor (.load false), .reactor (.waited [(4, ⟨true, false, false, false⟩)])]

theorem requests_answered_echo :
    ∃ s t, Reach (scanServer (echoFrames.framed LengthPrefixed.codec)) Free .startScan s ∧
      Reach (epollServer (echoFrames.framed LengthPrefixed.codec)) Free (.startEpoll 3) t ∧
      s.reactor.conns.map Conn.sent = [[33, 7]] ∧ t.reactor.live.map Conn.sent = [[33]] ∧
      (∀ c ∈ s.reactor.conns ++ s.reactor.dropped, (s.sockets c.id).arrived = requested →
        Answered [33, 7] (s.sockets c.id) c) ∧
      ∀ d ∈ t.reactor.live ++ t.reactor.dropped, (t.sockets d.id).arrived = requested →
        Answered [33, 7] (t.sockets d.id) d := by
  obtain ⟨s₁, scanned, s, moved, sent⟩ : ∃ s₁, exec (scanServer (echoFrames.framed
      LengthPrefixed.codec)) .startScan scannedRequest = some s₁ ∧
      ∃ s, scanServer (echoFrames.framed LengthPrefixed.codec) s₁
        (.reactor (.visit (requestTurn [.ok 1]))) = some s ∧
        s.reactor.conns.map Conn.sent = [[33, 7]] :=
    ⟨_, rfl, _, if_pos (requestTurn_hosts [.ok 1] rfl), rfl⟩
  obtain ⟨t₁, handled, t, moved', sent'⟩ : ∃ t₁, exec (epollServer (echoFrames.framed
      LengthPrefixed.codec)) (.startEpoll 3) handledRequest = some t₁ ∧
      ∃ t, epollServer (echoFrames.framed LengthPrefixed.codec) t₁
        (.reactor (.event (requestTurn [.ok 1, .wouldBlock]) true)) = some t ∧
        t.reactor.live.map Conn.sent = [[33]] :=
    ⟨_, rfl, _, if_pos (requestTurn_hosts [.ok 1, .wouldBlock] rfl), rfl⟩
  have scan := (reach_of_exec scanned).tail trivial moved
  have epoll := (reach_of_exec handled).tail trivial moved'
  have stand : List.Forall₂ (fun payload piece => payload.length < 2 ^ 32 ∧
      piece = LengthPrefixed.encode payload) [[7]] [[0, 0, 0, 1, 7]] :=
    .cons ⟨by decide, rfl⟩ .nil
  obtain ⟨one, two⟩ := requests_answered LengthPrefixed.reads scan epoll stand
    (show LengthPrefixed.codec.decode [0, 0] = none from rfl)
  exact ⟨s, t, scan, epoll, sent, sent', one, two⟩

end AetherFlow.Net
