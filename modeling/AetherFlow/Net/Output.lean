/-
Module: AetherFlow.Net.Output
Purpose: What becomes of the bytes a handler writes. On every connection the bytes the socket took and
  those still queued are the bytes that were written, in order, whatever the partial writes were. A
  connection that is removed because its handler asked for it has sent everything. One whose peer has
  ended its stream, or whose event reports a hang-up, is removed at once, with what is still queued.
Trusted boundary: none
Main exports: Conn.Balanced, Cause, Cause.Explains, output_integrity, AllSent, Scan.flushed,
  Epoll.flushed, allSent_iff_flushed
-/
import AetherFlow.Net.Moves

namespace AetherFlow.Net

open Transition

/-! ### One connection -/

namespace Conn

/-- The bytes the socket took and those still queued are the bytes that were written, in order. -/
def Balanced (conn : Conn) : Prop := conn.sent ++ conn.io.out = conn.written

theorem out_foldl_call (io : Io) (reaction : List IoCall) :
    (reaction.foldl Io.call io).out = io.out ++ reaction.flatMap IoCall.bytes := by
  induction reaction generalizing io with
  | nil => rw [List.foldl_nil, List.flatMap_nil, List.append_nil]
  | cons call reaction inductionHypothesis =>
      rw [List.foldl_cons, inductionHypothesis, List.flatMap_cons, ← List.append_assoc]
      cases call with
      | write bytes => rfl
      | close =>
          rw [IoCall.bytes, List.append_nil]
          rfl

theorem balanced_new (id : Nat) : (new id).Balanced := rfl

/-- Whatever a handler does to its `Io` in a callback. -/
theorem Balanced.callback {conn : Conn} (balanced : conn.Balanced) (name : Callback)
    (reaction : List IoCall) : (conn.callback name reaction).Balanced := by
  unfold Balanced at balanced ⊢
  rw [Conn.callback, out_foldl_call, ← List.append_assoc, balanced]

@[simp] theorem onClose_io (conn : Conn) : conn.onClose.io = conn.io := rfl

theorem Balanced.onClose {conn : Conn} (balanced : conn.Balanced) : conn.onClose.Balanced :=
  balanced.callback .onClose []

/-- What a flush does: it moves bytes from the queue to the socket, and it fails only with bytes left
    and because a write has failed. -/
structure Flushed (conn : Conn) (outcomes : List WriteOutcome) (conn' : Conn) (failed : Bool) :
    Prop where
  balanced : conn.Balanced → conn'.Balanced
  close : conn'.io.close = conn.io.close
  failed : failed = true → .failed ∈ outcomes ∧ conn'.io.out ≠ []

theorem Flushed.rest {conn : Conn} {outcomes : List WriteOutcome} :
    Flushed conn outcomes conn false :=
  ⟨fun balanced => balanced, rfl, fun failed => by cases failed⟩

/-- The bytes of a partial write leave the queue at its front. -/
theorem Balanced.write {conn : Conn} (balanced : conn.Balanced) (n : Nat) :
    Balanced { conn with
      io := { conn.io with out := conn.io.out.drop n }
      sent := conn.sent ++ conn.io.out.take n } := by
  unfold Balanced at balanced ⊢
  rw [List.append_assoc, List.take_append_drop]
  exact balanced

theorem flushed_of_tryFlush {conn conn' : Conn} {failed : Bool} {outcomes : List WriteOutcome}
    (flushed : conn.tryFlush outcomes = some (conn', failed)) : Flushed conn outcomes conn' failed := by
  induction outcomes generalizing conn with
  | nil =>
      simp only [tryFlush] at flushed
      split at flushed <;> cases flushed
      exact .rest
  | cons outcome outcomes inductionHypothesis =>
      simp only [tryFlush] at flushed
      split at flushed
      · cases flushed
      · rename_i pending
        split at flushed
        · split at flushed <;> cases flushed
          exact .rest
        · split at flushed <;> cases flushed
          exact .rest
        · split at flushed
          · have later := inductionHypothesis flushed
            refine ⟨fun balanced => later.balanced (balanced.write _), later.close, fun fails => ?_⟩
            exact ⟨List.mem_cons_of_mem _ (later.failed fails).1, (later.failed fails).2⟩
          · cases flushed
        · have later := inductionHypothesis flushed
          refine ⟨later.balanced, later.close, fun fails => ?_⟩
          exact ⟨List.mem_cons_of_mem _ (later.failed fails).1, (later.failed fails).2⟩
        · split at flushed <;> cases flushed
          refine ⟨fun balanced => balanced, rfl, fun _ => ⟨List.mem_cons_self, ?_⟩⟩
          exact fun empty => pending (by rw [empty]; rfl)

theorem closingDone_iff {conn : Conn} :
    conn.closingDone = true ↔ conn.io.close = true ∧ conn.io.out = [] := by
  rw [closingDone, Bool.and_eq_true, List.isEmpty_iff]

end Conn

/-! ### Why a connection is removed -/

/-- Why a connection is removed. -/
inductive Cause where
  /-- A read returned 0. -/
  | peerClosed
  | readFailed
  /-- The event has `EPOLLHUP` or `EPOLLERR`. -/
  | hungUp
  | writeFailed
  /-- Its handler has called `Io::close`. -/
  | closeRequested
deriving DecidableEq

/-- The cause of a removal after a flush with these outcomes. -/
def flushCause (writes : List WriteOutcome) : Cause :=
  if .failed ∈ writes then .writeFailed else .closeRequested

/-- The cause of a removal in a turn that reads. -/
def Turn.cause (turn : Turn) : Cause :=
  match turn.read with
  | .ok [] => .peerClosed
  | .failed => .readFailed
  | .ok (_ :: _) | .wouldBlock | .interrupted => flushCause turn.writes

/-- The cause of a removal in the handling of an event. -/
def Bits.cause (bits : Bits) (turn : Turn) : Cause :=
  if bits.ended then .hungUp else if bits.input then turn.cause else flushCause turn.writes

/-- Why the scan removes a connection in this step, if it does. -/
def ScanAct.cause : ScanAct → Option Cause
  | .accept _ _ writes => some (flushCause writes)
  | .visit turn => some turn.cause
  | .load _ | .passEnds => none

/-- Why the epoll loop removes a connection in this step, if it does. -/
def Epoll.cause (s : Epoll) : EpollAct → Option Cause
  | .accept _ _ _ writes _ => some (flushCause writes)
  | .event turn succeeds => (s.handled (.event turn succeeds)).map fun (_, bits, turn) => bits.cause turn
  | .load _ | .waitFailed _ | .waited _ | .batchEnds => none

/-- What the cause says about the connection when it is removed, which was `old` before the step. -/
def Cause.Explains (old conn : Conn) : Cause → Prop
  | .closeRequested => conn.io.close = true ∧ conn.io.out = []
  | .peerClosed | .readFailed | .hungUp => conn.io = old.io
  | .writeFailed => True

/-- A flush without a failed write removes a connection only when it is done with it. -/
theorem explains_flushCause {old conn : Conn} {writes : List WriteOutcome}
    (done : .failed ∉ writes → conn.io.close = true ∧ conn.io.out = []) :
    (flushCause writes).Explains old conn := by
  unfold flushCause
  split
  · exact trivial
  · rename_i fine
    exact done fine

/-- What a turn makes of a connection and of its output. -/
structure Settled (cause : Cause) (old conn : Conn) (remove : Bool) : Prop where
  balanced : old.Balanced → conn.Balanced
  removed : remove = true → cause.Explains old conn

namespace Settled

variable {old conn conn' : Conn} {remove : Bool} {writes : List WriteOutcome}

theorem keep (cause : Cause) (conn : Conn) : Settled cause conn conn false :=
  ⟨fun balanced => balanced, fun never => by cases never⟩

/-- `on_close` without a flush. -/
theorem close {cause : Cause} (conn : Conn) (unflushed : cause.Explains conn conn.onClose) :
    Settled cause conn conn.onClose true :=
  ⟨fun balanced => balanced.onClose, fun _ => unflushed⟩

/-- `service`, at the end of a turn that began with `old`. -/
theorem service (balanced : old.Balanced → conn.Balanced)
    (served : conn.service writes = some (conn', remove)) :
    Settled (flushCause writes) old conn' remove := by
  rw [Conn.service, Option.map_eq_some_iff] at served
  obtain ⟨⟨flushed, failed⟩, done, ends⟩ := served
  have flush := Conn.flushed_of_tryFlush done
  dsimp only at ends
  split at ends <;> cases ends
  · rename_i closes
    refine ⟨fun before => (flush.balanced (balanced before)).onClose, fun _ => ?_⟩
    refine explains_flushCause fun fine => ?_
    have complete : flushed.closingDone = true := by
      rcases Bool.or_eq_true_iff.1 closes with failed | complete
      · exact absurd (flush.failed failed).1 fine
      · exact complete
    exact Conn.closingDone_iff.1 complete
  · exact ⟨fun before => flush.balanced (balanced before), fun never => by cases never⟩

end Settled

/-- A turn of the scanning loop. -/
theorem Scan.read_settled {old conn : Conn} {remove : Bool} {turn : Turn}
    (done : Scan.read old turn = some (conn, remove)) : Settled turn.cause old conn remove := by
  unfold Scan.read at done
  unfold Turn.cause
  cases outcome : turn.read with
  | ok bytes =>
      rw [outcome] at done
      cases bytes with
      | nil =>
          cases done
          exact .close old rfl
      | cons byte bytes =>
          dsimp only at done ⊢
          split at done
          · exact .service (fun before => before.callback _ _) done
          · cases done
  | wouldBlock =>
      rw [outcome] at done
      exact .service (fun before => before) done
  | interrupted =>
      rw [outcome] at done
      cases done
      exact .keep _ old
  | failed =>
      rw [outcome] at done
      cases done
      exact .close old rfl

/-- The part of an event under `EPOLLIN`: it removes the connection without a flush, or leaves the rest
    to one. -/
theorem Epoll.readPart_settled {old conn : Conn} {remove : Bool} {bits : Bits} {turn : Turn}
    (done : Epoll.readPart old bits turn = some (conn, remove)) :
    (old.Balanced → conn.Balanced) ∧
      if remove then bits.input = true ∧ turn.cause.Explains old conn
      else bits.input = true → turn.cause = flushCause turn.writes := by
  unfold Epoll.readPart at done
  unfold Turn.cause
  split at done
  · rename_i input
    cases outcome : turn.read with
    | ok bytes =>
        rw [outcome] at done
        cases bytes with
        | nil =>
            cases done
            exact ⟨fun before => before.onClose, input, rfl⟩
        | cons byte bytes =>
            dsimp only at done
            split at done <;> cases done
            exact ⟨fun before => before.callback _ _, fun _ => rfl⟩
    | wouldBlock | interrupted =>
        rw [outcome] at done
        cases done
        exact ⟨fun before => before, fun _ => rfl⟩
    | failed =>
        rw [outcome] at done
        cases done
        exact ⟨fun before => before.onClose, input, rfl⟩
  · rename_i quiet
    cases done
    exact ⟨fun before => before, fun input => absurd input quiet⟩

/-- The handling of an event. -/
theorem Epoll.handle_settled {old conn : Conn} {remove : Bool} {bits : Bits} {turn : Turn}
    (done : Epoll.handle old bits turn = some (conn, remove)) :
    Settled (bits.cause turn) old conn remove := by
  unfold Epoll.handle at done
  unfold Bits.cause
  split at done
  · rename_i ended
    cases done
    rw [if_pos ended]
    exact .close old rfl
  · rename_i ended
    rw [if_neg ended]
    obtain ⟨⟨middle, removed⟩, first, rest⟩ := Option.bind_eq_some_iff.1 done
    obtain ⟨balanced, why⟩ := Epoll.readPart_settled first
    cases removed with
    | true =>
        cases rest
        obtain ⟨input, explained⟩ := why
        rw [if_pos input]
        exact ⟨balanced, fun _ => explained⟩
    | false =>
        have cause : (if bits.input = true then turn.cause else flushCause turn.writes) =
            flushCause turn.writes := by
          split
          · rename_i input
            exact why input
          · rfl
        rw [cause]
        exact .service balanced rest

/-! ### All connections -/

/-- Connection `conn` is removed for `cause`; `served` is the connection the step is about. -/
def Removal (served : Option Conn) (cause : Option Cause) (conn : Conn) : Prop :=
  ∃ why old, cause = some why ∧ why.Explains old conn ∧
    (why = .peerClosed ∨ why = .hungUp → served = some old)

theorem flushCause_ne {writes : List WriteOutcome} :
    ¬ (flushCause writes = .peerClosed ∨ flushCause writes = .hungUp) := by
  unfold flushCause
  split <;> simp

namespace Scan

theorem opens_settled {s : Scan} {a : ScanAct} {conn : Conn} {remove : Bool}
    (opened : s.Opens a conn remove) :
    conn.Balanced ∧ (remove = true → Removal s.visited a.cause conn) := by
  obtain ⟨reaction, writes, rfl, served⟩ := opened
  have settled : Settled (flushCause writes) (Conn.new s.accepted) conn remove :=
    .service (fun before => before.callback .onOpen reaction) served
  refine ⟨settled.balanced (Conn.balanced_new s.accepted), fun removed => ?_⟩
  exact ⟨_, Conn.new s.accepted, rfl, settled.removed removed, fun ended => absurd ended flushCause_ne⟩

theorem turns_settled {s : Scan} {a : ScanAct} {old conn : Conn} {remove : Bool}
    (turned : s.Turns a old conn remove) :
    (old.Balanced → conn.Balanced) ∧ (remove = true → Removal s.visited a.cause conn) := by
  obtain ⟨turn, rfl, visited, done⟩ := turned
  have settled := read_settled done
  exact ⟨settled.balanced, fun removed => ⟨_, old, rfl, settled.removed removed, fun _ => visited⟩⟩

theorem balanced_step {s t : Scan} {a : ScanAct} (balanced : ∀ c ∈ s.conns ++ s.dropped, c.Balanced)
    (moved : s.step a = some t) : ∀ c ∈ t.conns ++ t.dropped, c.Balanced := by
  refine (effect_of_step moved).forall_mem ?_ ?_ balanced
  · exact fun conn remove opened => (opens_settled opened).1
  · exact fun old conn remove before turned => (turns_settled turned).1 before

theorem balanced_of_run {s : Scan} (run : Reach Scan.step Free .start s) :
    ∀ c ∈ s.conns ++ s.dropped, c.Balanced :=
  run.invariant (P := fun s => ∀ c ∈ s.conns ++ s.dropped, c.Balanced)
    (fun _ member => by cases member) fun _ _ _ balanced _ moved => balanced_step balanced moved

/-- A step drops no connection, or one for its cause. -/
theorem removal_of_step {s t : Scan} {a : ScanAct} (moved : s.step a = some t) :
    t.dropped = s.dropped ∨ ∃ c, t.dropped = c :: s.dropped ∧ Removal s.visited a.cause c := by
  rcases (effect_of_step moved).dropped_cases with same | ⟨c, gone, opened | ⟨old, turned⟩⟩
  · exact .inl same
  · exact .inr ⟨c, gone, (opens_settled opened).2 rfl⟩
  · exact .inr ⟨c, gone, (turns_settled turned).2 rfl⟩

end Scan

namespace Epoll

/-- The connection that the step is about. -/
def served (s : Epoll) (a : EpollAct) : Option Conn := (s.handled a).map Prod.fst

theorem opens_settled {s : Epoll} {a : EpollAct} {conn : Conn} {remove : Bool}
    (opened : s.Opens a conn remove) :
    conn.Balanced ∧ (remove = true → Removal (s.served a) (s.cause a) conn) := by
  obtain ⟨fd, reaction, writes, succeeds, flushed, failed, rfl, done, rfl, rfl⟩ := opened
  have flush := Conn.flushed_of_tryFlush done
  have balanced := flush.balanced ((Conn.balanced_new s.accepted).callback .onOpen reaction)
  cases ends : flushed.closingDone with
  | true =>
      refine ⟨balanced.onClose, fun _ => ?_⟩
      refine ⟨_, flushed, rfl, ?_, fun ended => absurd ended flushCause_ne⟩
      exact explains_flushCause fun _ => Conn.closingDone_iff.1 ends
  | false => exact ⟨balanced, fun never => by cases never⟩

theorem turns_settled {s : Epoll} {a : EpollAct} {old conn : Conn} {remove : Bool}
    (turned : s.Turns a old conn remove) :
    (old.Balanced → conn.Balanced) ∧ (remove = true → Removal (s.served a) (s.cause a) conn) := by
  obtain ⟨bits, turn, handled, done⟩ := turned
  have settled := handle_settled done
  refine ⟨settled.balanced, fun removed => ?_⟩
  have cause : s.cause a = some (bits.cause turn) := by
    cases a with
    | event turn succeeds => simp only [Epoll.cause, handled, Option.map_some]
    | load | waitFailed | waited | accept | batchEnds => cases handled
  exact ⟨_, old, cause, settled.removed removed, fun _ => by rw [served, handled]; rfl⟩

theorem balanced_step {s t : Epoll} {a : EpollAct} (balanced : ∀ c ∈ s.live ++ s.dropped, c.Balanced)
    (moved : s.step a = some t) : ∀ c ∈ t.live ++ t.dropped, c.Balanced := by
  refine (effect_of_step moved).forall_mem ?_ ?_ balanced
  · exact fun conn remove opened => (opens_settled opened).1
  · exact fun old conn remove before turned => (turns_settled turned).1 before

theorem balanced_of_run {listenFd : Nat} {s : Epoll}
    (run : Reach Epoll.step Free (.start listenFd) s) : ∀ c ∈ s.live ++ s.dropped, c.Balanced :=
  run.invariant (P := fun s => ∀ c ∈ s.live ++ s.dropped, c.Balanced)
    (fun _ member => by cases member) fun _ _ _ balanced _ moved => balanced_step balanced moved

/-- A step drops no connection, or one for its cause. -/
theorem removal_of_step {s t : Epoll} {a : EpollAct} (moved : s.step a = some t) :
    t.dropped = s.dropped ∨
      ∃ c, t.dropped = c :: s.dropped ∧ Removal (s.served a) (s.cause a) c := by
  rcases (effect_of_step moved).dropped_cases with same | ⟨c, gone, opened | ⟨old, turned⟩⟩
  · exact .inl same
  · exact .inr ⟨c, gone, (opens_settled opened).2 rfl⟩
  · exact .inr ⟨c, gone, (turns_settled turned).2 rfl⟩

end Epoll

theorem Conn.Balanced.sent {conn : Conn} (balanced : conn.Balanced) (empty : conn.io.out = []) :
    conn.sent = conn.written := by
  unfold Balanced at balanced
  rwa [empty, List.append_nil] at balanced

/-- A connection whose removal was asked for has sent all it was given. -/
theorem sent_of_closeRequested {dropped dropped' : List Conn} {served : Option Conn}
    {cause : Option Cause} {conn : Conn}
    (changed : dropped' = dropped ∨ ∃ c, dropped' = c :: dropped ∧ Removal served cause c)
    (gone : dropped' = conn :: dropped) (balanced : conn.Balanced)
    (asked : cause = some .closeRequested) :
    conn.io.close = true ∧ conn.sent = conn.written := by
  rcases changed with same | ⟨c, gone', why, old, cause, explained, _⟩
  · rw [same] at gone
    exact absurd gone (List.cons_ne_self _ _).symm
  · rw [gone] at gone'
    cases gone'
    rw [asked] at cause
    cases cause
    exact ⟨explained.1, balanced.sent explained.2⟩

/-- In every state of both reactors, what the sockets took and what is queued is what was written; and a
    connection that a step removes because its handler asked for it has sent everything. -/
theorem output_integrity {s : Scan} {t : Epoll} {listenFd : Nat}
    (scan : Reach Scan.step Free .start s) (epoll : Reach Epoll.step Free (.start listenFd) t) :
    ((∀ c ∈ s.conns ++ s.dropped, c.sent ++ c.io.out = c.written) ∧
      ∀ a s' c, s.step a = some s' → s'.dropped = c :: s.dropped →
        a.cause = some .closeRequested → c.io.close = true ∧ c.sent = c.written) ∧
    (∀ c ∈ t.live ++ t.dropped, c.sent ++ c.io.out = c.written) ∧
      ∀ a t' c, t.step a = some t' → t'.dropped = c :: t.dropped →
        t.cause a = some .closeRequested → c.io.close = true ∧ c.sent = c.written := by
  refine ⟨⟨Scan.balanced_of_run scan, ?_⟩, Epoll.balanced_of_run epoll, ?_⟩
  · intro a s' c moved gone cause
    have balanced := Scan.balanced_of_run (scan.tail trivial moved) c (by simp [gone])
    exact sent_of_closeRequested (Scan.removal_of_step moved) gone balanced cause
  · intro a t' c moved gone cause
    have balanced := Epoll.balanced_of_run (epoll.tail trivial moved) c (by simp [gone])
    exact sent_of_closeRequested (Epoll.removal_of_step moved) gone balanced cause

/-- A greeting of three bytes is written in two parts, and the connection is closed behind it. -/
def scannedUntilSent : List ScanAct :=
  [.load false, .accept (.stream true) [.write [1, 2], .close, .write [3]] [.ok 1, .wouldBlock],
    .accept .wouldBlock [] []]

/-- The same on the epoll loop, which is told that the socket can take more. -/
def handledUntilSent : List EpollAct :=
  [.load false, .waited [(3, ⟨true, false, false, false⟩)], .event ⟨.wouldBlock, [], []⟩ true,
    .accept (.stream true) 4 [.write [1, 2], .close, .write [3]] [.ok 1, .wouldBlock] true,
    .accept .wouldBlock 0 [] [] true, .batchEnds, .load false,
    .waited [(4, ⟨false, true, false, false⟩)]]

theorem output_integrity_sent :
    ∃ s t s' t' c d, exec Scan.step .start scannedUntilSent = some s ∧
      exec Epoll.step (.start 3) handledUntilSent = some t ∧
      s.step (.visit ⟨.wouldBlock, [], [.interrupted, .ok 2]⟩) = some s' ∧ s'.dropped = [c] ∧
      t.step (.event ⟨.wouldBlock, [], [.interrupted, .ok 2]⟩ true) = some t' ∧ t'.dropped = [d] ∧
      c.written = [1, 2, 3] ∧ c.sent = c.written ∧ d.sent = d.written := by
  obtain ⟨s, s', c, scanned, moved, nothing, gone, written⟩ : ∃ s s' c,
      exec Scan.step .start scannedUntilSent = some s ∧
      s.step (.visit ⟨.wouldBlock, [], [.interrupted, .ok 2]⟩) = some s' ∧ s.dropped = [] ∧
      s'.dropped = [c] ∧ c.written = [1, 2, 3] := ⟨_, _, _, rfl, rfl, rfl, rfl, rfl⟩
  obtain ⟨t, t', d, handled, moved', nothing', gone', cause⟩ : ∃ t t' d,
      exec Epoll.step (.start 3) handledUntilSent = some t ∧
      t.step (.event ⟨.wouldBlock, [], [.interrupted, .ok 2]⟩ true) = some t' ∧ t.dropped = [] ∧
      t'.dropped = [d] ∧
      t.cause (.event ⟨.wouldBlock, [], [.interrupted, .ok 2]⟩ true) = some .closeRequested :=
    ⟨_, _, _, rfl, rfl, rfl, rfl, rfl⟩
  obtain ⟨⟨_, scan⟩, _, epoll⟩ := output_integrity (reach_of_exec scanned) (reach_of_exec handled)
  refine ⟨s, t, s', t', c, d, scanned, handled, moved, gone, moved', gone', written, ?_, ?_⟩
  · exact (scan _ _ c moved (by rw [nothing, gone]) rfl).2
  · exact (epoll _ _ d moved' (by rw [nothing', gone']) cause).2

/-! ### The end of the peer's stream -/

/-- The step is no end of a stream or hang-up that finds output queued. -/
def flushedBefore (served : Option Conn) (cause : Option Cause) : Bool :=
  match cause, served with
  | some .peerClosed, some conn | some .hungUp, some conn => conn.io.out.isEmpty
  | _, _ => true

theorem flushedBefore_eq_false_iff {served : Option Conn} {cause : Option Cause} :
    flushedBefore served cause = false ↔
      ∃ conn, served = some conn ∧ (cause = some .peerClosed ∨ cause = some .hungUp) ∧
        conn.io.out ≠ [] := by
  rcases cause with _ | (_ | _ | _ | _ | _) <;> rcases served with _ | conn <;>
    simp [flushedBefore]

/-- No write of the step fails, and no read. -/
def ScanAct.faultless : ScanAct → Bool
  | .accept _ _ writes => !writes.contains .failed
  | .visit turn => turn.read != .failed && !turn.writes.contains .failed
  | .load _ | .passEnds => true

def EpollAct.faultless : EpollAct → Bool
  | .accept _ _ _ writes _ => !writes.contains .failed
  | .event turn _ => turn.read != .failed && !turn.writes.contains .failed
  | .load _ | .waitFailed _ | .waited _ | .batchEnds => true

/-- `scan_reactor` where no read and no write fails. -/
def Scan.faultlessStep (s : Scan) (a : ScanAct) : Option Scan := if a.faultless then s.step a else none

/-- `epoll_reactor` where no read and no write fails. -/
def Epoll.faultlessStep (s : Epoll) (a : EpollAct) : Option Epoll :=
  if a.faultless then s.step a else none

/-- Whenever a read of the scan reports the end of a stream, that connection's output is all sent. -/
def Scan.flushed (s : Scan) (a : ScanAct) : Bool := flushedBefore s.visited a.cause

/-- Whenever a read of the epoll loop reports the end of a stream, or an event a hang-up, that
    connection's output is all sent. -/
def Epoll.flushed (s : Epoll) (a : EpollAct) : Bool := flushedBefore (s.served a) (s.cause a)

/-- Nothing was queued on the connections when they were dropped, so everything written was sent. -/
def AllSent (dropped : List Conn) : Prop := ∀ c ∈ dropped, c.io.out = [] ∧ c.sent = c.written

theorem flushCause_of_fine {writes : List WriteOutcome} (fine : writes.contains .failed = false) :
    flushCause writes = .closeRequested := by
  rw [flushCause, if_neg]
  simpa using fine

theorem Turn.cause_of_fine {turn : Turn} (read : turn.read ≠ .failed)
    (fine : turn.writes.contains .failed = false) :
    turn.cause = .peerClosed ∨ turn.cause = .closeRequested := by
  unfold Turn.cause
  split
  · exact .inl rfl
  · rename_i failed
    exact absurd failed read
  all_goals exact .inr (flushCause_of_fine fine)

/-- Without faults a removed connection's queue is what the end of its stream found. -/
theorem Removal.out {served : Option Conn} {cause : Option Cause} {conn : Conn}
    (removal : Removal served cause conn) (flushed : flushedBefore served cause = true)
    (read : cause ≠ some .readFailed) (write : cause ≠ some .writeFailed) : conn.io.out = [] := by
  obtain ⟨why, old, rfl, explained, about⟩ := removal
  cases why with
  | readFailed => exact absurd rfl read
  | writeFailed => exact absurd rfl write
  | closeRequested => exact explained.2
  | peerClosed =>
      rw [about (.inl rfl)] at flushed
      rw [show conn.io = old.io from explained]
      exact List.isEmpty_iff.1 flushed
  | hungUp =>
      rw [about (.inr rfl)] at flushed
      rw [show conn.io = old.io from explained]
      exact List.isEmpty_iff.1 flushed

namespace AllSent

variable {dropped dropped' : List Conn} {served : Option Conn} {cause : Option Cause}

theorem of_removal (before : AllSent dropped)
    (changed : dropped' = dropped ∨ ∃ c, dropped' = c :: dropped ∧ Removal served cause c)
    (balanced : ∀ c ∈ dropped', c.Balanced) (flushed : flushedBefore served cause = true)
    (read : cause ≠ some .readFailed) (write : cause ≠ some .writeFailed) : AllSent dropped' := by
  rcases changed with rfl | ⟨c, rfl, removal⟩
  · exact before
  · refine List.forall_mem_cons.2 ⟨?_, before⟩
    have empty := removal.out flushed read write
    exact ⟨empty, (balanced c List.mem_cons_self).sent empty⟩

theorem mono (after : AllSent dropped')
    (changed : dropped' = dropped ∨ ∃ c, dropped' = c :: dropped ∧ Removal served cause c) :
    AllSent dropped := by
  rcases changed with rfl | ⟨c, rfl, _⟩
  · exact after
  · exact (List.forall_mem_cons.1 after).2

/-- Every run of a reactor whose steps remove connections for their causes, and drop what an end of a
    stream finds unsent. -/
theorem iff_execChecked {σ α : Type*} {step : σ → α → Option σ} (live dropped : σ → List Conn)
    (served : σ → α → Option Conn) (cause : σ → α → Option Cause)
    (balanced : ∀ u a v, (∀ c ∈ live u ++ dropped u, c.Balanced) → step u a = some v →
      ∀ c ∈ live v ++ dropped v, c.Balanced)
    (removal : ∀ u a v, step u a = some v → dropped v = dropped u ∨
      ∃ c, dropped v = c :: dropped u ∧ Removal (served u a) (cause u a) c)
    (faultless : ∀ u a v, step u a = some v →
      cause u a ≠ some .readFailed ∧ cause u a ≠ some .writeFailed)
    (drops : ∀ u a v, flushedBefore (served u a) (cause u a) = false → step u a = some v →
      ∃ c ∈ dropped v, c.io.out ≠ [])
    {labels : List α} {s t : σ} (nobody : live s = []) (nothing : dropped s = [])
    (executed : exec step s labels = some t) :
    AllSent (dropped t) ↔
      execChecked step (fun s a => flushedBefore (served s a) (cause s a) = true) s labels =
        some t := by
  refine good_iff_execChecked (fun s a => flushedBefore (served s a) (cause s a) = true)
    (P := fun s => ∀ c ∈ live s ++ dropped s, c.Balanced) (Q := fun s => AllSent (dropped s))
    balanced ?_ ?_ ?_ ?_ ?_ executed
  · intro u a v before flushed moved sent
    obtain ⟨read, write⟩ := faultless u a v moved
    have after := balanced u a v before moved
    exact sent.of_removal (removal u a v moved)
      (fun c member => after c (List.mem_append_right _ member)) flushed read write
  · intro u a v _ unflushed moved sent
    obtain ⟨c, member, pending⟩ := drops u a v (Bool.not_eq_true _ ▸ unflushed) moved
    exact pending (sent c member).1
  · intro u a v _ unsent moved sent
    exact unsent (sent.mono (removal u a v moved))
  · rw [nobody, nothing]
    exact fun _ member => by cases member
  · rw [nothing]
    exact fun _ member => by cases member

end AllSent

namespace Scan

theorem cause_of_faultless {a : ScanAct} (faultless : a.faultless = true) :
    a.cause ≠ some .readFailed ∧ a.cause ≠ some .writeFailed := by
  cases a with
  | load | passEnds => exact ⟨nofun, nofun⟩
  | accept outcome reaction writes =>
      have fine : writes.contains .failed = false := by simpa [ScanAct.faultless] using faultless
      simp [ScanAct.cause, flushCause_of_fine fine]
  | visit turn =>
      obtain ⟨read, fine⟩ := Bool.and_eq_true_iff.1 faultless
      rcases turn.cause_of_fine (bne_iff_ne.1 read) (Bool.not_eq_true' _ ▸ fine) with cause | cause
      · simp [ScanAct.cause, cause]
      · simp [ScanAct.cause, cause]

/-- A read that returns 0 drops the connection with everything that is queued. -/
theorem drops_of_unflushed {s t : Scan} {a : ScanAct} (unflushed : s.flushed a = false)
    (moved : s.step a = some t) : ∃ c ∈ t.dropped, c.io.out ≠ [] := by
  obtain ⟨old, visited, ended, pending⟩ := flushedBefore_eq_false_iff.1 unflushed
  cases a with
  | load | passEnds => rcases ended with never | never <;> cases never
  | accept outcome reaction writes =>
      simp only [ScanAct.cause, Option.some.injEq] at ended
      exact absurd ended flushCause_ne
  | visit turn =>
      simp only [ScanAct.cause, Option.some.injEq] at ended
      have read : turn.read = .ok [] := by
        unfold Turn.cause at ended
        split at ended
        · rename_i read
          exact read
        · rcases ended with never | never <;> cases never
        all_goals exact absurd ended flushCause_ne
      unfold Scan.visited at visited
      split at visited
      · rename_i i stands
        simp only [step, stands, visited, Scan.read, read, Option.map_some] at moved
        cases moved
        exact ⟨_, List.mem_cons_self, pending⟩
      · cases visited

theorem allSent_iff {labels : List ScanAct} {s : Scan}
    (executed : exec Scan.faultlessStep .start labels = some s) :
    AllSent s.dropped ↔
      execChecked Scan.faultlessStep (fun s a => s.flushed a = true) .start labels = some s := by
  refine AllSent.iff_execChecked Scan.conns Scan.dropped (fun s _ => s.visited) (fun _ a => a.cause)
    ?_ ?_ ?_ ?_ rfl rfl executed
  all_goals
    intro u a v
    unfold Scan.faultlessStep
    rw [Option.ite_none_right_eq_some]
  · exact fun balanced moved => balanced_step balanced moved.2
  · exact fun moved => removal_of_step moved.2
  · exact fun moved => cause_of_faultless moved.1
  · exact fun unflushed moved => drops_of_unflushed unflushed moved.2

end Scan

namespace Epoll

theorem cause_of_faultless {s : Epoll} {a : EpollAct} (faultless : a.faultless = true) :
    s.cause a ≠ some .readFailed ∧ s.cause a ≠ some .writeFailed := by
  cases a with
  | load | waitFailed | waited | batchEnds => exact ⟨nofun, nofun⟩
  | accept outcome fd reaction writes succeeds =>
      have fine : writes.contains .failed = false := by simpa [EpollAct.faultless] using faultless
      simp [Epoll.cause, flushCause_of_fine fine]
  | event turn succeeds =>
      obtain ⟨read, fine⟩ := Bool.and_eq_true_iff.1 faultless
      have fine : turn.writes.contains .failed = false := Bool.not_eq_true' _ ▸ fine
      have cause : ∀ bits : Bits, bits.cause turn ≠ .readFailed ∧ bits.cause turn ≠ .writeFailed := by
        intro bits
        unfold Bits.cause
        split
        · exact ⟨nofun, nofun⟩
        · split
          · rcases turn.cause_of_fine (bne_iff_ne.1 read) fine with cause | cause <;> simp [cause]
          · simp [flushCause_of_fine fine]
      simp only [Epoll.cause]
      cases handled : s.handled (.event turn succeeds) with
      | none => exact ⟨nofun, nofun⟩
      | some found =>
          obtain ⟨conn, bits, turn'⟩ := found
          obtain ⟨_, _, _, same, _⟩ := event_of_handled handled
          cases same
          simpa using cause bits

/-- A read that returns 0, or an event with `EPOLLHUP` or `EPOLLERR`, drops the connection with
    everything that is queued. -/
theorem drops_of_unflushed {s t : Epoll} {a : EpollAct} (unflushed : s.flushed a = false)
    (moved : s.step a = some t) : ∃ c ∈ t.dropped, c.io.out ≠ [] := by
  obtain ⟨old, served, ended, pending⟩ := flushedBefore_eq_false_iff.1 unflushed
  obtain ⟨⟨conn, bits, turn⟩, handled, rfl⟩ := Option.map_eq_some_iff.1 served
  obtain ⟨succeeds, fd, events, rfl, stands, other, found⟩ := event_of_handled handled
  simp only [Epoll.cause, handled, Option.map_some, Option.some.injEq] at ended
  have dropped : handle conn bits turn = some (conn.onClose, true) := by
    unfold Bits.cause at ended
    split at ended
    · rename_i closes
      rw [handle, if_pos closes]
    · rename_i closes
      split at ended
      · rename_i input
        unfold Turn.cause at ended
        split at ended
        · rename_i read
          rw [handle, if_neg closes, readPart, if_pos input, read]
          rfl
        · rcases ended with never | never <;> cases never
        all_goals exact absurd ended flushCause_ne
      · exact absurd ended flushCause_ne
  simp only [step, stands, if_neg other, found, dropped, Option.map_some] at moved
  cases moved
  exact ⟨_, List.mem_cons_self, pending⟩

theorem allSent_iff {labels : List EpollAct} {listenFd : Nat} {s : Epoll}
    (executed : exec Epoll.faultlessStep (.start listenFd) labels = some s) :
    AllSent s.dropped ↔
      execChecked Epoll.faultlessStep (fun s a => s.flushed a = true) (.start listenFd) labels =
        some s := by
  refine AllSent.iff_execChecked live dropped served cause ?_ ?_ ?_ ?_ rfl rfl executed
  all_goals
    intro u a v
    unfold Epoll.faultlessStep
    rw [Option.ite_none_right_eq_some]
  · exact fun balanced moved => balanced_step balanced moved.2
  · exact fun moved => removal_of_step moved.2
  · exact fun moved => cause_of_faultless moved.1
  · exact fun unflushed moved => drops_of_unflushed unflushed moved.2

end Epoll

/-- In every run of either reactor in which no read and no write fails, nothing was queued on the
    connections that were dropped, and all they wrote was sent, exactly if every end of a stream and
    every hang-up found the queue of its connection empty. -/
theorem allSent_iff_flushed {scanned : List ScanAct} {handled : List EpollAct} {listenFd : Nat}
    {s : Scan} {t : Epoll} (scan : exec Scan.faultlessStep .start scanned = some s)
    (epoll : exec Epoll.faultlessStep (.start listenFd) handled = some t) :
    (AllSent s.dropped ↔
        execChecked Scan.faultlessStep (fun s a => s.flushed a = true) .start scanned = some s) ∧
      (AllSent t.dropped ↔
        execChecked Epoll.faultlessStep (fun s a => s.flushed a = true) (.start listenFd) handled =
          some t) :=
  ⟨Scan.allSent_iff scan, Epoll.allSent_iff epoll⟩

/-- A handler answers two bytes with two; the socket takes `sent` of them before the peer ends its
    stream. -/
def scannedUntilEnd (outcomes : List WriteOutcome) : List ScanAct :=
  [.load false, .accept (.stream true) [] [], .accept .wouldBlock [] [],
    .visit ⟨.ok [7, 8], [.write [1, 2]], outcomes⟩, .passEnds, .load false,
    .accept .wouldBlock [] [], .visit ⟨.ok [], [], []⟩]

/-- The same on the epoll loop. -/
def handledUntilEnd (outcomes : List WriteOutcome) : List EpollAct :=
  [.load false, .waited [(3, ⟨true, false, false, false⟩)], .event ⟨.wouldBlock, [], []⟩ true,
    .accept (.stream true) 4 [] [] true, .accept .wouldBlock 0 [] [] true, .batchEnds, .load false,
    .waited [(4, ⟨true, false, false, false⟩)],
    .event ⟨.ok [7, 8], [.write [1, 2]], outcomes⟩ true, .batchEnds, .load false,
    .waited [(4, ⟨true, false, false, false⟩)], .event ⟨.ok [], [], []⟩ true]

theorem allSent_of_flushedAnswer :
    ∃ s t, exec Scan.faultlessStep .start (scannedUntilEnd [.ok 1, .ok 1]) = some s ∧
      exec Epoll.faultlessStep (.start 3) (handledUntilEnd [.ok 1, .ok 1]) = some t ∧
      s.dropped.map Conn.sent = [[1, 2]] ∧ t.dropped.map Conn.sent = [[1, 2]] ∧
      AllSent s.dropped ∧ AllSent t.dropped := by
  obtain ⟨s, scanned, sent, checked⟩ : ∃ s,
      exec Scan.faultlessStep .start (scannedUntilEnd [.ok 1, .ok 1]) = some s ∧
        s.dropped.map Conn.sent = [[1, 2]] ∧
        execChecked Scan.faultlessStep (fun s a => s.flushed a = true) .start
          (scannedUntilEnd [.ok 1, .ok 1]) = some s := ⟨_, rfl, rfl, rfl⟩
  obtain ⟨t, handled, sent', checked'⟩ : ∃ t,
      exec Epoll.faultlessStep (.start 3) (handledUntilEnd [.ok 1, .ok 1]) = some t ∧
        t.dropped.map Conn.sent = [[1, 2]] ∧
        execChecked Epoll.faultlessStep (fun s a => s.flushed a = true) (.start 3)
          (handledUntilEnd [.ok 1, .ok 1]) = some t := ⟨_, rfl, rfl, rfl⟩
  obtain ⟨scan, epoll⟩ := allSent_iff_flushed scanned handled
  exact ⟨s, t, scanned, handled, sent, sent', scan.2 checked, epoll.2 checked'⟩

/-- The socket takes one byte of the answer; the peer has ended its stream by the time of the next read,
    and both reactors drop the connection with the second byte queued. -/
theorem half_close_discards_output :
    ∃ s t, exec Scan.faultlessStep .start (scannedUntilEnd [.ok 1, .wouldBlock]) = some s ∧
      exec Epoll.faultlessStep (.start 3) (handledUntilEnd [.ok 1, .wouldBlock]) = some t ∧
      s.dropped.map Conn.written = [[1, 2]] ∧ s.dropped.map Conn.sent = [[1]] ∧
      s.dropped.map (·.io.out) = [[2]] ∧ t.dropped.map Conn.written = [[1, 2]] ∧
      t.dropped.map Conn.sent = [[1]] ∧ t.dropped.map (·.io.out) = [[2]] ∧
      ¬ AllSent s.dropped ∧ ¬ AllSent t.dropped := by
  refine ⟨_, _, rfl, rfl, rfl, rfl, rfl, rfl, rfl, rfl, ?_, ?_⟩
  · intro all
    have empty := (all _ List.mem_cons_self).1
    cases empty
  · intro all
    have empty := (all _ List.mem_cons_self).1
    cases empty

end AetherFlow.Net
