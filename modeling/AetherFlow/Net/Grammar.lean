/-
Module: AetherFlow.Net.Grammar
Purpose: The order of a connection's callbacks. Both reactors hold connections that were opened and not
  closed and have dropped those that were closed, and every accepted connection is on one side
  once; a turn of either loop changes one connection, or moves it to the other side together with
  its `on_close`. In the scan the same account, taken from index `i` on, shows that `swap_remove`
  makes a pass skip nobody and read nobody twice.
Trusted boundary: none
Main exports: Conn.Opened, Conn.Closed, CallbackGrammar, Scan.PassAccount, callback_grammar
-/
import AetherFlow.Net.Moves

namespace AetherFlow.Net

open AetherFlow.System (swapRemove drop_swapRemove_perm)
open Transition

/-! ### One connection -/

namespace Conn

/-- `on_open`, then any number of `on_data`. -/
def Opened (conn : Conn) : Prop :=
  ∃ chunks : List (List UInt8), conn.calls = .onOpen :: chunks.map .onData

/-- `on_open`, then any number of `on_data`, then `on_close`. -/
def Closed (conn : Conn) : Prop :=
  ∃ chunks : List (List UInt8), conn.calls = .onOpen :: chunks.map .onData ++ [.onClose]

theorem opened_new (id : Nat) (reaction : List IoCall) :
    ((new id).callback .onOpen reaction).Opened := ⟨[], rfl⟩

theorem Opened.onData {conn : Conn} (opened : conn.Opened) (bytes : List UInt8)
    (reaction : List IoCall) : (conn.callback (.onData bytes) reaction).Opened := by
  obtain ⟨chunks, calls⟩ := opened
  refine ⟨chunks ++ [bytes], ?_⟩
  rw [callback, calls]
  simp

theorem Opened.onClose {conn : Conn} (opened : conn.Opened) : conn.onClose.Closed := by
  obtain ⟨chunks, calls⟩ := opened
  refine ⟨chunks, ?_⟩
  rw [Conn.onClose, callback, calls]

/-- A flush makes no callback. -/
theorem tryFlush_spec {conn conn' : Conn} {failed : Bool} {outcomes : List WriteOutcome}
    (flushed : conn.tryFlush outcomes = some (conn', failed)) :
    conn'.id = conn.id ∧ conn'.calls = conn.calls := by
  induction outcomes generalizing conn with
  | nil =>
      simp only [tryFlush] at flushed
      split at flushed <;> cases flushed
      exact ⟨rfl, rfl⟩
  | cons outcome outcomes inductionHypothesis =>
      simp only [tryFlush] at flushed
      split at flushed
      · cases flushed
      · split at flushed
        · split at flushed <;> cases flushed
          exact ⟨rfl, rfl⟩
        · split at flushed <;> cases flushed
          exact ⟨rfl, rfl⟩
        · split at flushed
          · have spec := inductionHypothesis flushed
            exact spec
          · cases flushed
        · exact inductionHypothesis flushed
        · split at flushed <;> cases flushed
          exact ⟨rfl, rfl⟩

/-- What a turn may make of a connection: it stays open, or it is removed and was closed. -/
structure Turned (old conn : Conn) (remove : Bool) : Prop where
  id : conn.id = old.id
  calls : if remove then conn.Closed else conn.Opened

theorem Turned.close {conn : Conn} (opened : conn.Opened) : Turned conn conn.onClose true :=
  ⟨rfl, opened.onClose⟩

theorem Turned.keep {conn : Conn} (opened : conn.Opened) : Turned conn conn false := ⟨rfl, opened⟩

/-- `service` calls `on_close` exactly when it says so. -/
theorem service_turned {old conn conn' : Conn} {remove : Bool} {writes : List WriteOutcome}
    (same : conn.id = old.id) (opened : conn.Opened)
    (served : conn.service writes = some (conn', remove)) : Turned old conn' remove := by
  rw [service, Option.map_eq_some_iff] at served
  obtain ⟨⟨flushed, failed⟩, done, ends⟩ := served
  obtain ⟨id, calls⟩ := tryFlush_spec done
  have stillOpen : flushed.Opened := by
    rw [Opened, calls]
    exact opened
  dsimp only at ends
  split at ends <;> cases ends
  · exact ⟨id.trans same, stillOpen.onClose⟩
  · exact ⟨id.trans same, stillOpen⟩

end Conn

/-- A turn of the scanning loop. -/
theorem Scan.read_turned {old conn : Conn} {remove : Bool} {turn : Turn} (opened : old.Opened)
    (done : Scan.read old turn = some (conn, remove)) : Conn.Turned old conn remove := by
  unfold Scan.read at done
  split at done
  · cases done
    exact .close opened
  · split at done
    · refine Conn.service_turned ?_ (opened.onData _ _) done
      rfl
    · cases done
  · exact Conn.service_turned rfl opened done
  · cases done
    exact .keep opened
  · cases done
    exact .close opened

/-- The part of an event under `EPOLLIN`. -/
theorem Epoll.readPart_turned {old conn : Conn} {remove : Bool} {bits : Bits} {turn : Turn}
    (opened : old.Opened) (done : Epoll.readPart old bits turn = some (conn, remove)) :
    Conn.Turned old conn remove := by
  unfold Epoll.readPart at done
  split at done
  · split at done
    · cases done
      exact .close opened
    · split at done <;> cases done
      exact ⟨rfl, opened.onData _ _⟩
    · cases done
      exact .keep opened
    · cases done
      exact .keep opened
    · cases done
      exact .close opened
  · cases done
    exact .keep opened

/-- An event of the epoll loop. -/
theorem Epoll.handle_turned {old conn : Conn} {remove : Bool} {bits : Bits} {turn : Turn}
    (opened : old.Opened) (done : Epoll.handle old bits turn = some (conn, remove)) :
    Conn.Turned old conn remove := by
  unfold Epoll.handle at done
  split at done
  · cases done
    exact .close opened
  · obtain ⟨⟨middle, removed⟩, first, rest⟩ := Option.bind_eq_some_iff.1 done
    have turned := Epoll.readPart_turned opened first
    cases removed with
    | true =>
        cases rest
        exact turned
    | false => exact Conn.service_turned turned.id turned.calls rest

/-! ### All connections -/

/-- The connections a reactor holds are open, those it has dropped were closed, and each one it has
    accepted is among them once. -/
structure CallbackGrammar (live dropped : List Conn) (accepted : Nat) : Prop where
  opened : ∀ c ∈ live, c.Opened
  closed : ∀ c ∈ dropped, c.Closed
  each_once : ((live ++ dropped).map Conn.id).Perm (List.range accepted)

namespace CallbackGrammar

variable {live live' dropped rest : List Conn} {accepted : Nat} {old conn : Conn} {remove : Bool}

theorem start : CallbackGrammar [] [] 0 where
  opened _ member := by cases member
  closed _ member := by cases member
  each_once := .refl _

theorem congr (grammar : CallbackGrammar live dropped accepted) (same : live'.Perm live) :
    CallbackGrammar live' dropped accepted where
  opened c member := grammar.opened c (same.mem_iff.1 member)
  closed := grammar.closed
  each_once := (((same.append_right _).map _).trans grammar.each_once)

theorem range_succ_perm {ids : List Nat} (perm : ids.Perm (List.range accepted)) :
    (accepted :: ids).Perm (List.range (accepted + 1)) := by
  rw [List.range_succ]
  exact (perm.cons accepted).trans (List.perm_append_singleton _ _).symm

/-- A new connection comes in. -/
theorem comeIn (grammar : CallbackGrammar live dropped accepted)
    (turned : Conn.Turned (.new accepted) conn false) :
    CallbackGrammar (conn :: live) dropped (accepted + 1) where
  opened c member := by
    rcases List.mem_cons.1 member with rfl | member
    · exact turned.calls
    · exact grammar.opened c member
  closed := grammar.closed
  each_once := by
    rw [List.cons_append, List.map_cons, turned.id]
    exact range_succ_perm grammar.each_once

/-- A new connection is dropped at once. -/
theorem reject (grammar : CallbackGrammar live dropped accepted)
    (turned : Conn.Turned (.new accepted) conn true) :
    CallbackGrammar live (conn :: dropped) (accepted + 1) where
  opened := grammar.opened
  closed c member := by
    rcases List.mem_cons.1 member with rfl | member
    · exact turned.calls
    · exact grammar.closed c member
  each_once := by
    refine (List.perm_middle.map Conn.id).trans ?_
    rw [List.map_cons, turned.id]
    exact range_succ_perm grammar.each_once

/-- A connection that is held stays. -/
theorem keep (grammar : CallbackGrammar (old :: rest) dropped accepted)
    (turned : Conn.Turned old conn false) : CallbackGrammar (conn :: rest) dropped accepted where
  opened c member := by
    rcases List.mem_cons.1 member with rfl | member
    · exact turned.calls
    · exact grammar.opened c (List.mem_cons_of_mem _ member)
  closed := grammar.closed
  each_once := by
    have once := grammar.each_once
    rw [List.cons_append, List.map_cons] at once ⊢
    rw [turned.id]
    exact once

/-- A connection that is held is removed, with its `on_close`. -/
theorem drop (grammar : CallbackGrammar (old :: rest) dropped accepted)
    (turned : Conn.Turned old conn true) : CallbackGrammar rest (conn :: dropped) accepted where
  opened c member := grammar.opened c (List.mem_cons_of_mem _ member)
  closed c member := by
    rcases List.mem_cons.1 member with rfl | member
    · exact turned.calls
    · exact grammar.closed c member
  each_once := by
    have once := grammar.each_once
    rw [List.cons_append, List.map_cons] at once
    refine (List.perm_middle.map Conn.id).trans ?_
    rw [List.map_cons, turned.id]
    exact once

/-- Every step whose new and whose served connections are as they should be. -/
theorem effect {opens : Conn → Bool → Prop} {turns : Conn → Conn → Bool → Prop}
    {dropped' : List Conn} {accepted' : Nat} (grammar : CallbackGrammar live dropped accepted)
    (changed : Effect opens turns live dropped accepted live' dropped' accepted')
    (opened : ∀ conn remove, opens conn remove → Conn.Turned (.new accepted) conn remove)
    (turned : ∀ old conn remove, old.Opened → turns old conn remove → Conn.Turned old conn remove) :
    CallbackGrammar live' dropped' accepted' := by
  have served : ∀ {old conn : Conn} {rest : List Conn} {remove : Bool}, live.Perm (old :: rest) →
      turns old conn remove → Conn.Turned old conn remove := by
    intro old conn rest remove before turns
    exact turned _ _ _ (grammar.opened _ (before.mem_iff.2 List.mem_cons_self)) turns
  cases changed with
  | same => exact grammar
  | comeIn opens after => exact (grammar.comeIn (opened _ _ opens)).congr after
  | reject opens => exact grammar.reject (opened _ _ opens)
  | keep turns before after =>
      exact ((grammar.congr before.symm).keep (served before turns)).congr after
  | drop turns before after =>
      exact ((grammar.congr before.symm).drop (served before turns)).congr after

end CallbackGrammar

/-! ### The scan -/

namespace Scan

/-- In a pass the sockets read so far and the connections from index `i` on are those that were there
    at its start. -/
def PassAccount (s : Scan) : Prop :=
  ∀ i, s.pc = .pass i → s.atStart.Nodup ∧
    (s.attempted ++ (s.conns.drop i).map Conn.id).Perm s.atStart

/-- What holds of the scan in every state. -/
structure Lawful (s : Scan) : Prop where
  grammar : CallbackGrammar s.conns s.dropped s.accepted
  pass : s.PassAccount

theorem Lawful.start : Lawful .start := ⟨.start, fun _ stands => by cases stands⟩

theorem account_of_idle {s : Scan} (idle : ∀ i, s.pc ≠ .pass i) : s.PassAccount :=
  fun i stands => absurd stands (idle i)

theorem ids_nodup {s : Scan} (grammar : CallbackGrammar s.conns s.dropped s.accepted) :
    (s.conns.map Conn.id).Nodup := by
  have nodup := grammar.each_once.nodup_iff.2 List.nodup_range
  rw [List.map_append] at nodup
  exact (List.nodup_append.1 nodup).1

/-- What is attempted moves from the front of the connections left to the sockets read. -/
theorem attempt_perm {attempted atStart left : List Nat} {id : Nat} {rest : List Nat}
    (before : (attempted ++ id :: rest).Perm atStart) (after : left.Perm rest) :
    (attempted ++ [id] ++ left).Perm atStart := by
  rw [List.append_assoc, List.singleton_append]
  exact ((after.cons id).append_left attempted).trans before

theorem grammar_step {s t : Scan} {a : ScanAct}
    (grammar : CallbackGrammar s.conns s.dropped s.accepted) (moved : s.step a = some t) :
    CallbackGrammar t.conns t.dropped t.accepted := by
  refine grammar.effect (effect_of_step moved) ?_ ?_
  · rintro conn remove ⟨reaction, writes, _, served⟩
    refine Conn.service_turned ?_ (Conn.opened_new _ _) served
    rfl
  · rintro old conn remove opened ⟨turn, _, _, done⟩
    exact read_turned opened done

/-- A turn of the reading loop. -/
theorem account_visit {s t : Scan} {turn : Turn} (account : s.PassAccount)
    (moved : s.step (.visit turn) = some t) : t.PassAccount := by
  simp only [step] at moved
  split at moved
  · rename_i i stands
    split at moved
    · rename_i old found
      obtain ⟨inside, rfl⟩ := List.getElem?_eq_some_iff.1 found
      obtain ⟨⟨conn, remove⟩, done, rfl⟩ := Option.map_eq_some_iff.1 moved
      obtain ⟨nodup, account⟩ := account i stands
      rw [List.drop_eq_getElem_cons inside, List.map_cons] at account
      cases remove with
      | true =>
          intro j stands'
          obtain rfl : i = j := by
            have same : s.pc = .pass j := stands'
            rw [stands] at same
            cases same
            rfl
          exact ⟨nodup, attempt_perm account ((drop_swapRemove_perm inside).map _)⟩
      | false =>
          intro j stands'
          obtain rfl : i + 1 = j := by
            have same : ScanPc.pass (i + 1) = .pass j := stands'
            cases same
            rfl
          refine ⟨nodup, attempt_perm account ?_⟩
          show ((s.conns.set i conn).drop (i + 1)).map Conn.id |>.Perm _
          rw [List.drop_set_of_lt (Nat.lt_succ_self i)]
    · cases moved
  · cases moved

/-- Every step of the scan. -/
theorem account_step {s t : Scan} {a : ScanAct}
    (grammar : CallbackGrammar s.conns s.dropped s.accepted) (account : s.PassAccount)
    (moved : s.step a = some t) : t.PassAccount := by
  cases a with
  | load stop =>
      simp only [Scan.step] at moved
      split at moved <;> cases moved
      refine account_of_idle fun i => ?_
      cases stop <;> simp
  | accept outcome reaction writes =>
      simp only [Scan.step] at moved
      split at moved
      · rename_i stands
        have idle : ∀ i, s.pc ≠ .pass i := by simp [stands]
        cases outcome with
        | interrupted =>
            cases moved
            exact account
        | wouldBlock | failed =>
            cases moved
            intro i begins
            cases begins
            exact ⟨ids_nodup grammar, .refl _⟩
        | stream nonblocking =>
            cases nonblocking with
            | false =>
                cases moved
                exact account
            | true =>
                obtain ⟨⟨conn, remove⟩, _, rfl⟩ := Option.map_eq_some_iff.1 moved
                cases remove with
                | true => exact account_of_idle idle
                | false => exact account_of_idle idle
      · cases moved
  | visit turn => exact account_visit account moved
  | passEnds =>
      simp only [Scan.step] at moved
      split at moved
      · obtain ⟨_, rfl⟩ := guarded moved
        exact account_of_idle fun i => by simp
      · cases moved

theorem Lawful.step {s t : Scan} {a : ScanAct} (lawful : Lawful s) (moved : s.step a = some t) :
    Lawful t :=
  ⟨grammar_step lawful.grammar moved, account_step lawful.grammar lawful.pass moved⟩

theorem Lawful.of_run {s : Scan} (run : Reach Scan.step Free .start s) : Lawful s :=
  run.invariant .start fun _ _ _ lawful _ moved => lawful.step moved

end Scan

/-! ### The events -/

namespace Epoll

/-- Every step of the epoll loop. -/
theorem grammar_step {s t : Epoll} {a : EpollAct}
    (grammar : CallbackGrammar s.live s.dropped s.accepted) (moved : s.step a = some t) :
    CallbackGrammar t.live t.dropped t.accepted := by
  refine grammar.effect (effect_of_step moved) ?_ ?_
  · rintro conn remove ⟨fd, reaction, writes, succeeds, flushed, failed, _, done, rfl, rfl⟩
    obtain ⟨id, calls⟩ := Conn.tryFlush_spec done
    have opened : flushed.Opened := by
      rw [Conn.Opened, calls]
      exact Conn.opened_new _ _
    cases ends : flushed.closingDone with
    | true => exact ⟨id, opened.onClose⟩
    | false => exact ⟨id, opened⟩
  · rintro old conn remove opened ⟨bits, turn, _, done⟩
    exact handle_turned opened done

theorem grammar_of_run {listenFd : Nat} {s : Epoll}
    (run : Reach Epoll.step Free (.start listenFd) s) :
    CallbackGrammar s.live s.dropped s.accepted :=
  run.invariant (P := fun s => CallbackGrammar s.live s.dropped s.accepted) .start
    fun _ _ _ grammar _ moved => grammar_step grammar moved

end Epoll

/-! ### Both -/

/-- In both reactors, whatever accept, read, write and `epoll_wait` return and whatever the handlers do,
    the callbacks of each connection follow the grammar, and a pass of the scan reads every
    connection that was there at its start exactly once. -/
theorem callback_grammar {s : Scan} {t : Epoll} {listenFd : Nat}
    (scan : Reach Scan.step Free .start s) (epoll : Reach Epoll.step Free (.start listenFd) t) :
    CallbackGrammar s.conns s.dropped s.accepted ∧ CallbackGrammar t.live t.dropped t.accepted ∧
      ∀ i, s.pc = .pass i → s.conns.length ≤ i → s.atStart.Nodup ∧ s.attempted.Perm s.atStart := by
  obtain ⟨grammar, pass⟩ := Scan.Lawful.of_run scan
  refine ⟨grammar, Epoll.grammar_of_run epoll, fun i stands atEnd => ?_⟩
  obtain ⟨nodup, account⟩ := pass i stands
  rw [List.drop_eq_nil_of_le atEnd, List.map_nil, List.append_nil] at account
  exact ⟨nodup, account⟩

/-- Three connections; in the pass the first one is closed by its peer, so that the last one takes its
    place, is read next and is closed by its handler. -/
def scannedWithRemovals : List ScanAct :=
  [.load false, .accept (.stream true) [.write [104, 105]] [.ok 1, .wouldBlock],
    .accept (.stream true) [] [], .accept .interrupted [] [], .accept (.stream true) [] [],
    .accept .wouldBlock [] [], .visit ⟨.ok [], [], []⟩,
    .visit ⟨.ok [7], [.write [8], .close], [.interrupted, .ok 1]⟩, .visit ⟨.wouldBlock, [], []⟩]

/-- Two connections of which the first is hung up while its greeting is not sent yet. -/
def handledWithHangUp : List EpollAct :=
  [.load false, .waited [(3, ⟨true, false, false, false⟩)], .event ⟨.wouldBlock, [], []⟩ true,
    .accept (.stream true) 4 [.write [104, 105]] [.ok 1, .wouldBlock] true,
    .accept (.stream true) 5 [] [] true, .accept .wouldBlock 0 [] [] true, .batchEnds, .load false,
    .waited [(4, ⟨true, true, true, false⟩), (5, ⟨true, false, false, false⟩)],
    .event ⟨.wouldBlock, [], []⟩ true, .event ⟨.ok [7], [.write [8]], [.wouldBlock]⟩ true]

theorem callback_grammar_sample :
    ∃ s t, exec Scan.step .start scannedWithRemovals = some s ∧
      exec Epoll.step (.start 3) handledWithHangUp = some t ∧ s.pc = .pass 1 ∧
      s.attempted = [0, 2, 1] ∧ s.dropped.map Conn.id = [2, 0] ∧ t.dropped.map Conn.id = [0] ∧
      CallbackGrammar s.conns s.dropped s.accepted ∧ CallbackGrammar t.live t.dropped t.accepted ∧
      s.conns.length = 1 ∧ s.attempted.Perm s.atStart := by
  obtain ⟨s, scanned, stands, attempted, dropped, single⟩ : ∃ s,
      exec Scan.step .start scannedWithRemovals = some s ∧ s.pc = .pass 1 ∧
        s.attempted = [0, 2, 1] ∧ s.dropped.map Conn.id = [2, 0] ∧ s.conns.length = 1 :=
    ⟨_, rfl, rfl, rfl, rfl, rfl⟩
  obtain ⟨t, handled, hungUp⟩ : ∃ t, exec Epoll.step (.start 3) handledWithHangUp = some t ∧
      t.dropped.map Conn.id = [0] := ⟨_, rfl, rfl⟩
  obtain ⟨one, two, pass⟩ := callback_grammar (reach_of_exec scanned) (reach_of_exec handled)
  exact ⟨s, t, scanned, handled, stands, attempted, dropped, hungUp, one, two, single,
    (pass 1 stands single.le).2⟩

end AetherFlow.Net
