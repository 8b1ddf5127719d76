/-
Module: AetherFlow.Net.Stopping
Purpose: How a server stops. Once the flag is up, a reactor finishes its pass over its connections or its
  batch of events and ends at its next load; only the accepting loop can keep it busy, one turn for
  each stream that comes in. So `shutdown` and `drop` return after a bounded number of steps, and until
  then some thread can always take one.
Trusted boundary: none
Main exports: Scan.togo, Epoll.togo, Server.togo, shutdown_returns
-/
import Mathlib.Algebra.BigOperators.Group.List.Basic
import AetherFlow.Net.Server

namespace AetherFlow.Net

open StopFlag Transition

variable {S I : Type*}

/-! ### One reactor -/

/-- The steps to the end of a scan that has to stop, if no more streams come in. -/
def Scan.togo (s : Scan) : Nat :=
  match s.pc with
  | .top => 1
  | .accept => s.conns.length + 3
  | .pass i => s.conns.length - i + 2
  | .stopped => 0

/-- The same for epoll. The batch that `epoll_wait` is going to return is not known yet. -/
def Epoll.togo (s : Epoll) : Nat :=
  match s.pc with
  | .top => 1
  | .wait => 3
  | .batch events => 2 * events.length + 2
  | .accept events => 2 * events.length + 3
  | .stopped => 0

/-- What a step may give back: a turn of the accepting loop, and the batch. -/
def ScanAct.refund : ScanAct → Nat
  | .accept .wouldBlock _ _ | .accept .failed _ _ => 0
  | .accept _ _ _ => 2
  | _ => 0

def EpollAct.refund : EpollAct → Nat
  | .accept .wouldBlock _ _ _ _ | .accept .failed _ _ _ _ => 0
  | .accept _ _ _ _ _ => 2
  | .waited events => 2 * events.length
  | _ => 0

theorem Scan.togo_step {s t : Scan} {a : ScanAct} (again : a ≠ .load false)
    (moved : s.step a = some t) : t.togo + 1 ≤ s.togo + a.refund := by
  cases a with
  | load stop =>
      simp only [Scan.step] at moved
      split at moved
      · rename_i at_
        cases moved
        cases stop with
        | true => simp [togo, at_]
        | false => exact absurd rfl again
      · cases moved
  | accept outcome reaction writes =>
      simp only [Scan.step] at moved
      split at moved
      · rename_i at_
        split at moved
        · cases moved
          simp only [togo, at_, ScanAct.refund]
          omega
        · cases moved
          simp only [togo, at_, ScanAct.refund]
          omega
        · obtain ⟨⟨conn, remove⟩, _, rfl⟩ := Option.map_eq_some_iff.1 moved
          dsimp only
          split
          · simp only [togo, at_, ScanAct.refund]
            omega
          · simp only [togo, at_, ScanAct.refund, List.length_append, List.length_singleton]
            omega
        · cases moved
          simp only [togo, at_, ScanAct.refund]
          omega
        · cases moved
          simp only [togo, at_, ScanAct.refund]
          omega
      · cases moved
  | visit turn =>
      simp only [Scan.step] at moved
      split at moved
      · rename_i i at_
        split at moved
        · rename_i old there
          have inside := (List.getElem?_eq_some_iff.1 there).1
          obtain ⟨⟨conn, remove⟩, _, rfl⟩ := Option.map_eq_some_iff.1 moved
          dsimp only
          split
          · have fewer : (System.swapRemove s.conns i).length = s.conns.length - 1 := by
              rw [(System.swapRemove_perm inside).length_eq, List.length_eraseIdx_of_lt inside]
            simp only [togo, at_]
            omega
          · simp only [togo, at_, List.length_set]
            omega
        · cases moved
      · cases moved
  | passEnds =>
      simp only [Scan.step] at moved
      split at moved
      · rename_i i at_
        split at moved <;> cases moved
        simp only [togo, at_]
        omega
      · cases moved

/-- An event leads back to the batch, or to the accepting loop. -/
theorem Epoll.pc_of_event {s t : Epoll} {turn : Turn} {succeeds : Bool}
    (moved : s.step (.event turn succeeds) = some t) :
    ∃ fd bits events, s.pc = .batch ((fd, bits) :: events) ∧
      (t.pc = .batch events ∨ t.pc = .accept events) := by
  simp only [Epoll.step] at moved
  split at moved
  · rename_i fd bits events at_
    refine ⟨fd, bits, events, at_, ?_⟩
    split at moved
    · cases moved
      exact .inr rfl
    · split at moved
      · obtain ⟨⟨conn, remove⟩, _, rfl⟩ := Option.map_eq_some_iff.1 moved
        dsimp only
        split
        · exact .inl rfl
        · exact .inl rfl
      · cases moved
        exact .inl rfl
  · cases moved

/-- An accepting loop goes round, or is over. -/
theorem Epoll.pc_of_accept {s t : Epoll} {outcome : AcceptOutcome} {fd : Nat} {reaction : List IoCall}
    {writes : List WriteOutcome} {succeeds : Bool}
    (moved : s.step (.accept outcome fd reaction writes succeeds) = some t) :
    ∃ events, s.pc = .accept events ∧
      (t.pc = .accept events ∧ (EpollAct.accept outcome fd reaction writes succeeds).refund = 2 ∨
        t.pc = .batch events) := by
  simp only [Epoll.step] at moved
  split at moved
  · rename_i events at_
    refine ⟨events, at_, ?_⟩
    split at moved
    · cases moved
      exact .inl ⟨at_, rfl⟩
    · cases moved
      exact .inl ⟨at_, rfl⟩
    · split at moved
      · obtain ⟨⟨conn, failed⟩, _, rfl⟩ := Option.map_eq_some_iff.1 moved
        refine .inl ⟨?_, rfl⟩
        dsimp only
        split
        · exact at_
        · exact at_
      · cases moved
    · cases moved
      exact .inr rfl
    · cases moved
      exact .inr rfl
  · cases moved

theorem Epoll.togo_step {s t : Epoll} {a : EpollAct} (again : a ≠ .load false)
    (moved : s.step a = some t) : t.togo + 1 ≤ s.togo + a.refund := by
  cases a with
  | load stop =>
      simp only [Epoll.step] at moved
      split at moved
      · rename_i at_
        cases moved
        cases stop with
        | true => simp [togo, at_]
        | false => exact absurd rfl again
      · cases moved
  | waitFailed interrupted =>
      simp only [Epoll.step] at moved
      split at moved
      · rename_i at_
        cases moved
        cases interrupted <;> simp [togo, at_, EpollAct.refund]
      · cases moved
  | waited events =>
      simp only [Epoll.step] at moved
      split at moved
      · rename_i at_
        cases moved
        simp only [togo, at_, EpollAct.refund]
        omega
      · cases moved
  | accept outcome fd reaction writes succeeds =>
      obtain ⟨events, at_, ⟨round, refund⟩ | done⟩ := pc_of_accept moved
      · rw [refund, togo, togo, at_, round]
        omega
      · rw [togo, togo, at_, done]
        dsimp only
        omega
  | event turn succeeds =>
      obtain ⟨fd, bits, events, at_, next | next⟩ := pc_of_event moved
      · rw [togo, togo, at_, next]
        simp only [List.length_cons]
        omega
      · rw [togo, togo, at_, next]
        simp only [List.length_cons]
        omega
  | batchEnds =>
      simp only [Epoll.step] at moved
      split at moved
      · rename_i at_
        cases moved
        simp [togo, at_]
      · cases moved

/-! ### The thread of a reactor -/

/-- The steps to the end of a thread that has to stop. -/
def ReactorThread.togo : ReactorThread → Nat
  | .entering _ _ => 2
  | .scan s => s.reactor.togo
  | .epoll s => s.reactor.togo
  | .panicked => 0

/-- The thread's own steps; bytes arrive without it. -/
def ThreadAct.own : ThreadAct → Bool
  | .scan (.arrive _ _) | .scan (.finish _ _) | .epoll (.arrive _ _) | .epoll (.finish _ _) => false
  | _ => true

/-- What a step of the thread gives back. -/
def ThreadAct.refund : ThreadAct → Nat
  | .scan (.reactor a) => a.refund
  | .epoll (.reactor a) => a.refund
  | _ => 0

/-- What is not a step of the reactor is one of a peer. -/
theorem NetworkAct.peer {A : Type*} {a : NetworkAct A} (others : ∀ b, a ≠ .reactor b) :
    (∃ id bytes, a = .arrive id bytes) ∨ ∃ id ending, a = .finish id ending := by
  cases a with
  | arrive id bytes => exact .inl ⟨id, bytes, rfl⟩
  | finish id ending => exact .inr ⟨id, ending, rfl⟩
  | reactor b => exact absurd rfl (others b)

theorem ReactorThread.togo_step {linux : Bool} {handler : Handler S} {r r' : ReactorThread}
    {a : ThreadAct} (again : a.loads ≠ some false) (moved : r.step linux handler a = some r') :
    r'.togo + 1 ≤ r.togo + (a.refund + if a.own then 0 else 1) := by
  cases moved_of_step moved with
  | entered =>
      split
      · split
        · exact le_rfl
        · exact Nat.le_succ 1
      · exact le_rfl
  | @scanned s t a scanned =>
      rcases Network.step_cases scanned with ⟨others, same, _⟩ | ⟨b, rfl, _, _, stepped⟩
      · rw [togo, togo, same]
        rcases NetworkAct.peer others with ⟨_, _, rfl⟩ | ⟨_, _, rfl⟩ <;> exact le_rfl
      · exact Scan.togo_step (fun down => again (by rw [down]; rfl)) stepped
  | @handled s t a handled =>
      rcases Network.step_cases handled with ⟨others, same, _⟩ | ⟨b, rfl, _, _, stepped⟩
      · rw [togo, togo, same]
        rcases NetworkAct.peer others with ⟨_, _, rfl⟩ | ⟨_, _, rfl⟩ <;> exact le_rfl
      · exact Epoll.togo_step (fun down => again (by rw [down]; rfl)) stepped

/-! ### The server -/

namespace Server

/-- The steps to the end of `shutdown` or `drop`. -/
def callerTogo (s : Server I) : Nat :=
  match s.pc with
  | .store shutdown => s.pool.workers.length - s.joined + (if shutdown then 4 else 2)
  | .join shutdown => s.pool.workers.length - s.joined + (if shutdown then 3 else 1)
  | _ => 0

/-- The steps to the end of the handle and its reactors, if no more streams come in. -/
def togo (s : Server I) : Nat := s.pool.togo ReactorThread.togo + s.callerTogo

end Server

/-- A step of a server's own threads. -/
def ServerAct.own : ServerAct I → Bool
  | .reactor _ a => a.own
  | _ => true

/-- What a step gives back. -/
def ServerAct.refund : ServerAct I → Nat
  | .reactor _ a => a.refund
  | _ => 0

namespace Server

variable {linux : Bool} {handler : Handler S} {s t : Server I}

theorem ranked : (reactorLoop linux handler).Ranked ReactorThread.togo
    fun a => a.refund + if a.own then 0 else 1 :=
  fun _ _ _ again moved => ReactorThread.togo_step again moved

theorem stop_stopStep (raised : s.pool.stop = true) (moved : s.stopStep linux handler = some t) :
    t.pool.stop = true := by
  unfold stopStep at moved
  split at moved
  · cases moved
    rfl
  · split at moved
    · split at moved <;> cases moved
      exact raised
    · cases moved
      exact raised
  · cases moved

/-- The calling thread stops the server, step by step. -/
theorem togo_stop (moved : s.stopStep linux handler = some t) : t.togo + 1 ≤ s.togo := by
  unfold stopStep at moved
  split at moved
  · rename_i shutdown at_
    cases moved
    simp only [togo, callerTogo, at_, Pool.raise, Pool.togo]
    split <;> omega
  · rename_i shutdown at_
    split at moved
    · rename_i r found
      have inside := (List.getElem?_eq_some_iff.1 found).1
      split at moved <;> cases moved
      cases shutdown <;> simp [togo, callerTogo, at_] <;> omega
    · rename_i none_
      have through := List.getElem?_eq_none_iff.1 none_
      cases moved
      cases shutdown with
      | true =>
          simp only [togo, callerTogo, at_, if_true, Bool.false_eq_true, if_false]
          omega
      | false => simp [togo, callerTogo, at_]
  · cases moved

variable [DecidableEq I]

/-- With the flag up, a step takes what is left down, up to what it gives back. -/
theorem togo_step {a : ServerAct I} (inv : Inv linux handler s) (raised : s.pool.stop = true)
    (moved : s.step linux handler a = some t) :
    t.pool.stop = true ∧ t.togo + 1 ≤ s.togo + (a.refund + if a.own then 0 else 1) := by
  have late : s.pc.before = false := by
    by_contra early
    rw [inv.quiet (Bool.eq_true_of_not_eq_false early)] at raised
    cases raised
  cases a with
  | resolve addrs | bind bound | spawn succeeds =>
      simp only [Server.step] at moved
      split at moved
      · rename_i at_
        rw [at_] at late
        cases late
      · cases moved
  | shutdown | drop =>
      obtain ⟨at_, rfl⟩ := guarded moved
      rw [at_] at late
      cases late
  | stop => exact ⟨stop_stopStep raised moved, togo_stop moved⟩
  | reactor i a =>
      obtain ⟨pool, worked, rfl⟩ := Option.map_eq_some_iff.1 moved
      obtain ⟨still, lower⟩ := Pool.togo_work ranked raised worked
      have same : pool.workers.length = s.pool.workers.length := by
        obtain ⟨r, r', _, _, _, rfl⟩ := Pool.work_cases worked
        exact List.length_set
      refine ⟨still, ?_⟩
      simp only [togo, callerTogo, same]
      change _ ≤ _ + (a.refund + if a.own then 0 else 1)
      omega

/-! ### Some thread can go on -/

/-- A load that sees the flag up. -/
theorem work_of_step {i : Nat} {r r' : ReactorThread} {a : ThreadAct}
    (found : s.pool.workers[i]? = some r) (agrees : a.loads = none ∨ a.loads = some s.pool.stop)
    (moved : r.step linux handler a = some r') :
    ∃ t, s.step linux handler (.reactor i a) = some t := by
  refine ⟨{ s with pool := { s.pool with workers := s.pool.workers.set i r' } }, ?_⟩
  have worked : s.pool.work (reactorLoop linux handler) i a = some _ :=
    Pool.work_of_step found agrees moved
  rw [Server.step, worked]
  rfl

end Server

/-- A flush that takes nothing. -/
theorem Conn.service_nothing (conn : Conn) : ∃ writes, (conn.service writes).isSome = true := by
  cases empty : conn.io.out.isEmpty with
  | true =>
      refine ⟨[], ?_⟩
      rw [Conn.service, Conn.tryFlush, if_pos empty]
      rfl
  | false =>
      refine ⟨[.wouldBlock], ?_⟩
      rw [Conn.service, Conn.tryFlush, empty]
      rfl

/-- A step of a reactor that reads nothing, or is interrupted as it reads. -/
theorem Network.step_of_interrupted {R A : Type*} {reactorStep : R → A → Option R}
    {reads : R → A → Option (Nat × ReadOutcome)} {allowed : Network R → A → Bool} {s : Network R} {a : A}
    (stepped : (reactorStep s.reactor a).isSome = true) (met : allowed s a = true)
    (quiet : ∀ id outcome, reads s.reactor a = some (id, outcome) → outcome = .interrupted) :
    ∃ t, Network.step reactorStep reads allowed s (.reactor a) = some t := by
  have read : ∃ sockets, Network.readStep s.sockets (reads s.reactor a) = some sockets := by
    cases attempt : reads s.reactor a with
    | none => exact ⟨_, rfl⟩
    | some attempt' =>
        obtain ⟨id, outcome⟩ := attempt'
        obtain rfl := quiet id outcome attempt
        exact ⟨_, rfl⟩
  obtain ⟨sockets, read⟩ := read
  obtain ⟨reactor, stepped⟩ := Option.isSome_iff_exists.1 stepped
  refine ⟨⟨reactor, sockets⟩, ?_⟩
  rw [Network.step, if_pos met, read, Option.bind_some, stepped]
  rfl

/-- A scan that has to stop is not stuck. -/
theorem Scan.goes_on (handler : Handler S) {s : Scan} (running : s.pc ≠ .stopped) :
    ∃ a, a ≠ .load false ∧ a.refund = 0 ∧ (s.step a).isSome = true ∧ s.hosts handler a = true ∧
      ∀ id outcome, s.reads a = some (id, outcome) → outcome = .interrupted := by
  cases at_ : s.pc with
  | top =>
      refine ⟨.load true, by simp, rfl, ?_, rfl, fun _ _ never => by cases never⟩
      simp only [Scan.step, at_, Option.isSome_some]
  | accept =>
      refine ⟨.accept .wouldBlock [] [], by simp, rfl, ?_, rfl, fun _ _ never => by cases never⟩
      simp only [Scan.step, at_, Option.isSome_some]
  | pass i =>
      by_cases inside : i < s.conns.length
      · have there := List.getElem?_eq_getElem inside
        refine ⟨.visit ⟨.interrupted, [], []⟩, by simp, rfl, ?_, ?_, fun id outcome attempt => ?_⟩
        · simp only [Scan.step, at_, there]
          rfl
        · simp [Scan.hosts, Turn.hosts]
        · simp only [Scan.reads, at_, there, Option.map_some, Option.some.injEq, Prod.mk.injEq] at attempt
          exact attempt.2.symm
      · refine ⟨.passEnds, by simp, rfl, ?_, rfl, fun _ _ never => by cases never⟩
        simp only [Scan.step, at_, if_pos (Nat.not_lt.1 inside), Option.isSome_some]
  | stopped => exact absurd at_ running

/-- An event whose read is interrupted and whose flush takes nothing can be handled. -/
theorem Epoll.handle_nothing (conn : Conn) (bits : Bits) :
    ∃ writes, (Epoll.handle conn bits ⟨.interrupted, [], writes⟩).isSome = true := by
  obtain ⟨writes, served⟩ := conn.service_nothing
  refine ⟨writes, ?_⟩
  have kept : readPart conn bits ⟨.interrupted, [], writes⟩ = some (conn, false) := by
    rw [readPart]
    split <;> rfl
  rw [handle, kept]
  split
  · rfl
  · exact served

/-- An epoll loop that has to stop is not stuck. -/
theorem Epoll.goes_on (handler : Handler S) {s : Epoll} (running : s.pc ≠ .stopped) :
    ∃ a, a ≠ .load false ∧ a.refund = 0 ∧ (s.step a).isSome = true ∧ s.hosts handler a = true ∧
      ∀ id outcome, s.reads a = some (id, outcome) → outcome = .interrupted := by
  cases at_ : s.pc with
  | top =>
      refine ⟨.load true, by simp, rfl, ?_, rfl, fun _ _ never => by cases never⟩
      simp only [Epoll.step, at_, Option.isSome_some]
  | wait =>
      -- The time of the wait is over.
      refine ⟨.waited [], by simp, rfl, ?_, rfl, fun _ _ never => by cases never⟩
      simp only [Epoll.step, at_, Option.isSome_some]
  | accept events =>
      refine ⟨.accept .wouldBlock 0 [] [] true, by simp, rfl, ?_, rfl, fun _ _ never => by cases never⟩
      simp only [Epoll.step, at_, Option.isSome_some]
  | batch events =>
      cases events with
      | nil =>
          refine ⟨.batchEnds, by simp, rfl, ?_, rfl, fun _ _ never => by cases never⟩
          simp only [Epoll.step, at_, Option.isSome_some]
      | cons event events =>
          obtain ⟨fd, bits⟩ := event
          by_cases listener : fd = s.listenFd
          · refine ⟨.event ⟨.interrupted, [], []⟩ true, by simp, rfl, ?_, ?_, fun _ _ attempt => ?_⟩
            · simp only [Epoll.step, at_, if_pos listener, Option.isSome_some]
            · simp [Epoll.hosts, Epoll.handled, at_, listener]
            · simp [Epoll.reads, Epoll.handled, at_, listener] at attempt
          · cases found : s.conns.lookup fd with
            | none =>
                refine ⟨.event ⟨.interrupted, [], []⟩ true, by simp, rfl, ?_, ?_, fun _ _ attempt => ?_⟩
                · simp only [Epoll.step, at_, if_neg listener, found, Option.isSome_some]
                · simp [Epoll.hosts, Epoll.handled, at_, listener, found]
                · simp [Epoll.reads, Epoll.handled, at_, listener, found] at attempt
            | some conn =>
                obtain ⟨writes, handled⟩ := handle_nothing conn bits
                refine ⟨.event ⟨.interrupted, [], writes⟩ true, by simp, rfl, ?_, ?_,
                  fun id outcome attempt => ?_⟩
                · simp only [Epoll.step, at_, if_neg listener, found, Option.isSome_map, handled]
                · simp [Epoll.hosts, Epoll.handled, at_, listener, found, Turn.hosts]
                · simp only [Epoll.reads, Epoll.handled, at_, if_neg listener, found, Option.map_some,
                    Option.bind_some, Option.ite_none_right_eq_some, Option.some.injEq,
                    Prod.mk.injEq] at attempt
                  exact attempt.2.2.symm
  | stopped => exact absurd at_ running

namespace Server

variable [DecidableEq I] {linux : Bool} {handler : Handler S} {call : ServeCall} {s t : Server I}

/-- A reactor whose flag is up is over, or can take a step that gives nothing back. -/
theorem reactor_goes_on (raised : s.pool.stop = true) {i : Nat} {r : ReactorThread}
    (found : s.pool.workers[i]? = some r) (running : r.ended = false) :
    ∃ a t, ThreadAct.own a = true ∧ a.refund = 0 ∧ s.step linux handler (.reactor i a) = some t := by
  have agrees : ∀ {a : ThreadAct}, a.loads ≠ some false →
      a.loads = none ∨ a.loads = some s.pool.stop := by
    intro a sees
    rw [raised]
    cases loads : a.loads with
    | none => exact .inl rfl
    | some stop =>
        cases stop with
        | true => exact .inr rfl
        | false => exact absurd loads sees
  cases r with
  | entering opts listenFd =>
      have entered : ReactorThread.step linux handler (.entering opts listenFd) (.enter true) = some _ := rfl
      obtain ⟨t, moved⟩ := work_of_step found (.inl rfl) entered
      exact ⟨.enter true, t, rfl, rfl, moved⟩
  | scan n =>
      have going : n.reactor.pc ≠ .stopped := fun over_ => by
        rw [ReactorThread.ended_scan.2 over_] at running
        cases running
      obtain ⟨a, again, free, stepped, hosts, quiet⟩ := Scan.goes_on handler going
      obtain ⟨n', scanned⟩ : ∃ n', scanServer handler n (.reactor a) = some n' :=
        Network.step_of_interrupted stepped hosts quiet
      have sees : (ThreadAct.scan (.reactor a)).loads ≠ some false := by
        intro down
        cases a with
        | load stop => exact again (congrArg ScanAct.load (Option.some.inj down))
        | accept | visit | passEnds => cases down
      have moved : ReactorThread.step linux handler (.scan n) (.scan (.reactor a)) = some (.scan n') :=
        congrArg (Option.map _) scanned
      obtain ⟨t, moved⟩ := work_of_step found (agrees sees) moved
      exact ⟨.scan (.reactor a), t, rfl, free, moved⟩
  | epoll n =>
      have going : n.reactor.pc ≠ .stopped := fun over_ => by
        rw [ReactorThread.ended_epoll.2 over_] at running
        cases running
      obtain ⟨a, again, free, stepped, hosts, quiet⟩ := Epoll.goes_on handler going
      obtain ⟨n', handled⟩ : ∃ n', epollServer handler n (.reactor a) = some n' :=
        Network.step_of_interrupted stepped hosts quiet
      have sees : (ThreadAct.epoll (.reactor a)).loads ≠ some false := by
        intro down
        cases a with
        | load stop => exact again (congrArg EpollAct.load (Option.some.inj down))
        | accept | event | waited | waitFailed | batchEnds => cases down
      have moved : ReactorThread.step linux handler (.epoll n) (.epoll (.reactor a)) = some (.epoll n') :=
        congrArg (Option.map _) handled
      obtain ⟨t, moved⟩ := work_of_step found (agrees sees) moved
      exact ⟨.epoll (.reactor a), t, rfl, free, moved⟩
  | panicked => cases running

/-- A server that is being stopped is not stuck. -/
theorem goes_on (inv : Inv linux handler s) (raised : s.pool.stop = true) (here : s.pc ≠ .gone) :
    ∃ a t, ServerAct.own a = true ∧ a.refund = 0 ∧ s.step linux handler a = some t := by
  have early : s.pc.before ≠ true := by
    intro before
    rw [inv.quiet before] at raised
    cases raised
  cases at_ : s.pc with
  | resolve | bind | spawn | serving | failed | panicked => exact absurd (by rw [at_]; rfl) early
  | store shutdown =>
      refine ⟨.stop, { s with pool := s.pool.raise, pc := .join shutdown }, rfl, rfl, ?_⟩
      simp only [Server.step, stopStep, at_]
  | join shutdown =>
      cases found : s.pool.workers[s.joined]? with
      | none =>
          refine ⟨.stop, { s with pc := if shutdown then .store false else .gone }, rfl, rfl, ?_⟩
          simp only [Server.step, stopStep, at_, found]
      | some r =>
          cases over_ : r.ended with
          | true =>
              refine ⟨.stop, { s with joined := s.joined + 1 }, rfl, rfl, ?_⟩
              simp only [Server.step, stopStep, at_, found]
              exact if_pos over_
          | false =>
              obtain ⟨a, t, own, free, moved⟩ := reactor_goes_on raised found over_
              exact ⟨.reactor s.joined a, t, own, free, moved⟩
  | gone => exact absurd at_ here

end Server

/-- Once the flag of a server is up, `shutdown` and `drop` are not stuck before they return, and however
    the threads take turns they return after a bounded number of steps: what every reactor has left of
    its pass or its batch, and one more round of an accepting loop for each stream that comes in. -/
theorem shutdown_returns {handler : Handler S} {linux : Bool} [DecidableEq I] {call : ServeCall}
    {s : Server I} (run : Server.Runs linux handler call s) (raised : s.pool.stop = true) :
    (s.pc ≠ .gone → ∃ a t, ServerAct.own a = true ∧ a.refund = 0 ∧
      s.step linux handler a = some t) ∧
      ∀ labels t, exec (Server.step linux handler) s labels = some t →
        labels.countP ServerAct.own + t.togo ≤ s.togo + (labels.map ServerAct.refund).sum := by
  have inv := Server.inv_of_run run
  refine ⟨Server.goes_on inv raised, fun labels t executed => ?_⟩
  obtain ⟨_, bound⟩ := length_le_of_exec (P := fun s => s.Inv linux handler ∧ s.pool.stop = true)
    Server.togo (fun a => a.refund + if a.own then 0 else 1) ⟨inv, raised⟩
    (fun a _ u v holds moved =>
      have lower := Server.togo_step holds.1 holds.2 moved
      ⟨⟨holds.1.step moved, lower.1⟩, lower.2⟩)
    executed
  have split := sum_refund_add_countP ServerAct.own labels
  rw [List.sum_map_add] at bound
  omega

/-- Two reactors are told to stop; the first one still takes in a stream. -/
theorem shutdown_returns_late :
    ∃ s t, exec (Server.step false echo) (.start (.serveOnCores [2, 5] .default))
        (startedOnTwoCores ++ [.reactor 0 (.scan (.reactor (.load false))), .drop, .stop]) = some s ∧
      exec (Server.step false echo) s
        [.reactor 0 (.scan (.reactor (.accept (.stream true) [] []))),
          .reactor 0 (.scan (.arrive 0 [1])),
          .reactor 0 (.scan (.reactor (.accept .wouldBlock [] []))),
          .reactor 1 (.scan (.reactor (.load true)))] = some t ∧
      s.togo = 7 ∧ t.togo = 6 ∧ 3 + t.togo ≤ s.togo + 2 := by
  have goesOn : ∃ s t, exec (Server.step false echo) (.start (.serveOnCores [2, 5] .default))
        (startedOnTwoCores ++ [.reactor 0 (.scan (.reactor (.load false))), .drop, .stop]) = some s ∧
      exec (Server.step false echo) s
        [.reactor 0 (.scan (.reactor (.accept (.stream true) [] []))),
          .reactor 0 (.scan (.arrive 0 [1])),
          .reactor 0 (.scan (.reactor (.accept .wouldBlock [] []))),
          .reactor 1 (.scan (.reactor (.load true)))] = some t ∧
      s.pool.stop = true ∧ s.togo = 7 ∧ t.togo = 6 := ⟨_, _, rfl, rfl, rfl, rfl, rfl⟩
  obtain ⟨s, t, started, later, raised, before, after⟩ := goesOn
  obtain ⟨_, bounded⟩ := shutdown_returns (reach_of_exec started) raised
  exact ⟨s, t, started, later, before, after, bounded _ t later⟩

end AetherFlow.Net
