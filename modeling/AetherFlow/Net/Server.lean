/-
Module: AetherFlow.Net.Server
Purpose: `serve`, `serve_with`, `serve_on_cores` and the handle they return. One thread binds the
  listeners and starts the reactors one after the other, and later stops and joins them; the reactors
  run from their start on, each with its own connections, and load one flag. Every peer of every
  reactor is answered as by one reactor alone; a handle that is gone has outlived its reactors; and a
  call that fails leaves the reactors it has started running for good.
Trusted boundary: human-reviewed transcription of `serve_with`, `serve_on_cores`, `reactor_loop` and
  `ServerHandle`
Main exports: ServeOptions, ServeCall, ReactorThread, reactorLoop, Server, Server.step, Server.Runs,
  Server.Inv, served_of_run, handle_of_run, left_running_of_failed
-/
import AetherFlow.Lib.StopFlag
import AetherFlow.Net.Hosted

namespace AetherFlow.Net

open StopFlag Transition

variable {S I : Type*}

/-- `SocketAddr`. -/
structure SocketAddr (I : Type*) where
  ip : I
  port : Nat
deriving DecidableEq

/-- `ServeOptions`; pinning a thread changes nothing that a reactor does. -/
structure ServeOptions where
  busyPoll : Bool
  pinCore : Option Nat
  epoll : Bool
deriving DecidableEq

/-- `ServeOptions::default()`. -/
def ServeOptions.default : ServeOptions := ⟨false, none, false⟩

/-- The calls that start a server. -/
inductive ServeCall where
  | serveWith (opts : ServeOptions)
  | serveOnCores (cores : List Nat) (opts : ServeOptions)
deriving DecidableEq

namespace ServeCall

/-- `serve`. -/
def serve : ServeCall := .serveWith .default

/-- The options of the reactors that it starts, in their order. -/
def reactors : ServeCall → List ServeOptions
  | .serveWith opts => [opts]
  | .serveOnCores cores opts => cores.map fun core => { opts with pinCore := some core }

end ServeCall

/-! ### A reactor's thread -/

/-- The thread of a reactor. -/
inductive ReactorThread where
  /-- At the beginning of `reactor_loop`. -/
  | entering (opts : ServeOptions) (listenFd : Nat)
  | scan (s : Network Scan)
  | epoll (s : Network Epoll)
  /-- `epoll_create1` failed. -/
  | panicked

inductive ThreadAct where
  /-- It chooses the reactor; `created` says whether `epoll_create1` succeeds. -/
  | enter (created : Bool)
  | scan (a : NetworkAct ScanAct)
  | epoll (a : NetworkAct EpollAct)

namespace ReactorThread

/-- `reactor_loop` and the reactor it calls. -/
def step (linux : Bool) (handler : Handler S) : ReactorThread → ThreadAct → Option ReactorThread
  | .entering opts listenFd, .enter created =>
      some (if linux && opts.epoll then
        if created then .epoll (.startEpoll listenFd) else .panicked
      else .scan .startScan)
  | .scan s, .scan a => (scanServer handler s a).map .scan
  | .epoll s, .epoll a => (epollServer handler s a).map .epoll
  | _, _ => none

/-- The thread is over. -/
def ended : ReactorThread → Bool
  | .entering _ _ => false
  | .scan s => match s.reactor.pc with | .stopped => true | _ => false
  | .epoll s => match s.reactor.pc with | .stopped => true | _ => false
  | .panicked => true

end ReactorThread

/-- What a step loads from `stop`. -/
def ThreadAct.loads : ThreadAct → Option Bool
  | .scan (.reactor (.load stop)) | .epoll (.reactor (.load stop)) => some stop
  | _ => none

/-- `reactor_loop` as a worker. -/
def reactorLoop (linux : Bool) (handler : Handler S) : Worker ReactorThread ThreadAct where
  step := ReactorThread.step linux handler
  loads := ThreadAct.loads
  ended := ReactorThread.ended

/-! ### The calling thread -/

/-- Where the thread stands that makes the call and then has the handle. -/
inductive ServePc (I : Type*) where
  /-- About to resolve the address. -/
  | resolve
  /-- About to make the next listener. -/
  | bind
  /-- About to start the thread for this listener. -/
  | spawn (listener : SocketAddr I) (listenFd : Nat)
  /-- The call has returned a `ServerHandle`. -/
  | serving
  /-- The call has returned an error. -/
  | failed
  | panicked
  /-- In `shutdown` or `drop`, about to store `true` in `stop`. -/
  | store (shutdown : Bool)
  /-- About to join the next thread. -/
  | join (shutdown : Bool)
  /-- The handle is gone. -/
  | gone
deriving DecidableEq

structure Server (I : Type*) where
  call : ServeCall
  /-- The `addr` of the handle, once it is known. -/
  addr : Option (SocketAddr I)
  /-- The listeners of the reactors. -/
  listeners : List (SocketAddr I)
  pool : Pool ReactorThread
  /-- How many threads `joins.drain(..)` has gone through. -/
  joined : Nat
  pc : ServePc I

inductive ServerAct (I : Type*) where
  /-- What `to_socket_addrs` returned. -/
  | resolve (addrs : Option (List (SocketAddr I)))
  /-- The new listener's address and descriptor, or an error. -/
  | bind (bound : Option (SocketAddr I × Nat))
  /-- Whether `thread::Builder::spawn` succeeds. -/
  | spawn (succeeds : Bool)
  /-- `shutdown` is called. -/
  | shutdown
  /-- The handle is dropped. -/
  | drop
  /-- The next step of `shutdown` or `drop`. -/
  | stop
  | reactor (i : Nat) (a : ThreadAct)

namespace Server

/-- The beginning of a call; `serve_on_cores` asserts that there is a core. -/
def start (call : ServeCall) : Server I where
  call := call
  addr := none
  listeners := []
  pool := .new
  joined := 0
  pc :=
    match call with
    | .serveWith _ => .bind
    | .serveOnCores [] _ => .panicked
    | .serveOnCores _ _ => .resolve

/-- The kernel binds to the address it is given, and chooses the port where that is 0. -/
def Binds (addr listener : SocketAddr I) : Prop :=
  listener.ip = addr.ip ∧ (addr.port ≠ 0 → listener.port = addr.port)

instance [DecidableEq I] (addr listener : SocketAddr I) : Decidable (Binds addr listener) :=
  inferInstanceAs (Decidable (_ ∧ _))

/-- `reuseport_listener(addr)?`, or in `serve_with` the three calls that make its listener. -/
def bindStep [DecidableEq I] (s : Server I) : Option (SocketAddr I × Nat) → Option (Server I)
  | none => some { s with pc := .failed }
  | some (listener, listenFd) =>
      match s.call, s.addr with
      | .serveWith _, _ => some { s with addr := some listener, pc := .spawn listener listenFd }
      | .serveOnCores _ _, some addr =>
          if Binds addr listener then some { s with pc := .spawn listener listenFd } else none
      | .serveOnCores _ _, none => none

/-- `thread::Builder::spawn(..)?` and the end of the loop's body. -/
def spawnStep (s : Server I) (listener : SocketAddr I) (listenFd : Nat) : Bool → Option (Server I)
  | false => some { s with pc := .failed }
  | true =>
      (s.call.reactors[s.pool.workers.length]?).map fun opts =>
        { s with
          listeners := s.listeners ++ [listener]
          pool := s.pool.spawn (.entering opts listenFd)
          pc :=
            if s.pool.workers.length + 1 < s.call.reactors.length then .bind else .serving }

/-- The next step of `shutdown` or `drop`. `shutdown` ends with the drop of its `self`. -/
def stopStep (linux : Bool) (handler : Handler S) (s : Server I) : Option (Server I) :=
  match s.pc with
  | .store shutdown => some { s with pool := s.pool.raise, pc := .join shutdown }
  | .join shutdown =>
      match s.pool.workers[s.joined]? with
      | some r =>
          if (reactorLoop linux handler).ended r then some { s with joined := s.joined + 1 } else none
      | none => some { s with pc := if shutdown then .store false else .gone }
  | _ => none

def step [DecidableEq I] (linux : Bool) (handler : Handler S) (s : Server I) :
    ServerAct I → Option (Server I)
  | .resolve addrs =>
      match s.pc with
      | .resolve =>
          match addrs with
          | some (addr :: _) => some { s with addr := some addr, pc := .bind }
          | _ => some { s with pc := .failed }
      | _ => none
  | .bind bound =>
      match s.pc with
      | .bind => s.bindStep bound
      | _ => none
  | .spawn succeeds =>
      match s.pc with
      | .spawn listener listenFd => s.spawnStep listener listenFd succeeds
      | _ => none
  | .shutdown => if s.pc = .serving then some { s with pc := .store true } else none
  | .drop => if s.pc = .serving then some { s with pc := .store false } else none
  | .stop => s.stopStep linux handler
  | .reactor i a =>
      (s.pool.work (reactorLoop linux handler) i a).map fun pool => { s with pool := pool }

/-- The states that a call comes to. -/
def Runs [DecidableEq I] (linux : Bool) (handler : Handler S) (call : ServeCall) (s : Server I) : Prop :=
  Reach (Server.step linux handler) Free (.start call) s

end Server

/-! ### What each reactor does -/

namespace ReactorThread

variable {linux : Bool} {handler : Handler S} {r r' : ReactorThread} {a : ThreadAct}

/-- The connections of a reactor, live or dropped, with their sockets. -/
def peers : ReactorThread → List (Conn × Socket)
  | .scan s => (s.reactor.conns ++ s.reactor.dropped).map fun c => (c, s.sockets c.id)
  | .epoll s => (s.reactor.live ++ s.reactor.dropped).map fun c => (c, s.sockets c.id)
  | _ => []

/-- The steps of a thread. -/
inductive Moved (linux : Bool) (handler : Handler S) :
    ReactorThread → ThreadAct → ReactorThread → Prop
  | entered {opts : ServeOptions} {listenFd : Nat} {created : Bool} :
      Moved linux handler (.entering opts listenFd) (.enter created)
        (if linux && opts.epoll then if created then .epoll (.startEpoll listenFd) else .panicked
        else .scan .startScan)
  | scanned {s t : Network Scan} {a : NetworkAct ScanAct} :
      scanServer handler s a = some t → Moved linux handler (.scan s) (.scan a) (.scan t)
  | handled {s t : Network Epoll} {a : NetworkAct EpollAct} :
      epollServer handler s a = some t → Moved linux handler (.epoll s) (.epoll a) (.epoll t)

theorem moved_of_step (moved : r.step linux handler a = some r') : Moved linux handler r a r' := by
  unfold ReactorThread.step at moved
  split at moved
  · cases moved
    exact .entered
  · obtain ⟨t, scanned, rfl⟩ := Option.map_eq_some_iff.1 moved
    exact .scanned scanned
  · obtain ⟨t, handled, rfl⟩ := Option.map_eq_some_iff.1 moved
    exact .handled handled
  · cases moved

/-- The reactor that was chosen has made a run of its own. -/
def Served (handler : Handler S) : ReactorThread → Prop
  | .scan s => Reach (scanServer handler) Free .startScan s
  | .epoll s => ∃ listenFd, Reach (epollServer handler) Free (.startEpoll listenFd) s
  | _ => True

theorem Served.step (served : r.Served handler) (moved : r.step linux handler a = some r') :
    r'.Served handler := by
  cases moved_of_step moved with
  | @entered opts listenFd created =>
      split
      · split
        · exact ⟨listenFd, Reach.refl _⟩
        · trivial
      · exact Reach.refl _
  | scanned scanned => exact Reach.tail served trivial scanned
  | handled handled =>
      obtain ⟨listenFd, served⟩ := served
      exact ⟨listenFd, served.tail trivial handled⟩

theorem ended_scan {s : Network Scan} : (ReactorThread.scan s).ended = true ↔ s.reactor.pc = .stopped := by
  rw [ended]
  split <;> simp_all

theorem ended_epoll {s : Network Epoll} :
    (ReactorThread.epoll s).ended = true ↔ s.reactor.pc = .stopped := by
  rw [ended]
  split <;> simp_all

/-- A thread that is over stays over. -/
theorem ended_step (over_ : r.ended = true) (moved : r.step linux handler a = some r') :
    r'.ended = true := by
  cases moved_of_step moved with
  | entered => cases over_
  | scanned scanned =>
      rw [ended_scan] at over_ ⊢
      rcases Network.step_cases scanned with ⟨_, same, _⟩ | ⟨b, rfl, _, _, stepped⟩
      · rw [same, over_]
      · cases b <;> simp [Scan.step, over_] at stepped
  | handled handled =>
      rw [ended_epoll] at over_ ⊢
      rcases Network.step_cases handled with ⟨_, same, _⟩ | ⟨b, rfl, _, _, stepped⟩
      · rw [same, over_]
      · cases b <;> simp [Epoll.step, over_] at stepped

/-- Only a load of `true` ends a scan. -/
theorem scan_step_stopped {s t : Scan} {a : ScanAct} (moved : s.step a = some t)
    (running : s.pc ≠ .stopped) (over_ : t.pc = .stopped) : a = .load true := by
  cases a with
  | load stop =>
      cases stop with
      | true => rfl
      | false =>
          simp only [Scan.step] at moved
          split at moved <;> cases moved
          cases over_
  | accept outcome reaction writes =>
      simp only [Scan.step] at moved
      split at moved
      · rename_i at_
        split at moved
        · cases moved
          exact absurd over_ running
        · cases moved
          exact absurd over_ running
        · obtain ⟨⟨conn, remove⟩, _, rfl⟩ := Option.map_eq_some_iff.1 moved
          dsimp only at over_
          split at over_ <;> rw [at_] at over_ <;> cases over_
        · cases moved
          cases over_
        · cases moved
          cases over_
      · cases moved
  | visit turn =>
      simp only [Scan.step] at moved
      split at moved
      · rename_i i at_
        split at moved
        · obtain ⟨⟨conn, remove⟩, _, rfl⟩ := Option.map_eq_some_iff.1 moved
          dsimp only at over_
          split at over_
          · rw [at_] at over_
            cases over_
          · cases over_
        · cases moved
      · cases moved
  | passEnds =>
      simp only [Scan.step] at moved
      split at moved
      · split at moved <;> cases moved
        cases over_
      · cases moved

/-- It uses the scan, and is not over. -/
def Scanning (linux : Bool) : ReactorThread → Prop
  | .entering opts _ => (linux && opts.epoll) = false
  | .scan s => s.reactor.pc ≠ .stopped
  | _ => False

/-- Where epoll is not used, a thread goes on until it sees the flag up. -/
theorem Scanning.step (scanning : r.Scanning linux) (down : a.loads ≠ some true)
    (moved : r.step linux handler a = some r') : r'.Scanning linux := by
  cases moved_of_step moved with
  | entered =>
      have portable : _ = false := scanning
      rw [portable]
      exact fun never => by cases never
  | scanned scanned =>
      have running : _ ≠ _ := scanning
      intro over_
      rcases Network.step_cases scanned with ⟨_, same, _⟩ | ⟨b, rfl, _, _, stepped⟩
      · rw [same] at over_
        exact running over_
      · obtain rfl := scan_step_stopped stepped running over_
        exact down rfl
  | handled => exact scanning.elim

/-- The scans that a worker makes while the flag is down do not end. -/
theorem scanning_of_unstopped {opts : ServeOptions} {listenFd : Nat}
    (portable : (linux && opts.epoll) = false)
    (run : Reach (reactorLoop linux handler).step (Pool.Unstopped (reactorLoop linux handler) false)
      (.entering opts listenFd) r) : r.Scanning linux :=
  run.invariant portable fun _ _ _ scanning down moved => scanning.step (down rfl) moved

theorem Scanning.not_ended (scanning : r.Scanning linux) : r.ended = false := by
  cases r with
  | entering opts listenFd => rfl
  | scan s => exact Bool.eq_false_iff.2 fun over_ => scanning (ended_scan.1 over_)
  | epoll s => exact scanning.elim
  | panicked => exact scanning.elim

end ReactorThread

/-! ### The handle -/

/-- The reactors are not all started yet. -/
def ServePc.starting : ServePc I → Bool
  | .resolve | .bind | .spawn _ _ | .failed => true
  | _ => false

/-- Nobody has come to raise the flag. -/
def ServePc.before : ServePc I → Bool
  | .store _ | .join _ | .gone => false
  | _ => true

/-- The listener that no reactor has yet. -/
def ServePc.pending : ServePc I → List (SocketAddr I)
  | .spawn listener _ => [listener]
  | _ => []

namespace Server

variable {linux : Bool} {handler : Handler S} {s t : Server I}

/-- A listener of this call: the address of the handle is its own, or what it was bound to. -/
def Listens (s : Server I) (listener : SocketAddr I) : Prop :=
  match s.call with
  | .serveWith _ => s.addr = some listener
  | .serveOnCores _ _ => ∃ addr, s.addr = some addr ∧ Binds addr listener

/-- What holds between the calling thread and the reactors. -/
structure Inv (linux : Bool) (handler : Handler S) (s : Server I) : Prop where
  pool : s.pool.Inv (reactorLoop linux handler) fun r =>
    ∃ opts ∈ s.call.reactors, ∃ listenFd, r = .entering opts listenFd
  short : s.pc.starting = true → s.pool.workers.length < s.call.reactors.length
  all : s.pc.starting = false → s.pool.workers.length = s.call.reactors.length
  quiet : s.pc.before = true → s.pool.stop = false
  over_ : ∀ i < s.joined, ∃ r, s.pool.workers[i]? = some r ∧ r.ended = true
  gone : s.pc = .gone → s.pool.workers.length ≤ s.joined
  listeners : s.listeners.length = s.pool.workers.length
  listens : ∀ listener ∈ s.listeners ++ s.pc.pending, s.Listens listener
  unresolved : s.pc = .resolve → s.listeners = []

theorem inv_start (call : ServeCall) : Inv linux handler (start call : Server I) := by
  have fresh : ∀ pc : ServePc I, pc.pending = [] → pc.before = true → pc ≠ .gone →
      (pc.starting = true → 0 < call.reactors.length) →
      (pc.starting = false → 0 = call.reactors.length) →
      Inv linux handler { (start call : Server I) with pc := pc } := by
    intro pc none_ before here short all
    refine ⟨Pool.inv_new, short, all, fun _ => rfl, fun i never => absurd never (Nat.not_lt_zero i),
      fun gone => absurd gone here, rfl, fun listener member => ?_, fun _ => rfl⟩
    rw [none_] at member
    cases member
  cases call with
  | serveWith opts => exact fresh .bind rfl rfl (by simp) (fun _ => Nat.one_pos) fun never => by cases never
  | serveOnCores cores opts =>
      cases cores with
      | nil => exact fresh .panicked rfl rfl (by simp) (fun never => by cases never) fun _ => rfl
      | cons core cores =>
          exact fresh .resolve rfl rfl (by simp) (fun _ => Nat.succ_pos _) fun never => by cases never

/-- Only the place of the calling thread changes. -/
theorem Inv.pc (inv : Inv linux handler s) (pc : ServePc I) (starting : pc.starting = s.pc.starting)
    (before : pc.before = true → s.pc.before = true) (pending : pc.pending = [])
    (gone : pc = .gone → s.pool.workers.length ≤ s.joined) (later : pc ≠ .resolve) :
    Inv linux handler { s with pc := pc } where
  pool := inv.pool
  short := fun early => inv.short (starting ▸ early)
  all := fun late => inv.all (starting ▸ late)
  quiet := fun early => inv.quiet (before early)
  over_ := inv.over_
  gone := gone
  listeners := inv.listeners
  listens listener member := by
    rw [pending, List.append_nil] at member
    exact inv.listens listener (List.mem_append_left _ member)
  unresolved := fun never => absurd never later

/-- The call returns an error. -/
theorem Inv.failed (inv : Inv linux handler s) (starting : s.pc.starting = true)
    (before : s.pc.before = true) : Inv linux handler { s with pc := .failed } :=
  inv.pc .failed starting.symm (fun _ => before) rfl (fun never => by cases never)
    fun never => by cases never

/-- A listener was made. -/
theorem Inv.bind [DecidableEq I] {bound : Option (SocketAddr I × Nat)} (inv : Inv linux handler s)
    (at_ : s.pc = .bind) (moved : s.bindStep bound = some t) : Inv linux handler t := by
  have short := inv.short (by rw [at_]; rfl)
  have down := inv.quiet (by rw [at_]; rfl)
  have heard : ∀ listener ∈ s.listeners, s.Listens listener := fun listener member =>
    inv.listens listener (List.mem_append_left _ member)
  unfold bindStep at moved
  split at moved
  · cases moved
    exact inv.failed (by rw [at_]; rfl) (by rw [at_]; rfl)
  · rename_i listener listenFd
    split at moved
    · rename_i opts _ single
      cases moved
      -- `serve_with` has made no listener before.
      have none_ : s.listeners = [] := by
        rw [single] at short
        exact List.length_eq_zero_iff.1 (inv.listeners.trans (Nat.lt_one_iff.1 short))
      refine ⟨inv.pool, fun _ => short, (fun never => by cases never), fun _ => down, inv.over_,
        (fun never => by cases never), inv.listeners, fun other member => ?_,
        fun never => by cases never⟩
      rw [none_] at member
      obtain rfl := List.mem_singleton.1 member
      simp only [Listens, single]
    · rename_i cores opts addr several known
      split at moved
      · rename_i binds
        cases moved
        refine ⟨inv.pool, fun _ => short, (fun never => by cases never), fun _ => down, inv.over_,
          (fun never => by cases never), inv.listeners, fun other member => ?_,
        fun never => by cases never⟩
        rcases List.mem_append.1 member with old | new
        · exact heard other old
        · obtain rfl := List.mem_singleton.1 new
          simp only [Listens, several]
          exact ⟨addr, known, binds⟩
      · cases moved
    · cases moved

/-- A reactor was started, or could not be. -/
theorem Inv.spawn {listener : SocketAddr I} {listenFd : Nat} {succeeds : Bool}
    (inv : Inv linux handler s) (at_ : s.pc = .spawn listener listenFd)
    (moved : s.spawnStep listener listenFd succeeds = some t) : Inv linux handler t := by
  have short := inv.short (by rw [at_]; rfl)
  have down := inv.quiet (by rw [at_]; rfl)
  cases succeeds with
  | false =>
      cases moved
      exact inv.failed (by rw [at_]; rfl) (by rw [at_]; rfl)
  | true =>
      obtain ⟨opts, found, rfl⟩ := Option.map_eq_some_iff.1 moved
      have longer : (s.pool.spawn (.entering opts listenFd)).workers.length =
          s.pool.workers.length + 1 := List.length_append
      have heard : ∀ other ∈ s.listeners ++ [listener], s.Listens other := by
        have listens := inv.listens
        rw [at_] at listens
        exact listens
      refine ⟨inv.pool.spawn ⟨opts, List.mem_of_getElem? found, listenFd, rfl⟩, fun early => ?_,
        fun late => ?_, fun _ => down, fun i earlier => ?_, fun never => ?_, ?_, fun other member => ?_,
        fun never => ?_⟩
      · rw [longer]
        dsimp only at early
        split at early
        · rename_i more
          exact more
        · cases early
      · rw [longer]
        dsimp only at late
        split at late
        · cases late
        · dsimp only
          omega
      · obtain ⟨r, there, over_⟩ := inv.over_ i earlier
        have inside := (List.getElem?_eq_some_iff.1 there).1
        exact ⟨r, (List.getElem?_append_left inside).trans there, over_⟩
      · dsimp only at never
        split at never <;> cases never
      · rw [longer, ← inv.listeners]
        exact List.length_append
      · refine heard other ?_
        dsimp only at member
        split at member <;> simpa [ServePc.pending] using member
      · dsimp only at never
        split at never <;> cases never

/-- The flag is raised, a thread is joined, or the handle is gone. -/
theorem Inv.stop (inv : Inv linux handler s) (moved : s.stopStep linux handler = some t) :
    Inv linux handler t := by
  unfold stopStep at moved
  split at moved
  · rename_i shutdown at_
    cases moved
    have late : s.pc.starting = false := by rw [at_]; rfl
    refine ⟨inv.pool.raise, fun never => (by cases never), fun _ => inv.all late,
      fun never => (by cases never), inv.over_, fun never => (by cases never), inv.listeners, ?_,
      fun never => by cases never⟩
    intro listener member
    exact inv.listens listener (by rw [at_]; exact member)
  · rename_i shutdown at_
    have late : s.pc.starting = false := by rw [at_]; rfl
    split at moved
    · rename_i r found
      split at moved
      · rename_i over_
        cases moved
        refine ⟨inv.pool, inv.short, inv.all, inv.quiet, fun i earlier => ?_, fun gone => ?_,
          inv.listeners, inv.listens, inv.unresolved⟩
        · rcases Nat.lt_succ_iff_lt_or_eq.1 earlier with before | rfl
          · exact inv.over_ i before
          · exact ⟨r, found, over_⟩
        · exact (inv.gone gone).trans (Nat.le_succ _)
      · cases moved
    · rename_i none_
      cases moved
      have through := List.getElem?_eq_none_iff.1 none_
      cases shutdown with
      | true =>
          exact inv.pc _ (by rw [late]; rfl) (fun never => by cases never) rfl (fun never => by cases never)
            fun never => by cases never
      | false =>
          exact inv.pc _ (by rw [late]; rfl) (fun never => by cases never) rfl (fun _ => through)
            fun never => by cases never
  · cases moved

/-- A reactor moves. -/
theorem Inv.reactor {i : Nat} {a : ThreadAct} {pool : Pool ReactorThread} (inv : Inv linux handler s)
    (moved : s.pool.work (reactorLoop linux handler) i a = some pool) :
    Inv linux handler { s with pool := pool } := by
  have kept := inv.pool.work moved
  obtain ⟨r, r', found, stepped, _, rfl⟩ := Pool.work_cases moved
  have same : (s.pool.workers.set i r').length = s.pool.workers.length := List.length_set
  refine ⟨kept, fun early => ?_, fun late => ?_, inv.quiet, fun j earlier => ?_, fun gone => ?_, ?_,
    inv.listens, inv.unresolved⟩
  · exact same.trans_lt (inv.short early)
  · exact same.trans (inv.all late)
  · obtain ⟨other, there, over_⟩ := inv.over_ j earlier
    by_cases here : i = j
    · subst here
      rw [found] at there
      cases there
      have inside := (List.getElem?_eq_some_iff.1 found).1
      exact ⟨r', List.getElem?_set_self inside, ReactorThread.ended_step over_ stepped⟩
    · exact ⟨other, (List.getElem?_set_ne here).trans there, over_⟩
  · exact same.trans_le (inv.gone gone)
  · exact inv.listeners.trans same.symm

variable [DecidableEq I] {call : ServeCall}

theorem Inv.step {a : ServerAct I} (inv : Inv linux handler s)
    (moved : s.step linux handler a = some t) : Inv linux handler t := by
  cases a with
  | resolve addrs =>
      simp only [Server.step] at moved
      split at moved
      · rename_i at_
        split at moved
        · -- No listener was made of an earlier address.
          have none_ := inv.unresolved at_
          have short := inv.short (by rw [at_]; rfl)
          have down := inv.quiet (by rw [at_]; rfl)
          cases moved
          refine ⟨inv.pool, fun _ => short, (fun never => by cases never), fun _ => down, inv.over_,
            (fun never => by cases never), inv.listeners, fun listener member => ?_,
            fun never => by cases never⟩
          rw [none_] at member
          cases member
        · cases moved
          exact inv.failed (by rw [at_]; rfl) (by rw [at_]; rfl)
      · cases moved
  | bind bound =>
      simp only [Server.step] at moved
      split at moved
      · rename_i at_
        exact inv.bind at_ moved
      · cases moved
  | spawn succeeds =>
      simp only [Server.step] at moved
      split at moved
      · rename_i at_
        exact inv.spawn at_ moved
      · cases moved
  | shutdown =>
      obtain ⟨at_, rfl⟩ := guarded moved
      exact inv.pc _ (by rw [at_]; rfl) (fun never => by cases never) rfl (fun never => by cases never)
        fun never => by cases never
  | drop =>
      obtain ⟨at_, rfl⟩ := guarded moved
      exact inv.pc _ (by rw [at_]; rfl) (fun never => by cases never) rfl (fun never => by cases never)
        fun never => by cases never
  | stop => exact inv.stop moved
  | reactor i a =>
      obtain ⟨pool, worked, rfl⟩ := Option.map_eq_some_iff.1 moved
      exact inv.reactor worked

theorem inv_of_run (run : Runs linux handler call s) : Inv linux handler s :=
  run.invariant (inv_start call) fun _ _ _ inv _ moved => inv.step moved

/-- A call that has failed has the threads that it has started, and does nothing more. -/
theorem failed_step {a : ServerAct I} (failed : s.pc = .failed)
    (moved : s.step linux handler a = some t) :
    t.pc = .failed ∧ t.pool.workers.length = s.pool.workers.length := by
  cases a with
  | reactor i a =>
      obtain ⟨pool, worked, rfl⟩ := Option.map_eq_some_iff.1 moved
      obtain ⟨_, _, _, _, _, rfl⟩ := Pool.work_cases worked
      exact ⟨failed, List.length_set⟩
  | _ => simp [Server.step, stopStep, failed] at moved

theorem call_step {a : ServerAct I} (moved : s.step linux handler a = some t) : t.call = s.call := by
  cases a with
  | resolve addrs =>
      simp only [Server.step] at moved
      split at moved
      · split at moved <;> cases moved <;> rfl
      · cases moved
  | bind bound =>
      simp only [Server.step, bindStep] at moved
      split at moved
      · split at moved
        · cases moved
          rfl
        · split at moved
          · cases moved
            rfl
          · split at moved <;> cases moved
            rfl
          · cases moved
      · cases moved
  | spawn succeeds =>
      simp only [Server.step] at moved
      split at moved
      · cases succeeds with
        | false =>
            cases moved
            rfl
        | true =>
            obtain ⟨opts, _, rfl⟩ := Option.map_eq_some_iff.1 moved
            rfl
      · cases moved
  | shutdown | drop =>
      obtain ⟨_, rfl⟩ := guarded moved
      rfl
  | stop =>
      simp only [Server.step, stopStep] at moved
      split at moved
      · cases moved
        rfl
      · split at moved
        · split at moved <;> cases moved
          rfl
        · cases moved
          rfl
      · cases moved
  | reactor i a =>
      obtain ⟨pool, _, rfl⟩ := Option.map_eq_some_iff.1 moved
      rfl

theorem call_of_run (run : Runs linux handler call s) : s.call = call :=
  run.invariant (P := fun s => s.call = call) rfl fun _ _ _ same _ moved => (call_step moved).trans same

/-- Every reactor of the server has made a run of its own. -/
theorem served_of_mem (run : Runs linux handler call s) {r : ReactorThread}
    (member : r ∈ s.pool.workers) : r.Served handler := by
  obtain ⟨first, ⟨opts, _, listenFd, rfl⟩, own⟩ := (inv_of_run run).pool r member
  exact own.invariant (P := fun r => r.Served handler) trivial fun _ _ _ served _ moved =>
    served.step moved

/-- Without epoll no thread is over before somebody raises the flag. -/
theorem running_of_run (run : Runs linux handler call s)
    (portable : ∀ opts ∈ call.reactors, (linux && opts.epoll) = false) (down : s.pool.stop = false) :
    ∀ r ∈ s.pool.workers, r.ended = false := by
  intro r member
  obtain ⟨first, ⟨opts, asked, listenFd, rfl⟩, own⟩ := (inv_of_run run).pool r member
  rw [call_of_run run] at asked
  rw [down] at own
  exact (ReactorThread.scanning_of_unstopped (portable opts asked) own).not_ended

end Server

variable {linux : Bool} [DecidableEq I] {call : ServeCall} {s t : Server I}

/-- Whatever the peers of a server do on whichever of its reactors, and however the kernel spreads them,
    each of them is sent the beginning of the reply to what it has sent, and the whole reply once
    everything was read and flushed; so peers that have sent the same are then sent the same. -/
theorem served_of_run {handler : Handler S} {reply : List UInt8 → List UInt8}
    (streaming : handler.Streaming reply) (run : Server.Runs linux handler call s) :
    (∀ r ∈ s.pool.workers, ∀ p ∈ r.peers, Answered (reply p.2.arrived) p.2 p.1) ∧
      ∀ r ∈ s.pool.workers, ∀ r' ∈ s.pool.workers, ∀ p ∈ r.peers, ∀ q ∈ r'.peers,
        p.2.arrived = q.2.arrived → p.2.queue = [] → p.1.io.out = [] →
          q.2.queue = [] → q.1.io.out = [] → p.1.sent = q.1.sent := by
  have answered : ∀ r ∈ s.pool.workers, ∀ p ∈ r.peers, Answered (reply p.2.arrived) p.2 p.1 := by
    intro r member p peer
    have served := Server.served_of_mem run member
    cases r with
    | scan n =>
        obtain ⟨c, there, rfl⟩ := List.mem_map.1 peer
        exact Scan.answered_of_run streaming served c there
    | epoll n =>
        obtain ⟨listenFd, served⟩ := served
        obtain ⟨c, there, rfl⟩ := List.mem_map.1 peer
        exact Epoll.answered_of_run streaming served c there
    | entering opts listenFd => cases peer
    | panicked => cases peer
  refine ⟨answered, fun r member r' member' p peer q peer' history read flushed read' flushed' => ?_⟩
  rw [(answered r member p peer).whole read flushed, (answered r' member' q peer').whole read' flushed',
    history]

/-- Two reactors are started by `serve_on_cores`, and the second one serves a peer. -/
def startedOnTwoCores : List (ServerAct Unit) :=
  [.resolve (some [⟨(), 80⟩]), .bind (some (⟨(), 80⟩, 3)), .spawn true,
    .reactor 0 (.enter true), .bind (some (⟨(), 80⟩, 4)), .spawn true, .reactor 1 (.enter true)]

theorem served_of_run_echo :
    ∃ s, exec (Server.step false echo) (.start (.serveOnCores [2, 5] .default))
        (startedOnTwoCores ++ scannedEcho.map fun a => .reactor 1 (.scan a)) = some s ∧
      s.pool.workers.map (fun r => r.peers.map fun p => p.1.sent) = [[], [[1, 2, 3]]] ∧
      ∀ r ∈ s.pool.workers, ∀ p ∈ r.peers, Answered p.2.arrived p.2 p.1 := by
  have goesOn : ∃ s, exec (Server.step false echo) (.start (.serveOnCores [2, 5] .default))
        (startedOnTwoCores ++ scannedEcho.map fun a => .reactor 1 (.scan a)) = some s ∧
      s.pool.workers.map (fun r => r.peers.map fun p => p.1.sent) = [[], [[1, 2, 3]]] :=
    ⟨_, rfl, rfl⟩
  obtain ⟨s, executed, sent⟩ := goesOn
  exact ⟨s, executed, sent, (served_of_run echo_streaming (reach_of_exec executed)).1⟩

/-- The handle of a server: when a call returns one, it has started a reactor for each core, and each
    listens where the handle says, or where the kernel chose a port for it; until somebody shuts the
    server down or drops the handle, no scanning reactor is over; and when that has returned, all are. -/
theorem handle_of_run {handler : Handler S} (run : Server.Runs linux handler call s) :
    (s.pc = .serving → s.pool.workers.length = call.reactors.length ∧
      ∀ listener ∈ s.listeners, s.Listens listener) ∧
      (s.pc.before = true → (∀ opts ∈ call.reactors, (linux && opts.epoll) = false) →
        ∀ r ∈ s.pool.workers, r.ended = false) ∧
      (s.pc = .gone → s.pool.workers.length = call.reactors.length ∧
        ∀ r ∈ s.pool.workers, r.ended = true) := by
  have inv := Server.inv_of_run run
  have same := Server.call_of_run run
  refine ⟨fun at_ => ⟨?_, fun listener member => ?_⟩, fun before portable => ?_, fun at_ => ⟨?_, ?_⟩⟩
  · rw [← same]
    exact inv.all (by rw [at_]; rfl)
  · exact inv.listens listener (List.mem_append_left _ member)
  · exact Server.running_of_run run portable (inv.quiet before)
  · rw [← same]
    exact inv.all (by rw [at_]; rfl)
  · intro r member
    obtain ⟨i, found⟩ := List.mem_iff_getElem?.1 member
    have inside := (List.getElem?_eq_some_iff.1 found).1
    obtain ⟨other, there, over_⟩ := inv.over_ i (Nat.lt_of_lt_of_le inside (inv.gone at_))
    rw [found] at there
    cases there
    exact over_

/-- Both reactors see the flag, and are joined. -/
def stoppedOnTwoCores : List (ServerAct Unit) :=
  [.shutdown, .reactor 0 (.scan (.reactor (.load false))), .stop,
    .reactor 1 (.scan (.reactor (.load true))),
    .reactor 0 (.scan (.reactor (.accept .wouldBlock [] []))), .reactor 0 (.scan (.reactor .passEnds)),
    .reactor 0 (.scan (.reactor (.load true))), .stop, .stop, .stop, .stop, .stop]

theorem handle_of_run_stopped :
    ∃ s, exec (Server.step false echo) (.start (.serveOnCores [2, 5] .default))
        (startedOnTwoCores ++ stoppedOnTwoCores) = some s ∧
      s.pc = .gone ∧ s.pool.workers.length = 2 ∧ ∀ r ∈ s.pool.workers, r.ended = true := by
  have goesOn : ∃ s, exec (Server.step false echo) (.start (.serveOnCores [2, 5] .default))
      (startedOnTwoCores ++ stoppedOnTwoCores) = some s ∧ s.pc = .gone := ⟨_, rfl, rfl⟩
  obtain ⟨s, executed, at_⟩ := goesOn
  obtain ⟨_, _, gone⟩ := handle_of_run (reach_of_exec executed)
  exact ⟨s, executed, at_, gone at_⟩

/-- A call that fails leaves the reactors that it had started running: nothing that happens later stops
    one of them, because nobody holds their flag. -/
theorem left_running_of_failed {handler : Handler S} (run : Server.Runs linux handler call s)
    (portable : ∀ opts ∈ call.reactors, (linux && opts.epoll) = false) (failed : s.pc = .failed)
    (later : Reach (Server.step linux handler) Free s t) :
    t.pc = .failed ∧ t.pool.workers.length = s.pool.workers.length ∧
      ∀ r ∈ t.pool.workers, r.ended = false := by
  obtain ⟨still, same⟩ := later.invariant
    (P := fun t => t.pc = .failed ∧ t.pool.workers.length = s.pool.workers.length) ⟨failed, rfl⟩
    fun _ _ _ kept _ moved =>
      have stays := Server.failed_step kept.1 moved
      ⟨stays.1, stays.2.trans kept.2⟩
  have down := (Server.inv_of_run (run.trans later)).quiet (by rw [still]; rfl)
  exact ⟨still, same, Server.running_of_run (run.trans later) portable down⟩

/-- The second listener cannot be made; the first reactor goes on to serve its peers. -/
theorem left_running_of_failed_bind :
    ∃ s t, exec (Server.step false echo) (.start (.serveOnCores [2, 5] .default))
        [.resolve (some [⟨(), 80⟩]), .bind (some (⟨(), 80⟩, 3)), .spawn true, .bind none] = some s ∧
      exec (Server.step false echo) s
        (.reactor 0 (.enter true) :: scannedEcho.map fun a => .reactor 0 (.scan a)) = some t ∧
      t.pc = .failed ∧ t.pool.workers.length = 1 ∧ ∀ r ∈ t.pool.workers, r.ended = false := by
  have goesOn : ∃ s t, exec (Server.step false echo) (.start (.serveOnCores [2, 5] .default))
        [.resolve (some [⟨(), 80⟩]), .bind (some (⟨(), 80⟩, 3)), .spawn true, .bind none] = some s ∧
      exec (Server.step false echo) s
        (.reactor 0 (.enter true) :: scannedEcho.map fun a => .reactor 0 (.scan a)) = some t ∧
      s.pc = .failed ∧ s.pool.workers.length = 1 := ⟨_, _, rfl, rfl, rfl, rfl⟩
  obtain ⟨s, t, executed, later, at_, one⟩ := goesOn
  obtain ⟨still, same, running⟩ := left_running_of_failed (reach_of_exec executed)
    (fun _ _ => rfl) at_ (reach_of_exec later)
  exact ⟨s, t, executed, later, still, same.trans one, running⟩

end AetherFlow.Net
