/-
Module: AetherFlow.System.Teardown
Purpose: What is left of a `System` when its `drop` has returned: no core thread runs any more, and every
  actor that was ever spawned on a core whose loop has returned was started and is gone. While it
  lives, an actor is rebuilt only if it was spawned for that.
Trusted boundary: none
Main exports: Runtime.Closing, ended_of_dropped, RebuildInv, rebuilt_only_if_supervised
-/
import AetherFlow.System.Placement

namespace AetherFlow.System

open Transition

variable {w n : Nat} {A M : Type*} {policy : Policy}

/-! ### Dropping -/

/-- `Shutdown` was sent to core `i`. -/
def DropPc.told : DropPc → Nat → Bool
  | .running, _ => false
  | .sending j, i => i < j
  | .joining _, _ | .handles _, _ | .dropped, _ => true

/-- Core `i` was joined. -/
def DropPc.hasJoined : DropPc → Nat → Bool
  | .running, _ | .sending _, _ => false
  | .joining j, i => i < j
  | .handles _, _ | .dropped, _ => true

/-- A core thread that is over makes no step of its own. -/
theorem over_of_step {core core' : Core A M} {input : Input A M} (over_ : core.pc.over = true)
    (moved : core.step policy input = some core') : core'.pc = core.pc := by
  rcases step_cases moved with moved | moved
  · exact (environment_frame moved).1
  · cases at_ : core.pc with
    | exited | unwound => simp [Core.loopStep, at_] at moved
    | _ => simp [at_, Pc.over] at over_

namespace Runtime

variable {s t : Runtime w A M}

/-- How far the drop is: the calls are over, and what it has done at each core stays done. -/
structure Closing (s : Runtime w A M) : Prop where
  alone : s.drop ≠ .running → ∀ call ∈ s.calls, call.pc.finished = true
  untold : ∀ i core, s.cores[i]? = some core → s.drop.told i = false → core.sentBefore = none
  told : ∀ i core, s.cores[i]? = some core → s.drop.told i = true →
    core.sentBefore = some core.sent
  joined : ∀ i core, s.cores[i]? = some core → s.drop.hasJoined i = true → core.pc.over = true

/-- While a call is under way nothing is dropped. -/
theorem Closing.running (closing : Closing s) {c : Nat} {call : SpawnCall A}
    (found : s.calls[c]? = some call) (unfinished : call.pc.finished = false) :
    s.drop = .running := by
  by_contra later
  rw [closing.alone later call (List.mem_of_getElem? found)] at unfinished
  cases unfinished

theorem Closing.setPc (closing : Closing s) {c : Nat} {call : SpawnCall A} (pc : SpawnPc A)
    (found : s.calls[c]? = some call) (unfinished : call.pc.finished = false) :
    Closing (s.setPc c call pc) where
  alone later := absurd (closing.running found unfinished) later
  untold := closing.untold
  told := closing.told
  joined := closing.joined

/-- Core `i` makes a step of its own, or a message comes to it that is not about the drop. -/
theorem Closing.setCore (closing : Closing s) {i : Nat} {core core' : Core A M}
    {input : Input A M} (found : s.cores[i]? = some core)
    (moved : core.step policy input = some core') (before : core'.sentBefore = core.sentBefore)
    (sent : s.drop.told i = true → core'.sent = core.sent) : Closing (s.setCore i core') := by
  have inside := (List.getElem?_eq_some_iff.1 found).1
  have cases_ : ∀ {j : Nat} {other : Core A M}, (s.cores.set i core')[j]? = some other →
      j = i ∧ other = core' ∨ s.cores[j]? = some other := by
    intro j other there
    rw [List.getElem?_set] at there
    split at there
    · rename_i here
      subst here
      exact .inl ⟨rfl, (Option.some.inj there).symm⟩
    · exact .inr there
  refine ⟨closing.alone, fun j other there untold => ?_, fun j other there told => ?_,
    fun j other there joined => ?_⟩
  · rcases cases_ there with ⟨rfl, rfl⟩ | old
    · rw [before]
      exact closing.untold j core found untold
    · exact closing.untold j other old untold
  · rcases cases_ there with ⟨rfl, rfl⟩ | old
    · rw [before, sent told]
      exact closing.told j core found told
    · exact closing.told j other old told
  · rcases cases_ there with ⟨rfl, rfl⟩ | old
    · have over_ := closing.joined j core found joined
      rw [over_of_step over_ moved]
      exact over_
    · exact closing.joined j other old joined

/-- The drop goes on, and nothing else changes. -/
theorem Closing.next (closing : Closing s) {pc : DropPc}
    (alone : ∀ call ∈ s.calls, call.pc.finished = true)
    (told : ∀ i core, s.cores[i]? = some core → pc.told i = s.drop.told i)
    (joined : ∀ i core, s.cores[i]? = some core → pc.hasJoined i = true →
      s.drop.hasJoined i = true ∨ core.pc.over = true) : Closing { s with drop := pc } where
  alone _ := alone
  untold i core found untold := closing.untold i core found (told i core found ▸ untold)
  told i core found told' := closing.told i core found (told i core found ▸ told')
  joined i core found joined' := by
    rcases joined i core found joined' with before | here
    · exact closing.joined i core found before
    · exact here

theorem getElem?_lt_of_none {i j : Nat} {core : Core A M} (none_ : s.cores[i]? = none)
    (found : s.cores[j]? = some core) : j < i := by
  have inside := (List.getElem?_eq_some_iff.1 found).1
  have outside := List.getElem?_eq_none_iff.1 none_
  omega

/-- `Shutdown` reaches core `i`. -/
theorem Closing.sendShutdown (closing : Closing s) {i : Nat} {core core' : Core A M}
    (at_ : s.drop = .sending i) (found : s.cores[i]? = some core)
    (sent : core.environment .sendShutdown = some core') :
    Closing { s.setCore i core' with drop := .sending (i + 1) } := by
  obtain ⟨_, rfl⟩ := guarded sent
  have inside := (List.getElem?_eq_some_iff.1 found).1
  have own : core.sentBefore = none := by
    refine closing.untold i core found ?_
    rw [at_]
    simp [DropPc.told]
  refine ⟨fun _ => closing.alone (by simp [at_]), fun j other there untold => ?_,
    fun j other there told => ?_, fun _ _ _ never => by cases never⟩
  · have later : i + 1 ≤ j := by simpa [DropPc.told] using untold
    have same : (s.cores.set i _)[j]? = some other := there
    rw [List.getElem?_set_ne (by omega)] at same
    refine closing.untold j other same ?_
    rw [at_]
    simp only [DropPc.told, decide_eq_false_iff_not]
    omega
  · have now : (s.cores.set i _)[j]? = some other := there
    rw [List.getElem?_set] at now
    split at now
    · cases now
      rw [own]
      rfl
    · rename_i elsewhere
      refine closing.told j other now ?_
      have earlier : j < i + 1 := by simpa [DropPc.told] using told
      rw [at_]
      simp only [DropPc.told, decide_eq_true_eq]
      omega

theorem Closing.step (closing : Closing s) (moved : Move policy s t) : Closing t := by
  cases moved with
  | core found moved =>
      obtain ⟨sent, before⟩ := sent_of_loopStep moved
      exact closing.setCore found (step_of_loopStep moved) before fun _ => sent
  | called knobs given running =>
      exact ⟨fun later => absurd running later, closing.untold, closing.told, closing.joined⟩
  | ticket found at_ =>
      have after := closing.setPc (.place none) found (by rw [at_]; rfl)
      have running := closing.running found (by rw [at_]; rfl)
      exact ⟨fun later => absurd running later, after.untold, after.told, after.joined⟩
  | placed found at_ => exact closing.setPc _ found (by rw [at_]; rfl)
  | made found at_ => exact closing.setPc _ found (by rw [at_]; rfl)
  | failed found unfinished => exact closing.setPc _ found unfinished
  | @installed c i call actor core core' found at_ there sent =>
      have unfinished := unfinished_of_install at_
      have running := closing.running found unfinished
      have after := closing.setPc (.returned i core.sent) found unfinished
      have stepped : core.step policy _ = some core' := step_of_environment sent
      obtain ⟨_, rfl⟩ := guarded sent
      refine after.setCore there stepped rfl fun told => ?_
      have told : s.drop.told i = true := told
      rw [running] at told
      cases told
  | dropCalled running alone =>
      refine closing.next alone (fun i core _ => ?_) fun _ _ _ never => by cases never
      rw [running]
      simp [DropPc.told]
  | told at_ found sent => exact closing.sendShutdown at_ found sent
  | toldAll at_ none_ =>
      refine closing.next (closing.alone (by simp [at_])) (fun i core found => ?_)
        fun i core found joined => ?_
      · have inside := getElem?_lt_of_none none_ found
        rw [at_]
        simp [DropPc.told, inside]
      · simp [DropPc.hasJoined] at joined
  | @joined i core at_ found over_ =>
      refine closing.next (closing.alone (by simp [at_])) (fun j other _ => by rw [at_]; rfl)
        fun j other there joined => ?_
      have earlier : j < i + 1 := by simpa [DropPc.hasJoined] using joined
      rcases Nat.lt_succ_iff_lt_or_eq.1 earlier with before | rfl
      · refine .inl ?_
        rw [at_]
        simpa [DropPc.hasJoined] using before
      · rw [found] at there
        cases there
        exact .inr over_
  | joinedAll at_ none_ =>
      refine closing.next (closing.alone (by simp [at_])) (fun j other _ => by rw [at_]; rfl)
        fun j other there _ => .inl ?_
      have inside := getElem?_lt_of_none none_ there
      rw [at_]
      simpa [DropPc.hasJoined] using inside
  | @disconnected i core core' at_ found gone =>
      have told : (DropPc.handles (i + 1)).told = s.drop.told := by rw [at_]; rfl
      have joined : (DropPc.handles (i + 1)).hasJoined = s.drop.hasJoined := by rw [at_]; rfl
      have stepped : core.step policy _ = some core' := step_of_environment gone
      obtain ⟨_, rfl⟩ := guarded gone
      have after := closing.setCore found stepped rfl fun _ => rfl
      refine ⟨fun _ => closing.alone (by simp [at_]), ?_, ?_, ?_⟩
      · intro j other there untold
        exact after.untold j other there (told ▸ untold)
      · intro j other there told'
        exact after.told j other there (told ▸ told')
      · intro j other there joined'
        exact after.joined j other there (joined ▸ joined')
  | disconnectedAll at_ none_ =>
      exact closing.next (closing.alone (by simp [at_])) (fun j other _ => by rw [at_]; rfl)
        fun j other there _ => .inl (by rw [at_]; rfl)

theorem closing_of_run (run : Runs policy n s) : Closing s := by
  obtain ⟨first, made, reached⟩ := run
  obtain ⟨_, rfl⟩ := guarded made
  refine reached.invariant ⟨fun later => absurd rfl later, fun i core found _ => ?_,
    fun _ _ _ never => (by cases never), fun _ _ _ never => (by cases never)⟩
    fun _ _ _ closing _ moved => closing.step (move_of_step moved)
  rw [List.getElem?_replicate] at found
  split at found <;> cases found
  rfl

end Runtime

/-- When `drop` has returned, no spawn call is under way and every core thread is over. A handle that was
    ever returned is to an actor that was started, as far as its `on_start` let it, and is gone: it was
    stopped or detached, if its core was not killed by a destructor. -/
theorem ended_of_dropped {s : Runtime w A M} (run : Runtime.Runs policy n s)
    (dropped : s.drop = .dropped) :
    (∀ call ∈ s.calls, call.pc.finished = true) ∧
      (∀ core ∈ s.cores, core.pc = .exited ∨ core.pc = .unwound) ∧
      ∀ c i id builder, s.Returned c i id builder → ∃ core, s.cores[i]? = some core ∧
        (core.pc = .exited → Life (core.trace id) .stopped ∨ Life (core.trace id) .detached) := by
  have closing := Runtime.closing_of_run run
  have books := Runtime.books_of_run run
  obtain ⟨_, _, cores⟩ := Runtime.coreRuns_of_run run
  refine ⟨closing.alone (by simp [dropped]), fun core member => ?_, fun c i id builder returned => ?_⟩
  · obtain ⟨i, found⟩ := List.mem_iff_getElem?.1 member
    have over_ := closing.joined i core found (by rw [dropped]; rfl)
    cases at_ : core.pc with
    | exited => exact .inl rfl
    | unwound => exact .inr rfl
    | _ => simp [at_, Pc.over] at over_
  · obtain ⟨sent, there⟩ := Option.isSome_iff_exists.1 (books.inRange c i id builder returned)
    obtain ⟨core, found, rfl⟩ := Option.map_eq_some_iff.1 there
    refine ⟨core, found, fun exited => ?_⟩
    have known := (books.cells i core.sent there id).2 ⟨c, builder, returned⟩
    have told := closing.told i core found (by rw [dropped]; rfl)
    refine (lifecycle_of_run (cores core (List.mem_of_getElem? found))).ended exited id ?_
    rw [told]
    exact known

/-! ### Who is rebuilt -/

/-- The event is a call of the factory. -/
def Event.makes : Event A M → Bool
  | .make _ => true
  | _ => false

/-- `poll_one` is past the decision to rebuild. -/
def PollPc.rebuilding : PollPc A M → Bool
  | .make | .onRestart _ | .replace _ => true
  | _ => false

def Loc.rebuilding : Loc A M → Bool
  | .polled pc => pc.rebuilding
  | _ => false

/-- Cell `id` was made with a factory, and with a policy under which it can be used. -/
def Rebuildable (spec : Nat → Bool → RestartPolicy → Prop) (id : Nat) : Prop :=
  ∃ restartPolicy, spec id true restartPolicy ∧ restartPolicy ≠ .never

/-- The cells are as `spec` says, and only those that can be are rebuilt. -/
def AsSpecified (spec : Nat → Bool → RestartPolicy → Prop) (cell : Cell A) (loc : Loc A M)
    (log : List (Entry A M)) : Prop :=
  spec cell.id cell.factory cell.restartPolicy ∧
    (loc.rebuilding = true → cell.factory = true ∧ cell.restartPolicy ≠ .never) ∧
    ∀ e ∈ log, e.event.makes = true → Rebuildable spec cell.id

def OnlyRebuildable (spec : Nat → Bool → RestartPolicy → Prop) (id : Nat)
    (log : List (Entry A M)) : Prop :=
  ∀ e ∈ log, e.event.makes = true → Rebuildable spec id

structure RebuildInv (spec : Nat → Bool → RestartPolicy → Prop) (s : Core A M) : Prop where
  placed : s.pc.dead = false → Placed (AsSpecified spec) (OnlyRebuildable spec) s
  made : ∀ e ∈ s.log, e.event.makes = true → Rebuildable spec e.cell

section Rebuilds

variable {spec spec' : Nat → Bool → RestartPolicy → Prop} {input : Input A M} {cell cell' : Cell A}
  {loc loc' : Loc A M} {events : List (Nat × Event A M)} {log : List (Entry A M)} {s t : Core A M}

/-- A new event is a call of the factory only while the cell is being rebuilt. -/
theorem onlyRebuildable_append (earlier : ∀ e ∈ log, e.event.makes = true → Rebuildable spec cell.id)
    (now : ∀ e ∈ events, e.2.makes = true → Rebuildable spec cell.id) :
    OnlyRebuildable spec cell.id (log ++ entries cell.id events) := by
  intro e member makes
  rcases List.mem_append.1 member with old | new
  · exact earlier e old makes
  · obtain ⟨event, there, rfl⟩ := List.mem_map.1 new
    exact now event there makes

theorem PollMove.asSpecified {overflowChecks : Bool} {pc pc' : PollPc A M}
    (move : PollMove overflowChecks cell pc input cell' pc' events)
    (before : AsSpecified spec cell (.polled pc) log) :
    AsSpecified spec cell' (.polled pc') (log ++ entries cell.id events) := by
  obtain ⟨as_, building, made⟩ := before
  have factory : pc.rebuilding = true → Rebuildable spec cell.id := by
    intro rebuilding
    obtain ⟨factory, policy⟩ := building rebuilding
    exact ⟨_, factory ▸ as_, policy⟩
  cases move with
  | decided some_ verdict =>
      refine ⟨as_, fun rebuilding => ?_, onlyRebuildable_append made fun _ never => (by cases never)⟩
      refine ⟨some_, fun policy => ?_⟩
      have policy : cell.restartPolicy = .never := policy
      rw [policy] at verdict
      cases verdict
      cases rebuilding
  | made | makeFailed =>
      refine ⟨as_, fun _ => building rfl, onlyRebuildable_append made fun _ _ _ => factory rfl⟩
  | restarted =>
      refine ⟨as_, fun _ => building rfl, onlyRebuildable_append made fun _ _ _ => factory rfl⟩
  | restartFailed | replaced =>
      exact ⟨as_, fun never => (by cases never),
        onlyRebuildable_append made fun _ _ _ => factory rfl⟩
  | empty | takes | unsupervised =>
      exact ⟨as_, fun never => (by cases never),
        onlyRebuildable_append made fun _ never => (by cases never)⟩
  | handled | broke =>
      refine ⟨as_, fun never => (by cases never),
        onlyRebuildable_append made fun e member makes => ?_⟩
      rw [List.mem_singleton.1 member] at makes
      cases makes

theorem CellStep.asSpecified (stepped : CellStep policy input cell loc events (some (cell', loc')))
    (before : AsSpecified spec cell loc log) :
    AsSpecified spec cell' loc' (log ++ entries cell.id events) := by
  obtain ⟨as_, building, made⟩ := before
  cases stepped with
  | polls move => exact move.asSpecified ⟨as_, building, made⟩
  | visited | again | calms | fails =>
      exact ⟨as_, fun never => (by cases never),
        onlyRebuildable_append made fun _ never => (by cases never)⟩
  | started | drained | closed =>
      refine ⟨as_, fun never => (by cases never),
        onlyRebuildable_append made fun e member makes => ?_⟩
      rw [List.mem_singleton.1 member] at makes
      cases makes

theorem CellStep.onlyRebuildable (stepped : CellStep policy input cell loc events none)
    (before : AsSpecified spec cell loc log) :
    OnlyRebuildable spec cell.id (log ++ entries cell.id events) := by
  obtain ⟨as_, building, made⟩ := before
  refine onlyRebuildable_append made fun e member makes => ?_
  cases stepped with
  | startFailed =>
      rcases List.mem_cons.1 member with rfl | member
      · cases makes
      · rw [List.mem_singleton.1 member] at makes
        cases makes
  | detached | drainFailed | stopped =>
      rw [List.mem_singleton.1 member] at makes
      cases makes

namespace RebuildInv

/-- What `spec` says of more cells. -/
theorem mono (inv : RebuildInv spec s) (more : ∀ id factory restartPolicy,
    spec id factory restartPolicy → spec' id factory restartPolicy) : RebuildInv spec' s := by
  have rebuildable : ∀ id, Rebuildable spec id → Rebuildable spec' id := by
    rintro id ⟨restartPolicy, as_, can⟩
    exact ⟨restartPolicy, more _ _ _ as_, can⟩
  refine ⟨fun alive => (inv.placed alive).mono ?_ ?_, fun e member makes =>
    rebuildable _ (inv.made e member makes)⟩
  · rintro cell loc log ⟨as_, building, made⟩
    exact ⟨more _ _ _ as_, building, fun e member makes => rebuildable _ (made e member makes)⟩
  · exact fun id log made e member makes => rebuildable _ (made e member makes)

theorem of_placed (placed : Placed (AsSpecified spec) (OnlyRebuildable spec) s) :
    RebuildInv spec s := by
  refine ⟨fun _ => placed, fun e member makes => ?_⟩
  have own : e ∈ s.trace e.cell := List.mem_filter.2 ⟨member, by simp⟩
  by_cases there : e.cell ∈ s.ids
  · obtain ⟨spot, present, same⟩ := Multiset.mem_map.1 there
    rw [← same] at own ⊢
    exact (placed.present spot present).2.2 e own makes
  · by_cases known : e.cell < s.sent
    · exact placed.gone e.cell known there e own makes
    · rw [placed.unknown e.cell (by omega)] at own
      cases own

theorem of_died (inv : RebuildInv spec s) (died : Died s t) : RebuildInv spec t := by
  refine ⟨fun alive => ?_, fun e member makes => ?_⟩
  · rw [died.dead] at alive
    cases alive
  · rcases died.log with same | ⟨cell, _, grown⟩
    · exact inv.made e (same ▸ member) makes
    · rw [grown] at member
      rcases List.mem_append.1 member with old | new
      · exact inv.made e old makes
      · rw [entries, List.map_singleton, List.mem_singleton] at new
        rw [new] at makes
        cases makes

theorem new : RebuildInv spec (Core.new : Core A M) where
  placed _ := Placed.new
  made _ member := by cases member

/-- A step that sends no cell, or sends one that is as `spec` says. -/
theorem step (inv : RebuildInv spec s) (moved : s.step policy input = some t)
    (arrives : ∀ actor factory restartPolicy, input = .sendAdd actor factory restartPolicy →
      spec s.sent factory restartPolicy) : RebuildInv spec t := by
  cases alive : s.pc.dead with
  | true =>
      rcases step_cases moved with sent | own
      · obtain ⟨pc, log, -⟩ := environment_frame sent
        refine ⟨fun lives => ?_, fun e member => inv.made e (log ▸ member)⟩
        rw [pc, alive] at lives
        cases lives
      · rw [alive_of_loopStep own] at alive
        cases alive
  | false =>
      have after := (inv.placed alive).step moved
        (fun actor factory restartPolicy sends =>
          ⟨arrives actor factory restartPolicy sends, fun never => (by cases never),
            fun _ never => (by cases never)⟩)
        (fun cell loc cell' loc' events log _ stepped _ before => stepped.asSpecified before)
        (fun cell loc events log _ stepped before => stepped.onlyRebuildable before)
      rcases after with placed | died
      · exact of_placed placed
      · exact inv.of_died died

end RebuildInv

end Rebuilds

/-- The cells that calls have had installed on core `i`, as they asked for them. -/
def Runtime.specOf (s : Runtime w A M) (i id : Nat) (factory : Bool)
    (restartPolicy : RestartPolicy) : Prop :=
  ∃ c builder, s.Returned c i id builder ∧ factory = builder.supervised ∧
    restartPolicy = builder.policy

namespace Runtime

variable {s t : Runtime w A M}

/-- A handle that was returned stays returned. -/
theorem Returned.step {c i id : Nat} {builder : SpawnBuilder} (returned : s.Returned c i id builder)
    (moved : Move policy s t) : t.Returned c i id builder := by
  cases moved with
  | called knobs given =>
      have inside := (List.getElem?_eq_some_iff.1 returned).1
      exact (List.getElem?_append_left inside).trans returned
  | @ticket d call given found at_ =>
      have unfinished : call.pc.finished = false := by rw [at_]; rfl
      refine (returned_setPc found unfinished ?_ c i id builder).2 returned
      cases given <;> exact fun _ _ never => by cases never
  | @placed d core call given found at_ =>
      have unfinished : call.pc.finished = false := by rw [at_]; rfl
      refine (returned_setPc found unfinished ?_ c i id builder).2 returned
      cases given <;> exact fun _ _ never => by cases never
  | @made d core call actor found at_ =>
      have unfinished : call.pc.finished = false := by rw [at_]; rfl
      exact (returned_setPc found unfinished (fun _ _ never => by cases never) c i id builder).2
        returned
  | failed found unfinished =>
      exact (returned_setPc found unfinished (fun _ _ never => by cases never) c i id builder).2
        returned
  | installed found at_ there sent =>
      have unfinished := unfinished_of_install at_
      exact (returned_setPc_returned found unfinished c i id builder).2 (.inl returned)
  | _ => exact returned

/-- Every core's cells are as the calls asked for them, and only those that can be are rebuilt. -/
def Rebuilds (s : Runtime w A M) : Prop :=
  ∀ i core, s.cores[i]? = some core → RebuildInv (s.specOf i) core

theorem Rebuilds.step (rebuilds : Rebuilds s) (moved : Move policy s t) : Rebuilds t := by
  have more : ∀ i id factory restartPolicy, s.specOf i id factory restartPolicy →
      t.specOf i id factory restartPolicy := by
    rintro i id factory restartPolicy ⟨c, builder, returned, same⟩
    exact ⟨c, builder, returned.step moved, same⟩
  have keep : t.cores = s.cores → Rebuilds t := by
    intro same i core found
    exact (rebuilds i core (same ▸ found)).mono (more i)
  have set_ : ∀ {i : Nat} {core core' : Core A M}, s.cores[i]? = some core →
      t.cores = s.cores.set i core' → RebuildInv (t.specOf i) core' → Rebuilds t := by
    intro i core core' found same now j other there
    rw [same, List.getElem?_set] at there
    split at there
    · rename_i here
      subst here
      have inside := (List.getElem?_eq_some_iff.1 found).1
      obtain rfl : core' = other := by simpa [inside] using there
      exact now
    · exact (rebuilds j other there).mono (more j)
  cases moved with
  | core found moved =>
      refine set_ found rfl (((rebuilds _ _ found).mono (more _)).step (step_of_loopStep moved) ?_)
      rintro actor factory restartPolicy rfl
      cases own_of_loopStep moved
  | @installed c i call actor core core' found at_ there sent =>
      have stepped : core.step policy _ = some core' := step_of_environment sent
      refine set_ there rfl (((rebuilds _ _ there).mono (more _)).step stepped ?_)
      intro actor' factory restartPolicy same
      cases same
      refine ⟨c, call.builder, ?_, rfl, rfl⟩
      exact (returned_setPc_returned found (unfinished_of_install at_) c i core.sent call.builder).2
        (.inr ⟨rfl, rfl, rfl, rfl⟩)
  | told at_ found sent =>
      have stepped : _ = some _ := @step_of_environment _ _ policy _ _ _ sent
      exact set_ found rfl
        (((rebuilds _ _ found).mono (more _)).step stepped fun _ _ _ never => by cases never)
  | disconnected at_ found gone =>
      have stepped : _ = some _ := @step_of_environment _ _ policy _ _ _ gone
      exact set_ found rfl
        (((rebuilds _ _ found).mono (more _)).step stepped fun _ _ _ never => by cases never)
  | _ => exact keep rfl

theorem rebuilds_of_run (run : Runs policy n s) : Rebuilds s := by
  obtain ⟨first, made, reached⟩ := run
  obtain ⟨_, rfl⟩ := guarded made
  refine reached.invariant (fun i core found => ?_) fun _ _ _ rebuilds _ moved =>
    Rebuilds.step rebuilds (move_of_step moved)
  rw [List.getElem?_replicate] at found
  split at found <;> cases found
  exact .new

end Runtime

/-- The knobs that ask for restarts. -/
def Knob.supervises : Knob → Bool
  | .supervised | .restartPolicy _ => true
  | _ => false

/-- The policy that is set last. -/
def lastPolicy : List Knob → Option RestartPolicy
  | [] => none
  | .restartPolicy policy :: knobs => (lastPolicy knobs).or (some policy)
  | _ :: knobs => lastPolicy knobs

/-- What a builder holds after its knobs were set. -/
theorem foldl_set (knobs : List Knob) (builder : SpawnBuilder) :
    (knobs.foldl .set builder).supervised = (builder.supervised || knobs.any Knob.supervises) ∧
      (knobs.foldl .set builder).restartPolicy = (lastPolicy knobs).or builder.restartPolicy := by
  induction knobs generalizing builder with
  | nil => simp [lastPolicy]
  | cons knob knobs inductionHypothesis =>
      obtain ⟨supervised, restartPolicy⟩ := inductionHypothesis (builder.set knob)
      rw [List.foldl_cons, supervised, restartPolicy, List.any_cons]
      cases knob with
      | restartPolicy policy =>
          simp only [SpawnBuilder.set, Knob.supervises, lastPolicy, Option.or_assoc, Option.some_or,
            Bool.true_or, Bool.or_true, and_self]
      | _ => simp [SpawnBuilder.set, Knob.supervises, lastPolicy]

/-- Whatever happens on the cores, the factory of an actor is called again only if one of its knobs was
    `supervised()` or `restart_policy(..)`, and the last policy that was set is not `Never`. -/
theorem rebuilt_only_if_supervised {s : Runtime w A M} (run : Runtime.Runs policy n s) {i : Nat}
    {core : Core A M} (found : s.cores[i]? = some core) {e : Entry A M} (member : e ∈ core.log)
    (makes : e.event.makes = true) :
    ∃ (c : Nat) (knobs : List Knob), s.Returned c i e.cell (knobs.foldl .set .build) ∧
      knobs.any Knob.supervises = true ∧ lastPolicy knobs ≠ some .never := by
  obtain ⟨restartPolicy, ⟨c, builder, returned, supervised, rfl⟩, can⟩ :=
    (Runtime.rebuilds_of_run run i core found).made e member makes
  obtain ⟨knobs, rfl⟩ := Runtime.builder_of_run run _ (List.mem_of_getElem? returned)
  obtain ⟨asks, last⟩ := foldl_set knobs .build
  refine ⟨c, knobs, returned, ?_, fun never => can ?_⟩
  · rw [asks] at supervised
    simpa [SpawnBuilder.build] using supervised.symm
  · rw [SpawnBuilder.policy, if_pos supervised.symm, last, never]
    rfl

/-- One core: a supervised actor is spawned, the `System` is dropped, and while it is told to stop the
    actor panics, is rebuilt and handles one more message. -/
def spawnedAndDropped : List (RuntimeAct Nat Nat) :=
  [.spawnOnSupervised 0, .spawn 0 (.goOn false), .spawn 0 (.made (some 0)), .spawn 0 (.goOn false),
    .drop, .drop, .drop] ++ (sampleInputs.drop 2).map (.core 0) ++ List.replicate 4 .drop

/-- A `System` with one core. -/
def oneCore : Runtime 64 Nat Nat := ⟨[.new], 0, [], .running, []⟩

def droppedSystem : Option (Runtime 64 Nat Nat) :=
  exec (Runtime.step samplePolicy) oneCore spawnedAndDropped

theorem spawnedAndDropped_runs : ∃ s : Runtime 64 Nat Nat, Runtime.Runs samplePolicy 1 s ∧
    s.drop = .dropped ∧ s.cores = [{ sampleEnd with connected := false }] ∧
    s.Returned 0 0 0 ([.core 0, .supervised].foldl .set .build) := by
  have runs : ∃ s, droppedSystem = some s ∧ s.drop = .dropped ∧
      s.cores = [{ sampleEnd with connected := false }] ∧
      s.Returned 0 0 0 ([.core 0, .supervised].foldl .set .build) := ⟨_, rfl, rfl, rfl, rfl⟩
  obtain ⟨s, executed, seen⟩ := runs
  exact ⟨s, ⟨oneCore, rfl, reach_of_exec executed⟩, seen⟩

theorem ended_of_spawnedAndDropped : ∃ s : Runtime 64 Nat Nat, s.drop = .dropped ∧
    s.Returned 0 0 0 ([.core 0, .supervised].foldl .set .build) ∧
    (∀ core ∈ s.cores, core.pc = .exited ∨ core.pc = .unwound) ∧
    ∃ core, s.cores[0]? = some core ∧
      (core.pc = .exited → Life (core.trace 0) .stopped ∨ Life (core.trace 0) .detached) := by
  obtain ⟨s, run, dropped, _, returned⟩ := spawnedAndDropped_runs
  obtain ⟨_, over_, ended⟩ := ended_of_dropped run dropped
  exact ⟨s, dropped, returned, over_, ended 0 0 0 _ returned⟩

theorem rebuilt_of_spawnedAndDropped : ∃ s : Runtime 64 Nat Nat, Runtime.Runs samplePolicy 1 s ∧
    ∃ (c : Nat) (knobs : List Knob), s.Returned c 0 0 (knobs.foldl .set .build) ∧
      knobs.any Knob.supervises = true ∧ lastPolicy knobs ≠ some .never := by
  obtain ⟨s, run, _, cores, _⟩ := spawnedAndDropped_runs
  refine ⟨s, run, rebuilt_only_if_supervised run (e := ⟨0, 1, .make .returned⟩)
    (by rw [cores]; rfl) ?_ rfl⟩
  simp [sampleEnd]

end AetherFlow.System
