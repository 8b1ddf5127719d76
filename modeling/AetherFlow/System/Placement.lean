/-
Module: AetherFlow.System.Placement
Purpose: Where a `System` places its actors. Every handle belongs to a cell of its own and every cell to
  a handle; a call that asks for a core gets it; the calls that do not are spread by a counter that
  wraps around, as evenly as the counter's numbers are.
Trusted boundary: none
Main exports: Runtime.Cursor, Runtime.Placed, placement_of_run, round_robin_of_run
-/
import AetherFlow.System.Runtime

namespace AetherFlow.System

open Transition

variable {w n : Nat} {A M : Type*} {policy : Policy}

/-- The core a call goes to, once it is chosen and unless the call panics. -/
def SpawnPc.target : SpawnPc A → Option Nat
  | .make core | .install core _ | .returned core _ => some core
  | .place _ | .panicked _ => none

/-- The core that the counter has chosen for a call. -/
def SpawnCall.chosen (call : SpawnCall A) : Option Nat :=
  if call.builder.core = none then call.pc.target else none

theorem chosen_of_asked (call : SpawnCall A) {k : Nat} (asked : call.builder.core = some k) :
    call.chosen = none := by
  rw [SpawnCall.chosen, asked]
  rfl

theorem chosen_of_anywhere (call : SpawnCall A) (anywhere : call.builder.core = none) :
    call.chosen = call.pc.target := if_pos anywhere

theorem target_afterPlace (core : Nat) (given : Option A) :
    (Runtime.afterPlace core given).target = some core := by
  cases given <;> rfl

namespace Runtime

variable {s t : Runtime w A M}

/-! ### The counter -/

/-- The counter has given out its tickets in order. -/
structure Cursor (s : Runtime w A M) : Prop where
  tickets : s.tickets =
    (List.range s.tickets.length).map (RoundRobin.choice (2 ^ w) s.cores.length)
  next : s.next = BitVec.ofNat w s.tickets.length

theorem Cursor.step (cursor : Cursor s) (moved : Move policy s t) : Cursor t := by
  obtain ⟨tickets, next⟩ := cursor
  have length := length_of_move moved
  cases moved with
  | ticket =>
      have drawn : s.next.toNat % s.cores.length =
          RoundRobin.choice (2 ^ w) s.cores.length s.tickets.length := by
        rw [next, BitVec.toNat_ofNat, RoundRobin.choice]
      constructor
      · show s.tickets ++ [s.next.toNat % s.cores.length] =
          (List.range (s.tickets ++ [s.next.toNat % s.cores.length]).length).map
            (RoundRobin.choice (2 ^ w) s.cores.length)
        rw [List.length_append, List.length_singleton, List.range_succ, List.map_append,
          List.map_singleton, ← tickets, drawn]
      · show s.next + 1 = BitVec.ofNat w (s.tickets ++ [_]).length
        rw [next, List.length_append, List.length_singleton, BitVec.ofNat_add]
        rfl
  | core | installed | told | disconnected =>
      refine ⟨?_, next⟩
      rw [length]
      exact tickets
  | _ => exact ⟨tickets, next⟩

/-! ### The calls -/

/-- A call that asked for a core goes to it; the tickets of the others are their own. -/
structure Placed (s : Runtime w A M) : Prop where
  asked : ∀ call ∈ s.calls, ∀ core, call.pc.target = some core → ∀ k, call.builder.core = some k →
    core = k
  chosen : (s.calls.filterMap SpawnCall.chosen).Subperm s.tickets

/-- The calls, with one of them in front. -/
theorem calls_split {c : Nat} {call : SpawnCall A} (found : s.calls[c]? = some call) :
    ∃ rest, s.calls.Perm (call :: rest) ∧
      ∀ pc, (s.setPc c call pc).calls.Perm ({ call with pc := pc } :: rest) := by
  obtain ⟨inside, rfl⟩ := List.getElem?_eq_some_iff.1 found
  exact ⟨s.calls.eraseIdx c, (List.getElem_cons_eraseIdx_perm inside).symm,
    fun pc => List.set_perm_cons_eraseIdx inside _⟩

/-- One call goes on: `asked` has to hold of it again. -/
theorem Placed.asked_setPc (placed : Placed s) {c : Nat} {call : SpawnCall A} {pc : SpawnPc A}
    (mine : ∀ core, pc.target = some core → ∀ k, call.builder.core = some k → core = k) :
    ∀ other ∈ (s.setPc c call pc).calls, ∀ core, other.pc.target = some core →
      ∀ k, other.builder.core = some k → core = k := by
  intro other member
  rcases List.mem_or_eq_of_mem_set member with old | rfl
  · exact placed.asked other old
  · exact mine

/-- One call goes on without a new ticket. -/
theorem Placed.setPc (placed : Placed s) {c : Nat} {call : SpawnCall A} {pc : SpawnPc A}
    (found : s.calls[c]? = some call)
    (mine : ∀ core, pc.target = some core →
      call.pc.target = some core ∨ call.builder.core = some core) :
    Placed (s.setPc c call pc) := by
  refine ⟨placed.asked_setPc fun core target k asked => ?_, ?_⟩
  · rcases mine core target with before | here
    · exact placed.asked call (List.mem_of_getElem? found) core before k asked
    · exact Option.some.inj (here.symm.trans asked)
  · obtain ⟨rest, before, after⟩ := calls_split found
    refine List.Subperm.trans ?_ placed.chosen
    have front := (after pc).filterMap SpawnCall.chosen
    refine (front.subperm).trans (List.Subperm.trans ?_ (before.symm.filterMap _).subperm)
    have chosen : ∀ core, SpawnCall.chosen { call with pc := pc } = some core →
        call.chosen = some core := by
      intro core chosen
      cases anywhere : call.builder.core with
      | some k =>
          rw [chosen_of_asked { call with pc := pc } anywhere] at chosen
          cases chosen
      | none =>
          rw [chosen_of_anywhere { call with pc := pc } anywhere] at chosen
          rw [chosen_of_anywhere call anywhere]
          exact (mine core chosen).resolve_right (by simp [anywhere])
    refine List.Sublist.subperm ?_
    cases now : SpawnCall.chosen { call with pc := pc } with
    | none =>
        rw [List.filterMap_cons_none now]
        exact (List.sublist_cons_self _ _).filterMap _
    | some core =>
        rw [List.filterMap_cons_some now, List.filterMap_cons_some (chosen core now)]

/-- A call draws a ticket. -/
theorem Placed.ticket (placed : Placed s) {c : Nat} {call : SpawnCall A} {given : Option A}
    (found : s.calls[c]? = some call) (at_ : call.pc = .place given)
    (anywhere : call.builder.core = none) (core : Nat) :
    (∀ other ∈ (s.setPc c call (afterPlace core given)).calls, ∀ target,
      other.pc.target = some target → ∀ k, other.builder.core = some k → target = k) ∧
      ((s.setPc c call (afterPlace core given)).calls.filterMap SpawnCall.chosen).Subperm
        (s.tickets ++ [core]) := by
  refine ⟨placed.asked_setPc fun _ _ k asked => ?_, ?_⟩
  · rw [anywhere] at asked
    cases asked
  · obtain ⟨rest, before, after⟩ := calls_split found
    have old : SpawnCall.chosen call = none := by
      simp [SpawnCall.chosen, at_, SpawnPc.target]
    have new : SpawnCall.chosen { call with pc := afterPlace core given } = some core := by
      simp [SpawnCall.chosen, anywhere, target_afterPlace]
    have front := (after (afterPlace core given)).filterMap SpawnCall.chosen
    have back := before.filterMap SpawnCall.chosen
    rw [List.filterMap_cons, new] at front
    rw [List.filterMap_cons, old] at back
    refine front.subperm.trans (List.Subperm.trans ?_ (List.perm_append_singleton _ _).symm.subperm)
    exact List.subperm_cons _ |>.2 (back.symm.subperm.trans placed.chosen)

theorem Placed.step (placed : Placed s) (moved : Move policy s t) : Placed t := by
  cases moved with
  | called knobs given =>
      refine ⟨fun call member core target => ?_, ?_⟩
      · rcases List.mem_append.1 member with old | new
        · exact placed.asked call old core target
        · rw [List.mem_singleton.1 new] at target
          cases target
      · rw [List.filterMap_append]
        simpa [SpawnCall.chosen, SpawnPc.target] using placed.chosen
  | ticket found at_ anywhere =>
      obtain ⟨asked, chosen⟩ := placed.ticket found at_ anywhere (s.next.toNat % s.cores.length)
      exact ⟨asked, chosen⟩
  | placed found at_ asked =>
      refine placed.setPc found fun core target => .inr ?_
      rw [target_afterPlace] at target
      rw [asked, target]
  | made found at_ =>
      refine placed.setPc found fun core target => .inl ?_
      rw [at_]
      exact target
  | failed found unfinished => exact placed.setPc found fun core never => by cases never
  | @installed c i call actor core core' found at_ there sent =>
      have after : Placed (s.setPc c call (.returned i core.sent)) := by
        refine placed.setPc found fun core target => .inl ?_
        rw [at_]
        exact target
      exact ⟨after.asked, after.chosen⟩
  | _ => exact ⟨placed.asked, placed.chosen⟩

theorem placed_of_run (run : Runs policy n s) : Cursor s ∧ Placed s := by
  obtain ⟨first, made, reached⟩ := run
  obtain ⟨_, rfl⟩ := guarded made
  refine reached.invariant (P := fun s => Cursor s ∧ Placed s) ⟨⟨rfl, rfl⟩, ?_, ?_⟩ ?_
  · exact fun call member => by cases member
  · exact List.Subperm.refl _
  · rintro s a t ⟨cursor, placed⟩ _ moved
    exact ⟨cursor.step (move_of_step moved), placed.step (move_of_step moved)⟩

end Runtime

/-- Whatever threads spawn on a `System` of `n` cores, and whatever its cores do: the handles that were
    returned and the cells that were sent to the cores are one and the same set, each handle names a
    core there is, and a call that asked for a core goes to that core or panics. -/
theorem placement_of_run {s : Runtime w A M} (run : Runtime.Runs policy n s) :
    s.cores.length = n ∧ s.Books ∧
      ∀ call ∈ s.calls, ∀ core, call.pc.target = some core → ∀ k, call.builder.core = some k →
        core = k :=
  ⟨(Runtime.coreRuns_of_run run).1, Runtime.books_of_run run,
    (Runtime.placed_of_run run).2.asked⟩

/-- The calls that leave the core to the `System` take the numbers of a counter in the order in which
    they come to it, so no core is chosen more often than another by more than one, and by more than
    one for each time that the counter has wrapped; not even that when `n` divides `2 ^ w`. The calls
    that have gone on without a panic are on the cores that were chosen for them. -/
theorem round_robin_of_run {s : Runtime w A M} (run : Runtime.Runs policy n s) :
    (s.calls.filterMap SpawnCall.chosen).Subperm s.tickets ∧
      ∀ i < n, ∀ j < n,
        s.tickets.count i ≤ s.tickets.count j + s.tickets.length / 2 ^ w + 1 ∧
          (n ∣ 2 ^ w → s.tickets.count i ≤ s.tickets.count j + 1) := by
  obtain ⟨cursor, placed⟩ := Runtime.placed_of_run run
  obtain ⟨length, positive, _⟩ := Runtime.coreRuns_of_run run
  have share : ∀ c, s.tickets.count c = RoundRobin.share (2 ^ w) n s.tickets.length c := by
    intro c
    have tickets := cursor.tickets
    rw [length] at tickets
    rw [RoundRobin.share, ← tickets]
  refine ⟨placed.chosen, fun i small j small' => ?_⟩
  rw [share i, share j]
  exact ⟨RoundRobin.share_le positive (Nat.two_pow_pos w) small small',
    fun divides => RoundRobin.share_le_of_dvd positive (Nat.two_pow_pos w) divides small small'⟩

/-- Two cores. Two threads spawn without naming a core, each going on between the other's steps; a third
    asks for core 1, and a fourth for a core there is not. -/
def spawnsFour : List (RuntimeAct Nat Nat) :=
  [.spawnActor 7, .spawnBuilder [.supervised], .spawn 1 (.goOn false), .spawn 0 (.goOn false),
    .spawnOn 1 8, .spawnOnSupervised 2, .spawn 1 (.made (some 9)), .spawn 0 (.goOn false),
    .spawn 3 (.goOn false), .spawn 2 (.goOn false), .spawn 3 (.made (some 10)),
    .spawn 1 (.goOn false), .spawn 2 (.goOn false), .spawn 3 (.goOn false)]

theorem spawnsFour_runs : ∃ s : Runtime 64 Nat Nat, Runtime.Runs samplePolicy 2 s ∧
    s.tickets = [0, 1] ∧ s.Returned 1 0 0 (.set .build .supervised) ∧
    s.Returned 0 1 0 .build ∧ s.Returned 2 1 1 (.set .build (.core 1)) ∧
    (s.calls[3]?.map SpawnCall.pc) = some (.panicked (some "core index 2 out of range")) := by
  obtain ⟨s, executed, seen⟩ : ∃ s : Runtime 64 Nat Nat,
      exec (Runtime.step samplePolicy) ⟨.replicate 2 .new, 0, [], .running, []⟩ spawnsFour = some s ∧
        s.tickets = [0, 1] ∧ s.Returned 1 0 0 (.set .build .supervised) ∧
        s.Returned 0 1 0 .build ∧ s.Returned 2 1 1 (.set .build (.core 1)) ∧
        (s.calls[3]?.map SpawnCall.pc) = some (.panicked (some "core index 2 out of range")) :=
    ⟨_, rfl, rfl, rfl, rfl, rfl, rfl⟩
  exact ⟨s, ⟨_, rfl, reach_of_exec executed⟩, seen⟩

theorem placement_of_spawnsFour : ∃ s : Runtime 64 Nat Nat, s.cores.length = 2 ∧ s.Books ∧
    s.Returned 1 0 0 (.set .build .supervised) ∧ s.Returned 0 1 0 .build ∧
    s.Returned 2 1 1 (.set .build (.core 1)) := by
  obtain ⟨s, run, _, one, two, three, _⟩ := spawnsFour_runs
  obtain ⟨length, books, _⟩ := placement_of_run run
  exact ⟨s, length, books, one, two, three⟩

theorem round_robin_of_spawnsFour : ∃ s : Runtime 64 Nat Nat, s.tickets = [0, 1] ∧
    (s.calls.filterMap SpawnCall.chosen).Subperm s.tickets ∧
    ∀ i < 2, ∀ j < 2, s.tickets.count i ≤ s.tickets.count j + 1 := by
  obtain ⟨s, run, tickets, _⟩ := spawnsFour_runs
  obtain ⟨chosen, even⟩ := round_robin_of_run run
  exact ⟨s, tickets, chosen, fun i small j small' => (even i small j small').2 (by decide)⟩

end AetherFlow.System
