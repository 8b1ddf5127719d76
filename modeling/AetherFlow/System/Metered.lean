/-
Module: AetherFlow.System.Metered
Purpose: `poll_one` of an instrumented cell. It reads the clock before `handle` and records the time that
  `handle` took, whether it returned or panicked. Nothing else is different: a metered core does what
  a core does. The histogram of a cell holds one sample for each message that the cell has handled, so
  `latency()` summarises these.
Trusted boundary: human-reviewed transcription of the measuring in `Cell::poll_one`
Main exports: Core.takes, Core.handles, Metered, Metered.step, Metered.samples, MeterInv,
  meterInv_step, measured_of_run
-/
import AetherFlow.Metrics.Percentile
import AetherFlow.System.Node

namespace AetherFlow.System

open Metrics (LatencyHistogram Summarises)
open Transition

variable {A M : Type*}

/-! ### The machine -/

/-- The cell whose `try_recv` hands it a message in this step. -/
def Core.takes (s : Core A M) : Input A M → Option Nat
  | .received (some _) =>
      match s.pc with
      | .poll site .recv => (s.actors[site.index]?).map Cell.id
      | _ => none
  | _ => none

/-- The cell whose `handle` ends inside its panic boundary in this step. -/
def Core.handles (s : Core A M) : Input A M → Option Nat
  | .ran _ .returned | .ran _ .panicked =>
      match s.pc with
      | .poll site (.handle _) => (s.actors[site.index]?).map Cell.id
      | _ => none
  | _ => none

/-- A measurement: the cell, and the clock before and after `handle`. -/
structure Span where
  cell : Nat
  t0 : Nat
  now : Nat

/-- `t0.elapsed().as_nanos() as u64`. -/
def Span.elapsed (span : Span) : UInt64 := .ofNat (span.now - span.t0)

/-- A core with the `metrics` of its cells. -/
structure Metered (A M : Type*) where
  core : Core A M
  metrics : Nat → Option LatencyHistogram
  /-- The local `started` of `poll_one`. -/
  started : Option Nat
  /-- All measurements, oldest first. -/
  spans : List Span

namespace Metered

/-- A core thread just spawned; the cells that will be sent to it with a histogram are given. -/
def new (instrumented : Nat → Bool) : Metered A M where
  core := .new
  metrics id := if instrumented id then some .new else none
  started := none
  spans := []

/-- `self.metrics.as_ref().map(|_| Instant::now())`. -/
def start (s : Metered A M) (id now : Nat) : Metered A M :=
  { s with started := (s.metrics id).map fun _ => now }

/-- `if let (Some(m), Some(t0)) = (&self.metrics, started) { m.record(..) }`, outside every panic
    boundary. -/
def finish (s : Metered A M) (id now : Nat) : Metered A M :=
  match s.metrics id, s.started with
  | some m, some t0 =>
      let span : Span := ⟨id, t0, now⟩
      match Metrics.record m span.elapsed with
      | some m =>
          { s with metrics := Function.update s.metrics id (some m), spans := s.spans ++ [span] }
      | none => { s with core := { s.core with pc := .unwound } }
  | _, _ => s

/-- A step of the core. `now` is what the clock shows if the step reads it for a measurement. -/
def step (policy : Policy) (s : Metered A M) (a : Input A M × Nat) : Option (Metered A M) :=
  (s.core.step policy a.1).map fun core =>
    match s.core.takes a.1, s.core.handles a.1 with
    | some id, _ => { s with core := core }.start id a.2
    | none, some id => { s with core := core }.finish id a.2
    | none, none => { s with core := core }

/-- The samples of a cell. -/
def samples (s : Metered A M) (id : Nat) : List UInt64 :=
  (s.spans.filter (·.cell = id)).map Span.elapsed

/-- `ActorRef::latency` of the actor in cell `id`; there is no result where `snapshot` panics. -/
def latency (overflowChecks : Bool) (s : Metered A M) (id : Nat) :
    Option (Option Metrics.LatencySnapshot) :=
  match s.metrics id with
  | some m => (Metrics.snapshot overflowChecks m).map some
  | none => some none

end Metered

/-! ### What the core does in a measured step -/

section Steps

variable {policy : Policy} {s t : Core A M} {input : Input A M}

/-- A polled cell is served by its `poll_one` call. -/
theorem poll_of_serves {cell : Cell A} {pc : PollPc A M} (serves : s.Serves cell (.polled pc)) :
    ∃ site, s.pc = .poll site pc ∧ s.actors[site.index]? = some cell := by
  cases at_ : s.pc with
  | poll site pc' =>
      simp only [Core.Serves, at_, Loc.polled.injEq] at serves
      obtain ⟨found, rfl⟩ := serves
      exact ⟨site, rfl, found⟩
  | _ => simp [Core.Serves, at_] at serves

theorem poll_of_handles {id : Nat} (ends : s.handles input = some id) :
    ∃ site msg cell after outcome, s.pc = .poll site (.handle msg) ∧
      s.actors[site.index]? = some cell ∧ cell.id = id ∧ input = .ran after outcome ∧
      outcome ≠ .aborted := by
  unfold Core.handles at ends
  split at ends
  · rename_i after
    split at ends
    · rename_i site msg at_
      obtain ⟨cell, found, same⟩ := Option.map_eq_some_iff.1 ends
      exact ⟨site, msg, cell, after, .returned, at_, found, same, rfl, nofun⟩
    · cases ends
  · rename_i after
    split at ends
    · rename_i site msg at_
      obtain ⟨cell, found, same⟩ := Option.map_eq_some_iff.1 ends
      exact ⟨site, msg, cell, after, .panicked, at_, found, same, rfl, nofun⟩
    · cases ends
  · cases ends

/-- Where `handle` ends, one event of it is logged. -/
theorem log_of_handles {id : Nat} (ends : s.handles input = some id)
    (moved : s.step policy input = some t) :
    ∃ inst seen msg outcome, t.log = s.log ++ entries id [(inst, .handle seen msg outcome)] := by
  obtain ⟨site, msg, cell, after, outcome, at_, found, rfl, rfl, whole⟩ := poll_of_handles ends
  refine ⟨cell.inst, cell.actor, msg, outcome, ?_⟩
  rcases step_cases moved with sent | moved
  · cases sent
  · simp only [Core.loopStep, at_, found, Option.bind_some] at moved
    obtain ⟨next, stepped, rfl⟩ := Option.map_eq_some_iff.1 moved
    cases outcome with
    | returned | panicked =>
        cases stepped
        rfl
    | aborted => exact absurd rfl whole

/-- Any other step logs no `handle`. -/
theorem log_of_not_handles (silent : s.handles input = none) (moved : s.step policy input = some t) :
    ∃ id events, t.log = s.log ++ entries id events ∧ events.filterMap (·.2.message) = [] := by
  have none_ : ∃ id events, s.log = s.log ++ entries id events ∧
      events.filterMap (fun e : Nat × Event A M => e.2.message) = [] :=
    ⟨0, [], by simp, rfl⟩
  cases step_shape moved with
  | sent _ _ _ _ _ _ _ log _ =>
      rw [log]
      exact none_
  | quiet _ log _ =>
      rw [log]
      exact none_
  | moves cell cell' loc loc' rest events serves stepped _ _ _ log _ =>
      refine ⟨cell.id, events, log, ?_⟩
      cases stepped with
      | polls move =>
          obtain ⟨site, at_, found⟩ := poll_of_serves serves
          cases move with
          | handled | broke => simp [Core.handles, at_, found] at silent
          | _ => rfl
      | _ => rfl
  | leaves cell loc rest events serves stepped _ _ log _ =>
      refine ⟨cell.id, events, log, ?_⟩
      cases stepped <;> rfl
  | died died =>
      rcases died.log with same | ⟨cell, _, log⟩
      · rw [same]
        exact none_
      · exact ⟨cell.id, _, log, rfl⟩

/-- When `poll_one` has returned, the loop does not go on with a `handle` call. -/
theorem polled_ne_handle (cell : Cell A) (site : Site) (outcome : PollOutcome) {site' : Site} {msg : M} :
    (s.polled policy cell site outcome).pc ≠ .poll site' (.handle msg) := by
  have batch : ∀ i left : Nat, (Core.batchNext i left : Pc A M) ≠ .poll site' (.handle msg) := by
    intro i left same
    unfold Core.batchNext at same
    split at same <;> cases same
  cases site with
  | first i | batch i left =>
      cases outcome with
      | worked => exact batch _ _
      | empty | panicked => nofun
  | drain => cases outcome <;> nofun

/-- The loop comes to a `handle` call by receiving the message. -/
theorem takes_of_loopStep {site : Site} {msg : M} (moved : s.loopStep policy input = some t)
    (at_ : t.pc = .poll site (.handle msg)) :
    ∃ cell, t.actors[site.index]? = some cell ∧ s.takes input = some cell.id := by
  unfold Core.loopStep at moved
  split at moved
  · rename_i here
    cases moved
    unfold Core.recvControl at at_
    split at at_
    · cases at_
    · simp [here] at at_
    · cases at_
  · rename_i cell after outcome here
    cases moved
    cases outcome <;> cases at_
  · cases moved
    unfold Core.visited at at_
    split at at_
    · cases at_
    · split at at_ <;> cases at_
  · rename_i site' outcome here
    obtain ⟨cell, -, rfl⟩ := Option.map_eq_some_iff.1 moved
    exact absurd at_ (polled_ne_handle cell _ outcome)
  · rename_i site' pc here _
    obtain ⟨cell, found, rest⟩ := Option.bind_eq_some_iff.1 moved
    obtain ⟨next, stepped, rfl⟩ := Option.map_eq_some_iff.1 rest
    cases next with
    | unwound | aborted => cases at_
    | goOn cell' pc' events =>
        obtain ⟨rfl, same⟩ := Pc.poll.inj at_
        cases pollMove_of_pollStep stepped with
        | takes =>
            refine ⟨_, List.getElem?_set_self (List.getElem?_eq_some_iff.1 found).1, ?_⟩
            simp [Core.takes, here, found]
        | @decided time allowed => cases allowed <;> cases same
        | _ => cases same
  · rename_i i verdict here
    obtain ⟨cell, -, rfl⟩ := Option.map_eq_some_iff.1 moved
    cases verdict <;> cases at_
  · rename_i i outcome here
    obtain ⟨cell, -, rfl⟩ := Option.map_eq_some_iff.1 moved
    cases outcome <;> cases at_
  · rename_i cell resume after outcome here
    cases moved
    cases outcome <;> cases at_
  · rename_i cell resume outcome here
    cases moved
    cases outcome <;> cases resume <;> cases at_
  · cases moved
    dsimp only at at_
    split at at_ <;> cases at_
  · cases moved

/-- Before a `handle` call the core is there already, or has just received the message. -/
theorem handle_cases {site : Site} {msg : M} (moved : s.step policy input = some t)
    (at_ : t.pc = .poll site (.handle msg)) :
    (s.pc = .poll site (.handle msg) ∧ t.actors = s.actors ∧ s.takes input = none ∧
        s.handles input = none) ∨
      ∃ cell, t.actors[site.index]? = some cell ∧ s.takes input = some cell.id := by
  rcases step_cases moved with sent | moved
  · obtain ⟨same, -, actors, -⟩ := environment_frame sent
    refine .inl ⟨same ▸ at_, actors, ?_⟩
    cases input with
    | sendAdd _ _ _ | sendShutdown | disconnect => exact ⟨rfl, rfl⟩
    | _ => cases sent
  · exact .inr (takes_of_loopStep moved at_)

/-- The cell whose `handle` has ended has one more message handled. -/
theorem handled_of_handles {id : Nat} (ends : s.handles input = some id)
    (moved : s.step policy input = some t) :
    ∃ msg, ∀ other, handledOf (t.trace other) =
      handledOf (s.trace other) ++ if id = other then [msg] else [] := by
  obtain ⟨inst, seen, msg, outcome, log⟩ := log_of_handles ends moved
  refine ⟨msg, fun other => ?_⟩
  rw [trace_append log]
  by_cases same : other = id
  · rw [if_pos same, if_pos same.symm, handledOf_append]
    rfl
  · rw [if_neg same, if_neg fun mine => same mine.symm, List.append_nil]

theorem handled_of_not_handles (silent : s.handles input = none)
    (moved : s.step policy input = some t) (other : Nat) :
    handledOf (t.trace other) = handledOf (s.trace other) := by
  obtain ⟨id, events, log, quiet⟩ := log_of_not_handles silent moved
  rw [trace_append log]
  split
  · rw [handledOf_append, quiet, List.append_nil]
  · rfl

theorem not_handles_of_takes {id : Nat} (takes : s.takes input = some id) :
    s.handles input = none := by
  cases input with
  | received => rfl
  | _ => cases takes

end Steps

/-! ### What measuring does -/

theorem record_isSome (h : LatencyHistogram) (ns : UInt64) : ∃ h', Metrics.record h ns = some h' := by
  obtain ⟨h', recorded, -, -⟩ :=
    Metrics.record_eq (Metrics.addBucket_eq h (Metrics.bucketOf_lt ns))
  exact ⟨h', recorded⟩

namespace Metered

variable {policy : Policy} {s t : Metered A M} {a : Input A M × Nat}

/-- A step starts a measurement, ends one, or has nothing to do with any. -/
theorem step_cases (moved : s.step policy a = some t) :
    ∃ core, s.core.step policy a.1 = some core ∧
      ((∃ id, s.core.takes a.1 = some id ∧ t = { s with core := core }.start id a.2) ∨
        (∃ id, s.core.takes a.1 = none ∧ s.core.handles a.1 = some id ∧
          t = { s with core := core }.finish id a.2) ∨
        (s.core.takes a.1 = none ∧ s.core.handles a.1 = none ∧ t = { s with core := core })) := by
  obtain ⟨core, stepped, same⟩ := Option.map_eq_some_iff.1 moved
  refine ⟨core, stepped, ?_⟩
  cases takes : s.core.takes a.1 with
  | some id =>
      rw [takes] at same
      exact .inl ⟨id, rfl, same.symm⟩
  | none =>
      cases ends : s.core.handles a.1 with
      | some id =>
          rw [takes, ends] at same
          exact .inr (.inl ⟨id, rfl, rfl, same.symm⟩)
      | none =>
          rw [takes, ends] at same
          exact .inr (.inr ⟨rfl, rfl, same.symm⟩)

/-- `record` does not panic. -/
@[simp] theorem finish_core (s : Metered A M) (id now : Nat) : (s.finish id now).core = s.core := by
  unfold finish
  split
  · rename_i m t0 _ _
    obtain ⟨h, recorded⟩ := record_isSome m (Span.mk id t0 now).elapsed
    simp only [recorded]
  · rfl

/-- A step is a step of the core, whatever the clock shows. -/
theorem step_core (s : Metered A M) (a : Input A M × Nat) :
    (s.step policy a).map core = s.core.step policy a.1 := by
  cases stepped : s.core.step policy a.1 with
  | none => simp [step, stepped]
  | some core =>
      simp only [step, stepped, Option.map_some]
      split
      · rfl
      · rw [finish_core]
      · rfl

theorem exec_core (s : Metered A M) (labels : List (Input A M × Nat)) :
    (exec (step policy) s labels).map core = exec (Core.step policy) s.core (labels.map Prod.fst) := by
  induction labels generalizing s with
  | nil => rfl
  | cons a labels inductionHypothesis =>
      have first := @step_core A M policy s a
      rw [List.map_cons, exec, exec, ← first]
      cases s.step policy a with
      | none => rfl
      | some u => exact inductionHypothesis u

theorem samples_append {span : Span} (spans : t.spans = s.spans ++ [span]) (id : Nat) :
    t.samples id = s.samples id ++ if span.cell = id then [span.elapsed] else [] := by
  unfold samples
  rw [spans, List.filter_append, List.map_append]
  by_cases mine : span.cell = id
  · simp [mine]
  · simp [mine]

end Metered

/-- The histograms hold what was measured, and of an instrumented cell every `handle` was. -/
structure MeterInv (instrumented : Nat → Bool) (s : Metered A M) : Prop where
  which : ∀ id, (s.metrics id).isSome = instrumented id
  recorded : ∀ id m, s.metrics id = some m → (s.samples id).foldlM Metrics.record .new = some m
  counted : ∀ id, instrumented id = true →
    (s.samples id).length = (handledOf (s.core.trace id)).length
  /-- A `handle` call of an instrumented cell is being measured. -/
  timed : ∀ site msg cell, s.core.pc = .poll site (.handle msg) →
    s.core.actors[site.index]? = some cell → s.started.isSome = instrumented cell.id

section Invariant

variable {policy : Policy} {instrumented : Nat → Bool} {s t : Metered A M} {a : Input A M × Nat}

theorem meterInv_new (instrumented : Nat → Bool) :
    MeterInv instrumented (.new instrumented : Metered A M) where
  which id := by cases at_ : instrumented id <;> simp [Metered.new, at_]
  recorded id m here := by
    simp only [Metered.new, Option.ite_none_right_eq_some, Option.some.injEq] at here
    rw [← here.2]
    rfl
  counted _ _ := rfl
  timed _ _ _ at_ := by cases at_

/-- A measurement that ends is recorded. -/
theorem MeterInv.finish (inv : MeterInv instrumented s) {core : Core A M} {id now : Nat}
    (ends : s.core.handles a.1 = some id) (stepped : s.core.step policy a.1 = some core)
    (idle : ∀ site msg, core.pc ≠ .poll site (.handle msg)) :
    MeterInv instrumented ({ s with core := core }.finish id now) := by
  obtain ⟨site, msg, cell, after, outcome, at_, found, rfl, -, -⟩ := poll_of_handles ends
  obtain ⟨handled, grown⟩ := handled_of_handles ends stepped
  have timed := inv.timed site msg cell at_ found
  have which := inv.which cell.id
  cases metered : s.metrics cell.id with
  | none =>
      rw [metered, Option.isSome_none] at which
      have same : ({ s with core := core } : Metered A M).finish cell.id now =
          { s with core := core } := by
        simp [Metered.finish, metered]
      rw [same]
      refine ⟨inv.which, inv.recorded, fun other on => ?_, fun site msg _ here => absurd here (idle _ _)⟩
      have different : cell.id ≠ other := by
        rintro rfl
        rw [on] at which
        cases which
      change _ = (handledOf (core.trace other)).length
      rw [grown, if_neg different, List.append_nil]
      exact inv.counted other on
  | some m =>
      rw [metered, Option.isSome_some] at which
      rw [← which] at timed
      obtain ⟨t0, started⟩ := Option.isSome_iff_exists.1 timed
      obtain ⟨m', recorded⟩ := record_isSome m (Span.mk cell.id t0 now).elapsed
      obtain ⟨t, same, core', metrics, spans⟩ : ∃ t : Metered A M,
          ({ s with core := core } : Metered A M).finish cell.id now = t ∧ t.core = core ∧
            t.metrics = Function.update s.metrics cell.id (some m') ∧
            t.spans = s.spans ++ [⟨cell.id, t0, now⟩] := by
        refine ⟨{ s with
          core := core
          metrics := Function.update s.metrics cell.id (some m')
          spans := s.spans ++ [⟨cell.id, t0, now⟩] }, ?_, rfl, rfl, rfl⟩
        simp [Metered.finish, metered, started, recorded]
      rw [same]
      have samples := Metered.samples_append spans
      refine ⟨fun other => ?_, fun other h here => ?_, fun other on => ?_,
        fun site msg _ here => absurd (core' ▸ here) (idle _ _)⟩
      · rw [metrics]
        by_cases mine : other = cell.id
        · subst mine
          simpa using which
        · simpa [Function.update_of_ne mine] using inv.which other
      · rw [metrics] at here
        by_cases mine : other = cell.id
        · subst mine
          rw [Function.update_self, Option.some.injEq] at here
          rw [samples, if_pos rfl, List.foldlM_append, inv.recorded _ m metered]
          subst here
          simpa using recorded
        · rw [Function.update_of_ne mine] at here
          rw [samples, if_neg fun same => mine same.symm, List.append_nil]
          exact inv.recorded other h here
      · rw [core', grown, samples, List.length_append, List.length_append, inv.counted other on]
        split <;> rfl

theorem meterInv_step (inv : MeterInv instrumented s) (moved : s.step policy a = some t) :
    MeterInv instrumented t := by
  obtain ⟨core, stepped, ⟨id, takes, rfl⟩ | ⟨id, takes, ends, rfl⟩ | ⟨takes, silent, rfl⟩⟩ :=
    Metered.step_cases moved
  · have same := handled_of_not_handles (not_handles_of_takes takes) stepped
    refine ⟨inv.which, inv.recorded, fun other on => ?_, fun site msg cell here found => ?_⟩
    · change _ = (handledOf (core.trace other)).length
      rw [same]
      exact inv.counted other on
    · rcases handle_cases stepped here with ⟨-, -, never, -⟩ | ⟨cell', found', takes'⟩
      · rw [takes] at never
        cases never
      · cases found.symm.trans found'
        cases takes.symm.trans takes'
        rw [← inv.which cell.id]
        simp [Metered.start]
  · refine inv.finish ends stepped fun site msg here => ?_
    rcases handle_cases stepped here with ⟨-, -, -, never⟩ | ⟨_, -, takes'⟩
    · rw [ends] at never
      cases never
    · rw [takes] at takes'
      cases takes'
  · have same := handled_of_not_handles silent stepped
    refine ⟨inv.which, inv.recorded, fun other on => ?_, fun site msg cell here found => ?_⟩
    · change _ = (handledOf (core.trace other)).length
      rw [same]
      exact inv.counted other on
    · rcases handle_cases stepped here with ⟨before, actors, -, -⟩ | ⟨_, -, takes'⟩
      · exact inv.timed site msg cell before (actors ▸ found)
      · rw [takes] at takes'
        cases takes'

theorem meterInv_of_exec {labels : List (Input A M × Nat)}
    (run : exec (Metered.step policy) (.new instrumented) labels = some s) : MeterInv instrumented s :=
  (reach_of_exec run).invariant (meterInv_new instrumented) fun _ _ _ inv _ moved =>
    meterInv_step inv moved

end Invariant

/-! ### Measured runs -/

/-- What is known of cell `id` from its measurements. -/
structure Measured (overflowChecks : Bool) (instrumented : Nat → Bool) (s : Metered A M) (id : Nat) :
    Prop where
  /-- There is one sample for each message handled, also for those on which `handle` panicked. -/
  counted : instrumented id = true →
    (s.samples id).length = (handledOf (s.core.trace id)).length
  summarised : instrumented id = true → (s.samples id).length < 2 ^ 64 →
    ∃ snap, s.latency overflowChecks id = some (some snap) ∧ Summarises (s.samples id) snap
  bare : instrumented id = false → s.latency overflowChecks id = some none

/-- Measuring changes nothing of what the core does: whatever the clock shows, the metered core takes
    the steps of the bare one. And in every run `latency()` of an instrumented actor summarises one
    sample for each message that the actor has handled. -/
theorem measured_of_run (overflowChecks : Bool) (policy : Policy) (instrumented : Nat → Bool)
    (labels : List (Input A M × Nat)) :
    (exec (Metered.step policy) (.new instrumented) labels).map Metered.core =
        exec (Core.step policy) .new (labels.map Prod.fst) ∧
      ∀ s, exec (Metered.step policy) (.new instrumented) labels = some s →
        ∀ id, Measured overflowChecks instrumented s id := by
  refine ⟨Metered.exec_core _ labels, fun s run id => ?_⟩
  have inv := meterInv_of_exec run
  refine ⟨inv.counted id, fun on few => ?_, fun off => ?_⟩
  · obtain ⟨m, metered⟩ := Option.isSome_iff_exists.1 ((inv.which id).trans on)
    obtain ⟨snap, taken, summarises⟩ :=
      Metrics.summarises_of_recorded overflowChecks few (inv.recorded id m metered)
    refine ⟨snap, ?_, summarises⟩
    simp [Metered.latency, metered, taken]
  · have none_ : s.metrics id = none := by
      rw [← Option.not_isSome_iff_eq_none, inv.which id, off]
      decide
    simp [Metered.latency, none_]

/-- An instrumented actor is handed one message, at clock 10, and panics on it, at clock 35. -/
theorem measured_of_run_panicked :
    ∃ s, exec (Metered.step (A := Unit) (M := Nat) ⟨1, true⟩) (.new fun _ => true)
        [(.sendAdd () false .never, 0), (.internal, 0), (.ran () .returned, 0), (.internal, 0),
          (.internal, 0), (.received (some 7), 10), (.ran () .panicked, 35)] = some s ∧
      s.samples 0 = [25] ∧ ∃ snap, s.latency true 0 = some (some snap) ∧ snap.count.toNat = 1 := by
  have goesOn : ∃ s, exec (Metered.step (A := Unit) (M := Nat) ⟨1, true⟩) (.new fun _ => true)
        [(.sendAdd () false .never, 0), (.internal, 0), (.ran () .returned, 0), (.internal, 0),
          (.internal, 0), (.received (some 7), 10), (.ran () .panicked, 35)] = some s ∧
      s.samples 0 = [25] := ⟨_, rfl, rfl⟩
  obtain ⟨s, run, sample⟩ := goesOn
  have measured := (measured_of_run true _ _ _).2 s run 0
  obtain ⟨snap, taken, summarises⟩ := measured.summarised rfl (by rw [sample]; decide)
  refine ⟨s, run, sample, snap, taken, ?_⟩
  rw [summarises.count, sample]
  rfl

end AetherFlow.System
