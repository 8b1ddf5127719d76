/-
Module: AetherFlow.System.Cells
Purpose: What one step of `core_loop` does to the cells it has. Each cell is at a place: on its way in
  the control channel, among the actors, in the middle of `poll_one`, about to be detached or about to
  be stopped. A step moves one cell to its next place and logs what it did, or takes it away; the other
  cells stay where they are, whatever `swap_remove` does to their order. Invariants of single cells
  follow from this by one rule.
Trusted boundary: none
Main exports: Loc, Core.cells, Core.Serves, CellStep, Died, StepShape, step_shape,
  Placed, Placed.step
-/
import Mathlib.Algebra.Order.Group.Multiset
import AetherFlow.System.CoreLoop

namespace AetherFlow.System

open Transition

variable {A M : Type*}

/-! ### Places -/

/-- Where a cell is. -/
inductive Loc (A M : Type*) where
  /-- Sent and not yet started. -/
  | waiting
  /-- Among the actors, with nothing going on. -/
  | calm
  /-- Among the actors, in a `poll_one` call. -/
  | polled (pc : PollPc A M)
  /-- Among the actors, about to be detached. -/
  | failed
  /-- Removed from the actors, about to be stopped. -/
  | stopping

/-- The actor the core works on, by its index, and where it is. -/
def Pc.focus : Pc A M → Option (Nat × Loc A M)
  | .poll site pc => some (site.index, .polled pc)
  | .detach i => some (i, .failed)
  | _ => none

/-- The cell the core holds outside its actors. -/
def Pc.held : Pc A M → Multiset (Cell A × Loc A M)
  | .start cell => {(cell, .waiting)}
  | .stop cell _ => {(cell, .stopping)}
  | _ => 0

def Control.waiting (M : Type*) : Control A → Multiset (Cell A × Loc A M)
  | .add cell => {(cell, .waiting)}
  | .shutdown => 0

def calmCells (M : Type*) (actors : List (Cell A)) : Multiset (Cell A × Loc A M) :=
  Multiset.ofList (actors.map fun cell => (cell, .calm))

def actorCells (actors : List (Cell A)) : Option (Nat × Loc A M) → Multiset (Cell A × Loc A M)
  | none => calmCells M actors
  | some (i, loc) =>
      Multiset.ofList ((actors[i]?).toList.map fun cell => (cell, loc)) +
        calmCells M (actors.eraseIdx i)

/-- Every cell the core still has, with its place. -/
def Core.cells (s : Core A M) : Multiset (Cell A × Loc A M) :=
  (s.controls.map (Control.waiting M)).sum + s.pc.held + actorCells s.actors s.pc.focus

/-- The next step of the loop is about this cell. -/
def Core.Serves (s : Core A M) (cell : Cell A) (loc : Loc A M) : Prop :=
  match s.pc with
  | .start held => cell = held ∧ loc = .waiting
  | .visit i | .closedCheck i => s.actors[i]? = some cell ∧ loc = .calm
  | .poll site pc => s.actors[site.index]? = some cell ∧ loc = .polled pc
  | .detach i => s.actors[i]? = some cell ∧ loc = .failed
  | .stop held _ => cell = held ∧ loc = .stopping
  | .drain => s.actors[0]? = some cell ∧ loc = .calm
  | _ => False

section ActorCells

variable {actors : List (Cell A)} {i : Nat} {cell : Cell A}

/-- The calm actors, with one of them singled out. -/
theorem calmCells_cons (found : actors[i]? = some cell) :
    calmCells M actors = (cell, .calm) ::ₘ calmCells M (actors.eraseIdx i) := by
  obtain ⟨inside, rfl⟩ := List.getElem?_eq_some_iff.1 found
  rw [calmCells, calmCells, Multiset.cons_coe, Multiset.coe_eq_coe]
  exact ((List.getElem_cons_eraseIdx_perm inside).map fun cell => (cell, Loc.calm)).symm

theorem actorCells_some (found : actors[i]? = some cell) (loc : Loc A M) :
    actorCells actors (some (i, loc)) = (cell, loc) ::ₘ calmCells M (actors.eraseIdx i) := by
  simp [actorCells, found, ← Multiset.singleton_add]

theorem calmCells_perm {actors' : List (Cell A)} (others : actors.Perm actors') :
    calmCells M actors = calmCells M actors' :=
  Multiset.coe_eq_coe.2 (others.map _)

end ActorCells

/-- A cell on its way in the channel has not lived yet. -/
theorem waiting_of_control {controls : List (Control A)} {spot : Cell A × Loc A M}
    (there : spot ∈ (controls.map (Control.waiting M)).sum) :
    spot.2 = .waiting ∧ .add spot.1 ∈ controls := by
  induction controls with
  | nil => simp at there
  | cons control rest inductionHypothesis =>
      rw [List.map_cons, List.sum_cons, Multiset.mem_add] at there
      rcases there with here | later
      · cases control with
        | add cell =>
            rw [Control.waiting, Multiset.mem_singleton] at here
            rw [here]
            exact ⟨rfl, List.mem_cons_self⟩
        | shutdown => simp [Control.waiting] at here
      · obtain ⟨waits, member⟩ := inductionHypothesis later
        exact ⟨waits, List.mem_cons_of_mem _ member⟩

/-- A cell among the actors is one of them. -/
theorem actor_of_actorCells {actors : List (Cell A)} {focus : Option (Nat × Loc A M)}
    {spot : Cell A × Loc A M} (there : spot ∈ actorCells actors focus) :
    spot.1 ∈ actors ∧ (spot.2 = .calm ∨ ∃ i, focus = some (i, spot.2)) := by
  have calm : ∀ others : List (Cell A), spot ∈ calmCells M others →
      spot.1 ∈ others ∧ spot.2 = .calm := by
    intro others there
    obtain ⟨cell, member, rfl⟩ := List.mem_map.1 (Multiset.mem_coe.1 there)
    exact ⟨member, rfl⟩
  cases focus with
  | none => exact ⟨(calm _ there).1, .inl (calm _ there).2⟩
  | some pair =>
      rcases Multiset.mem_add.1 there with here | other
      · obtain ⟨cell, member, rfl⟩ := List.mem_map.1 (Multiset.mem_coe.1 here)
        exact ⟨List.mem_of_getElem? (Option.mem_toList.1 member), .inr ⟨pair.1, rfl⟩⟩
      · exact ⟨List.mem_of_mem_eraseIdx (calm _ other).1, .inl (calm _ other).2⟩

/-- Where a cell of the core can be. -/
theorem cell_cases {s : Core A M} {spot : Cell A × Loc A M} (there : spot ∈ s.cells) :
    (spot.2 = .waiting ∧ (.add spot.1 ∈ s.controls ∨ s.pc = .start spot.1)) ∨
      (spot.2 = .stopping ∧ ∃ resume, s.pc = .stop spot.1 resume) ∨
      (spot.1 ∈ s.actors ∧ (spot.2 = .calm ∨ ∃ i, s.pc.focus = some (i, spot.2))) := by
  rcases Multiset.mem_add.1 there with there | actor
  · rcases Multiset.mem_add.1 there with waiting | held
    · obtain ⟨waits, member⟩ := waiting_of_control waiting
      exact .inl ⟨waits, .inl member⟩
    · cases at_ : s.pc with
      | start cell =>
          rw [at_, Pc.held, Multiset.mem_singleton] at held
          rw [held]
          exact .inl ⟨rfl, .inr rfl⟩
      | stop cell resume =>
          rw [at_, Pc.held, Multiset.mem_singleton] at held
          rw [held]
          exact .inr (.inl ⟨rfl, resume, rfl⟩)
      | _ => simp [at_, Pc.held] at held
  · exact .inr (.inr (actor_of_actorCells actor))

/-! ### What a step does to the cell it serves -/

/-- The steps of `poll_one` that stay inside it, one for each answer it can get. -/
inductive PollMove (overflowChecks : Bool) (cell : Cell A) : PollPc A M → Input A M → Cell A →
    PollPc A M → List (Nat × Event A M) → Prop
  | empty : PollMove overflowChecks cell .recv (.received none) cell (.returned .empty) []
  | takes {msg : M} : PollMove overflowChecks cell .recv (.received (some msg))
      { cell with taken := cell.taken + 1 } (.handle msg) []
  | handled {msg : M} {after : A} : PollMove overflowChecks cell (.handle msg) (.ran after .returned)
      { cell with actor := after } (.returned .worked)
      [(cell.inst, .handle cell.actor msg .returned)]
  | broke {msg : M} {after : A} : PollMove overflowChecks cell (.handle msg) (.ran after .panicked)
      { cell with actor := after } .broken [(cell.inst, .handle cell.actor msg .panicked)]
  | unsupervised (none_ : cell.factory = false) :
      PollMove overflowChecks cell .broken .internal cell (.returned .panicked) []
  | decided {time : Nat} {allowed : Bool} {restarts : RestartState} (some_ : cell.factory = true)
      (verdict : allowRestart overflowChecks cell.restartPolicy cell.restarts time =
        some (allowed, restarts)) :
      PollMove overflowChecks cell .broken (.now time) { cell with restarts := restarts }
        (if allowed then .make else .returned .panicked) []
  | made {fresh : A} : PollMove overflowChecks cell .make (.ran fresh .returned) cell
      (.onRestart fresh) [(cell.inst + 1, .make .returned)]
  | makeFailed {fresh : A} : PollMove overflowChecks cell .make (.ran fresh .panicked) cell
      (.returned .panicked) [(cell.inst + 1, .make .panicked)]
  | restarted {fresh after : A} : PollMove overflowChecks cell (.onRestart fresh)
      (.ran after .returned) cell (.replace after) [(cell.inst + 1, .onRestart fresh .returned)]
  | restartFailed {fresh after : A} : PollMove overflowChecks cell (.onRestart fresh)
      (.ran after .panicked) cell (.returned .panicked)
      [(cell.inst + 1, .onRestart fresh .panicked)]
  | replaced {fresh : A} : PollMove overflowChecks cell (.replace fresh) (.dropped .returned)
      { cell with actor := fresh, inst := cell.inst + 1 } (.returned .worked) []

theorem pollMove_of_pollStep {overflowChecks : Bool} {cell cell' : Cell A} {pc pc' : PollPc A M}
    {input : Input A M} {events : List (Nat × Event A M)}
    (stepped : pollStep overflowChecks cell pc input = some (.goOn cell' pc' events)) :
    PollMove overflowChecks cell pc input cell' pc' events := by
  unfold pollStep at stepped
  split at stepped
  · cases stepped
    exact .empty
  · cases stepped
    exact .takes
  · rename_i msg after outcome
    cases outcome with
    | returned =>
        cases stepped
        exact .handled
    | panicked =>
        cases stepped
        exact .broke
    | aborted => cases stepped
  · split at stepped
    · cases stepped
    · rename_i none_
      cases stepped
      exact .unsupervised (by simpa using none_)
  · split at stepped
    · rename_i some_
      split at stepped
      · cases stepped
      · rename_i verdict
        cases stepped
        exact .decided some_ verdict
    · cases stepped
  · rename_i fresh outcome
    cases outcome with
    | returned =>
        cases stepped
        exact .made
    | panicked =>
        cases stepped
        exact .makeFailed
    | aborted => cases stepped
  · rename_i fresh after outcome
    cases outcome with
    | returned =>
        cases stepped
        exact .restarted
    | panicked =>
        cases stepped
        exact .restartFailed
    | aborted => cases stepped
  · rename_i fresh outcome
    cases outcome with
    | returned =>
        cases stepped
        exact .replaced
    | panicked | aborted => cases stepped
  · cases stepped

/-- A bound for the steps `poll_one` has yet to take. -/
def PollPc.rank : PollPc A M → Nat
  | .recv => 6
  | .handle _ => 5
  | .broken => 4
  | .make => 3
  | .onRestart _ => 2
  | .replace _ => 1
  | .returned _ => 0

theorem rank_lt_of_pollMove {overflowChecks : Bool} {cell cell' : Cell A} {pc pc' : PollPc A M}
    {input : Input A M} {events : List (Nat × Event A M)}
    (move : PollMove overflowChecks cell pc input cell' pc' events) : pc'.rank < pc.rank := by
  cases move with
  | @decided time allowed restarts some_ verdict => cases allowed <;> simp [PollPc.rank]
  | _ => simp [PollPc.rank]

/-- The loop serves a cell: what was answered, what is logged, and where the cell is afterwards
    (`none` when the core no longer has it). -/
inductive CellStep (policy : Policy) : Input A M → Cell A → Loc A M → List (Nat × Event A M) →
    Option (Cell A × Loc A M) → Prop
  | started {cell : Cell A} {after : A} :
      CellStep policy (.ran after .returned) cell .waiting
        [(cell.inst, .onStart cell.actor .returned)] (some ({ cell with actor := after }, .calm))
  | startFailed {cell : Cell A} {after : A} :
      CellStep policy (.ran after .panicked) cell .waiting
        [(cell.inst, .onStart cell.actor .panicked), (cell.inst, .left .detached)] none
  | visited {cell : Cell A} : CellStep policy .internal cell .calm [] (some (cell, .polled .recv))
  | polls {input : Input A M} {cell cell' : Cell A} {pc pc' : PollPc A M}
      {events : List (Nat × Event A M)}
      (move : PollMove policy.overflowChecks cell pc input cell' pc' events) :
      CellStep policy input cell (.polled pc) events (some (cell', .polled pc'))
  | again {cell : Cell A} : CellStep policy .internal cell (.polled (.returned .worked)) []
      (some (cell, .polled .recv))
  | calms {cell : Cell A} {outcome : PollOutcome} (fine : outcome ≠ .panicked) :
      CellStep policy .internal cell (.polled (.returned outcome)) [] (some (cell, .calm))
  | fails {cell : Cell A} : CellStep policy .internal cell (.polled (.returned .panicked)) []
      (some (cell, .failed))
  | detached {cell : Cell A} : CellStep policy (.dropped .returned) cell .failed
      [(cell.inst, .left .detached)] none
  | drainFailed {cell : Cell A} : CellStep policy .internal cell (.polled (.returned .panicked))
      [(cell.inst, .left .detached)] none
  | drained {cell : Cell A} : CellStep policy .internal cell (.polled (.returned .empty))
      [(cell.inst, .left .drained)] (some (cell, .stopping))
  | closed {cell : Cell A} : CellStep policy (.closedAndEmpty true) cell .calm
      [(cell.inst, .left .closedAndEmpty)] (some (cell, .stopping))
  | stopped {cell : Cell A} {after : A} {outcome : Outcome} (whole : outcome ≠ .aborted) :
      CellStep policy (.ran after outcome) cell .stopping
        [(cell.inst, .onStop cell.actor outcome)] none

/-- The core thread is dead. -/
def Pc.dead : Pc A M → Bool
  | .unwound | .aborted => true
  | _ => false

/-- The loop is past its last pass. -/
def Pc.draining : Pc A M → Bool
  | .drain | .poll .drain _ | .stop _ .drain | .drop _ .drain | .exited => true
  | _ => false

/-- The log entries of one cell. -/
def entries (id : Nat) (events : List (Nat × Event A M)) : List (Entry A M) :=
  events.map fun (inst, event) => { cell := id, inst, event }

@[simp] theorem entries_nil (id : Nat) : entries id ([] : List (Nat × Event A M)) = [] := rfl

/-- The core dies, at most while it detaches a failed cell. -/
structure Died (s t : Core A M) : Prop where
  dead : t.pc.dead = true
  log : t.log = s.log ∨ ∃ cell, (cell, .failed) ∈ s.cells ∧
    t.log = s.log ++ entries cell.id [(cell.inst, .left .detached)]

/-- A step of the core, seen from its cells. -/
inductive StepShape (policy : Policy) (input : Input A M) (s t : Core A M) : Prop
  /-- Another thread has sent a new cell. -/
  | sent (cell : Cell A) (actor : A) (factory : Bool) (restartPolicy : RestartPolicy)
      (label : input = .sendAdd actor factory restartPolicy)
      (fresh : cell = { id := s.sent, actor, factory, restartPolicy })
      (cells : t.cells = (cell, .waiting) ::ₘ s.cells) (log : t.log = s.log)
      (count : t.sent = s.sent + 1)
  | quiet (cells : t.cells = s.cells) (log : t.log = s.log) (count : t.sent = s.sent)
  /-- The served cell goes on to its next place. The loop stops a cell by itself only in the
      drain. -/
  | moves (cell cell' : Cell A) (loc loc' : Loc A M) (rest : Multiset (Cell A × Loc A M))
      (events : List (Nat × Event A M)) (serves : s.Serves cell loc)
      (stepped : CellStep policy input cell loc events (some (cell', loc')))
      (drains : input = .internal → loc' = .stopping → s.pc.draining = true)
      (cells : s.cells = (cell, loc) ::ₘ rest) (cells' : t.cells = (cell', loc') ::ₘ rest)
      (log : t.log = s.log ++ entries cell.id events) (count : t.sent = s.sent)
  /-- The served cell is gone. -/
  | leaves (cell : Cell A) (loc : Loc A M) (rest : Multiset (Cell A × Loc A M))
      (events : List (Nat × Event A M)) (serves : s.Serves cell loc)
      (stepped : CellStep policy input cell loc events none)
      (cells : s.cells = (cell, loc) ::ₘ rest) (cells' : t.cells = rest)
      (log : t.log = s.log ++ entries cell.id events) (count : t.sent = s.sent)
  | died (died : Died s t)

theorem PollMove.id_eq {overflowChecks : Bool} {cell cell' : Cell A} {pc pc' : PollPc A M}
    {input : Input A M} {events : List (Nat × Event A M)}
    (move : PollMove overflowChecks cell pc input cell' pc' events) : cell'.id = cell.id := by
  cases move <;> rfl

/-- A cell keeps its number. -/
theorem CellStep.id_eq {policy : Policy} {input : Input A M} {cell cell' : Cell A}
    {loc loc' : Loc A M} {events : List (Nat × Event A M)}
    (stepped : CellStep policy input cell loc events (some (cell', loc'))) : cell'.id = cell.id := by
  cases stepped with
  | polls move => exact move.id_eq
  | _ => rfl

section Shapes

variable {policy : Policy} {s t : Core A M} {input : Input A M}

/-- Moving the program counter between points without a focus changes no cell. -/
theorem StepShape.idle {pc : Pc A M} (held : pc.held = s.pc.held) (focus : pc.focus = s.pc.focus) :
    StepShape policy input s { s with pc := pc } :=
  .quiet (by simp only [Core.cells, held, focus]) rfl rfl

/-- The core turns to an actor, or from one place of it to the next. -/
theorem StepShape.refocus {pc : Pc A M} {i : Nat} {cell : Cell A} {loc loc' : Loc A M}
    (serves : s.Serves cell loc)
    (stepped : CellStep policy input cell loc [] (some (cell, loc'))) (held : pc.held = 0)
    (held' : s.pc.held = 0)
    (before : actorCells s.actors s.pc.focus = (cell, loc) ::ₘ calmCells M (s.actors.eraseIdx i))
    (after : actorCells s.actors pc.focus = (cell, loc') ::ₘ calmCells M (s.actors.eraseIdx i)) :
    StepShape policy input s { s with pc := pc } := by
  refine .moves cell cell loc loc'
    ((s.controls.map (Control.waiting M)).sum + calmCells M (s.actors.eraseIdx i)) [] serves stepped
    ?_ ?_ ?_ (List.append_nil _).symm rfl
  · rintro - rfl
    cases stepped
  · simp only [Core.cells, held', before, add_zero, Multiset.add_cons]
  · simp only [Core.cells, held, after, add_zero, Multiset.add_cons]

theorem recvControl_shape (at_ : s.pc = .control) : StepShape policy input s s.recvControl := by
  unfold Core.recvControl
  split
  · rename_i cell rest controls
    refine .quiet ?_ rfl rfl
    simp only [Core.cells, at_, controls, Pc.held, Pc.focus, List.map_cons, List.sum_cons,
      Control.waiting, add_zero]
    rw [add_comm {(cell, Loc.waiting)} _]
  · rename_i rest controls
    refine .quiet ?_ rfl rfl
    simp only [Core.cells, controls, List.map_cons, List.sum_cons, Control.waiting, zero_add]
  · refine .quiet ?_ rfl rfl
    simp only [Core.cells, at_, Pc.held, Pc.focus]

/-- The cells when the core holds one of them outside its actors. -/
theorem cells_of_held {cell : Cell A} {loc : Loc A M} (held : s.pc.held = {(cell, loc)})
    (away : s.pc.focus = none) :
    s.cells = (cell, loc) ::ₘ
      ((s.controls.map (Control.waiting M)).sum + calmCells M s.actors) := by
  simp only [Core.cells, held, away, actorCells]
  rw [add_comm _ {(cell, loc)}, add_assoc, Multiset.singleton_add]

theorem started_shape {cell : Cell A} {after : A} {outcome : Outcome} (at_ : s.pc = .start cell) :
    StepShape policy (.ran after outcome) s (s.started cell after outcome) := by
  have cells : s.cells = (cell, .waiting) ::ₘ
      ((s.controls.map (Control.waiting M)).sum + calmCells M s.actors) :=
    cells_of_held (by rw [at_]; rfl) (by rw [at_]; rfl)
  have serves : s.Serves cell .waiting := by
    simp [Core.Serves, at_]
  cases outcome with
  | returned =>
      refine .moves cell _ .waiting .calm _ _ serves .started nofun cells ?_ rfl rfl
      simp only [Core.cells, Core.started, Core.record, Pc.held, Pc.focus, actorCells, calmCells,
        add_zero, List.map_append, ← Multiset.coe_add, ← add_assoc]
      rw [add_comm]
      rfl
  | panicked =>
      refine .leaves cell .waiting _ _ serves .startFailed cells ?_ ?_ rfl
      · simp only [Core.cells, Core.started, Core.record, Pc.held, Pc.focus, add_zero]
        rfl
      · simp [Core.started, Core.record, entries]
  | aborted => exact .died ⟨rfl, .inl rfl⟩

theorem visited_shape {i : Nat} (at_ : s.pc = .visit i) :
    StepShape policy .internal s (s.visited i) := by
  have held : s.pc.held = 0 := by rw [at_]; rfl
  have away : s.pc.focus = none := by rw [at_]; rfl
  unfold Core.visited
  split
  · rename_i inside
    have found := List.getElem?_eq_getElem inside
    refine .refocus (i := i) ?_ .visited rfl held ?_ (actorCells_some found _)
    · simp [Core.Serves, at_, found]
    · rw [away]
      exact calmCells_cons found
  · split <;> exact .idle held.symm away.symm

/-- The cells while one of the actors is polled. -/
theorem cells_of_polled {site : Site} {pc : PollPc A M} {cell : Cell A} (at_ : s.pc = .poll site pc)
    (found : s.actors[site.index]? = some cell) :
    s.cells = (cell, .polled pc) ::ₘ
      ((s.controls.map (Control.waiting M)).sum + calmCells M (s.actors.eraseIdx site.index)) := by
  simp only [Core.cells, at_, Pc.held, Pc.focus, actorCells_some found, add_zero, Multiset.add_cons]

/-- A step inside `poll_one` changes the polled cell only. -/
theorem cells_of_pollNext {site : Site} {pc' : PollPc A M} {cell cell' : Cell A}
    {events : List (Nat × Event A M)} (found : s.actors[site.index]? = some cell) :
    (s.pollNext site.index site (.goOn cell' pc' events)).cells = (cell', .polled pc') ::ₘ
      ((s.controls.map (Control.waiting M)).sum + calmCells M (s.actors.eraseIdx site.index)) := by
  have inside : site.index < s.actors.length := (List.getElem?_eq_some_iff.1 found).1
  have found' : (s.actors.set site.index cell')[site.index]? = some cell' :=
    List.getElem?_set_self inside
  rw [cells_of_polled (s := s.pollNext site.index site (.goOn cell' pc' events)) rfl found']
  simp only [Core.pollNext, List.eraseIdx_set_eq]

theorem pollNext_shape {site : Site} {pc : PollPc A M} {cell : Cell A}
    (at_ : s.pc = .poll site pc) (found : s.actors[site.index]? = some cell) {next : PollNext A M}
    (stepped : pollStep policy.overflowChecks cell pc input = some next) :
    StepShape policy input s (s.pollNext site.index site next) := by
  cases next with
  | unwound | aborted => exact .died ⟨rfl, .inl rfl⟩
  | goOn cell' pc' events =>
      have move := pollMove_of_pollStep stepped
      have same : cell'.id = cell.id := move.id_eq
      refine .moves cell cell' (.polled pc) (.polled pc') _ events ?_ (.polls move) nofun
        (cells_of_polled at_ found) (cells_of_pollNext found) ?_ rfl
      · simp [Core.Serves, at_, found]
      · rw [← same]
        rfl

/-- An actor leaves the actors to be stopped. -/
theorem leave_stop_shape {i : Nat} {cell : Cell A} {actors : List (Cell A)} {why : Exit}
    {resume : Resume} {loc : Loc A M} (serves : s.Serves cell loc)
    (stepped : CellStep policy input cell loc [(cell.inst, .left why)] (some (cell, .stopping)))
    (drains : input = .internal → s.pc.draining = true) (held : s.pc.held = 0)
    (before : actorCells s.actors s.pc.focus = (cell, loc) ::ₘ calmCells M (s.actors.eraseIdx i))
    (others : actors.Perm (s.actors.eraseIdx i)) :
    StepShape policy input s (s.leave cell actors why (.stop cell resume)) := by
  refine .moves cell cell loc .stopping
    ((s.controls.map (Control.waiting M)).sum + calmCells M (s.actors.eraseIdx i)) _ serves stepped
    (fun own _ => drains own) ?_ ?_ rfl rfl
  · simp only [Core.cells, held, before, add_zero, Multiset.add_cons]
  · rw [cells_of_held (s := s.leave cell actors why (.stop cell resume)) rfl rfl]
    simp only [Core.leave, Core.record, calmCells_perm others]

/-- A failed actor leaves the core for good. -/
theorem leave_detached_shape {i : Nat} {cell : Cell A} {actors : List (Cell A)} {loc : Loc A M}
    {pc : Pc A M} (serves : s.Serves cell loc)
    (stepped : CellStep policy input cell loc [(cell.inst, .left .detached)] none)
    (held : s.pc.held = 0)
    (before : actorCells s.actors s.pc.focus = (cell, loc) ::ₘ calmCells M (s.actors.eraseIdx i))
    (others : actors.Perm (s.actors.eraseIdx i)) (held' : pc.held = 0) (away : pc.focus = none) :
    StepShape policy input s (s.leave cell actors .detached pc) := by
  refine .leaves cell loc
    ((s.controls.map (Control.waiting M)).sum + calmCells M (s.actors.eraseIdx i)) _ serves stepped
    ?_ ?_ rfl rfl
  · simp only [Core.cells, held, before, add_zero, Multiset.add_cons]
  · simp only [Core.cells, Core.leave, Core.record, held', away, actorCells, add_zero,
      calmCells_perm others]

theorem polled_shape {site : Site} {outcome : PollOutcome} {cell : Cell A}
    (at_ : s.pc = .poll site (.returned outcome)) (found : s.actors[site.index]? = some cell) :
    StepShape policy .internal s (s.polled policy cell site outcome) := by
  have held : s.pc.held = 0 := by rw [at_]; rfl
  have before : actorCells s.actors s.pc.focus =
      (cell, .polled (.returned outcome)) ::ₘ calmCells M (s.actors.eraseIdx site.index) := by
    rw [at_]
    exact actorCells_some found _
  have serves : s.Serves cell (.polled (.returned outcome)) := by
    simp [Core.Serves, at_, found]
  have calms : ∀ pc : Pc A M, outcome ≠ .panicked → pc.held = 0 → pc.focus = none →
      StepShape policy .internal s { s with pc := pc } := by
    intro pc fine held' away
    refine .refocus serves (.calms fine) held' held before ?_
    rw [away]
    exact calmCells_cons found
  have batch : ∀ i left : Nat, i = site.index → outcome = .worked →
      StepShape policy .internal s { s with pc := Core.batchNext i left } := by
    rintro i left rfl rfl
    unfold Core.batchNext
    split
    · exact calms _ (by simp) rfl rfl
    · exact .refocus serves .again rfl held before (actorCells_some found _)
  have first : site = .drain → s.actors.tail = s.actors.eraseIdx site.index := by
    rintro rfl
    exact List.eraseIdx_zero.symm
  cases outcome with
  | worked =>
      cases site with
      | first i => exact batch i _ rfl rfl
      | batch i left => exact batch i _ rfl rfl
      | drain => exact .refocus serves .again rfl held before (actorCells_some found _)
  | empty =>
      cases site with
      | first i | batch i left => exact calms _ (by simp) rfl rfl
      | drain => exact leave_stop_shape serves .drained (fun _ => by rw [at_]; rfl) held before (by rw [first rfl])
  | panicked =>
      cases site with
      | first i | batch i left =>
          exact .refocus serves .fails rfl held before (actorCells_some found _)
      | drain =>
          exact leave_detached_shape serves .drainFailed held before (by rw [first rfl]) rfl rfl

theorem detach_shape {i : Nat} {cell : Cell A} {outcome : Outcome} (at_ : s.pc = .detach i)
    (found : s.actors[i]? = some cell) :
    StepShape policy (.dropped outcome) s
      ((s.leave cell (swapRemove s.actors i) .detached (.visit i)).afterDrop (.visit i) outcome) := by
  have inside : i < s.actors.length := (List.getElem?_eq_some_iff.1 found).1
  have held : s.pc.held = 0 := by rw [at_]; rfl
  have before : actorCells s.actors s.pc.focus =
      (cell, .failed) ::ₘ calmCells M (s.actors.eraseIdx i) := by
    rw [at_]
    exact actorCells_some found _
  have serves : s.Serves cell .failed := by
    simp [Core.Serves, at_, found]
  have member : (cell, .failed) ∈ s.cells := by
    rw [Core.cells, before]
    exact Multiset.mem_add.2 (.inr (Multiset.mem_cons_self _ _))
  cases outcome with
  | returned =>
      exact leave_detached_shape serves .detached held before (swapRemove_perm inside) rfl rfl
  | panicked | aborted => exact .died ⟨rfl, .inr ⟨cell, member, rfl⟩⟩

theorem stopped_shape {cell : Cell A} {resume : Resume} {after : A} {outcome : Outcome}
    (at_ : s.pc = .stop cell resume) :
    StepShape policy (.ran after outcome) s (s.stopped cell resume after outcome) := by
  have cells : s.cells = (cell, .stopping) ::ₘ
      ((s.controls.map (Control.waiting M)).sum + calmCells M s.actors) :=
    cells_of_held (by rw [at_]; rfl) (by rw [at_]; rfl)
  have serves : s.Serves cell .stopping := by
    simp [Core.Serves, at_]
  unfold Core.stopped
  split
  · exact .died ⟨rfl, .inl rfl⟩
  · rename_i whole
    refine .leaves cell .stopping _ _ serves (.stopped whole) cells ?_ rfl rfl
    simp only [Core.cells, Core.record, Pc.held, Pc.focus, actorCells, add_zero]

theorem loopStep_shape (moved : s.loopStep policy input = some t) : StepShape policy input s t := by
  unfold Core.loopStep at moved
  split at moved
  · rename_i at_
    cases moved
    exact recvControl_shape at_
  · rename_i cell after outcome at_
    cases moved
    exact started_shape at_
  · rename_i i at_
    cases moved
    exact visited_shape at_
  · rename_i site outcome at_
    obtain ⟨cell, found, rfl⟩ := Option.map_eq_some_iff.1 moved
    exact polled_shape at_ found
  · rename_i site pc at_ _
    obtain ⟨cell, found, rest⟩ := Option.bind_eq_some_iff.1 moved
    obtain ⟨next, stepped, rfl⟩ := Option.map_eq_some_iff.1 rest
    exact pollNext_shape at_ found stepped
  · rename_i i verdict at_
    obtain ⟨cell, found, rfl⟩ := Option.map_eq_some_iff.1 moved
    have inside : i < s.actors.length := (List.getElem?_eq_some_iff.1 found).1
    have held : s.pc.held = 0 := by rw [at_]; rfl
    have away : s.pc.focus = none := by rw [at_]; rfl
    have before : actorCells s.actors s.pc.focus =
        (cell, .calm) ::ₘ calmCells M (s.actors.eraseIdx i) := by
      rw [away]
      exact calmCells_cons found
    have serves : s.Serves cell .calm := by
      simp [Core.Serves, at_, found]
    cases verdict with
    | true => exact leave_stop_shape serves .closed nofun held before (swapRemove_perm inside)
    | false => exact .idle held.symm away.symm
  · rename_i i outcome at_
    obtain ⟨cell, found, rfl⟩ := Option.map_eq_some_iff.1 moved
    exact detach_shape at_ found
  · rename_i cell resume after outcome at_
    cases moved
    exact stopped_shape at_
  · rename_i cell resume outcome at_
    cases moved
    have held : s.pc.held = 0 := by rw [at_]; rfl
    have away : s.pc.focus = none := by rw [at_]; rfl
    cases outcome with
    | returned =>
        refine .idle ?_ ?_
        · rw [held]
          cases resume <;> rfl
        · rw [away]
          cases resume <;> rfl
    | panicked | aborted => exact .died ⟨rfl, .inl rfl⟩
  · rename_i at_
    cases moved
    have held : s.pc.held = 0 := by rw [at_]; rfl
    have away : s.pc.focus = none := by rw [at_]; rfl
    by_cases empty : s.actors.isEmpty = true
    · simp only [empty, if_true]
      exact .idle held.symm away.symm
    · simp only [empty, Bool.false_eq_true, if_false]
      have inside : 0 < s.actors.length := by simpa [List.length_pos_iff] using empty
      have found := List.getElem?_eq_getElem inside
      refine .refocus (i := 0) ?_ .visited rfl held ?_ (actorCells_some found _)
      · simp [Core.Serves, at_]
      · rw [away]
        exact calmCells_cons found
  · cases moved

theorem environment_shape (moved : s.environment input = some t) :
    StepShape policy input s t := by
  cases input with
  | sendAdd actor factory restartPolicy =>
      obtain ⟨-, rfl⟩ := guarded moved
      refine .sent _ actor factory restartPolicy rfl rfl ?_ rfl rfl
      simp only [Core.cells, List.map_append, List.map_singleton, List.sum_append,
        List.sum_singleton, Control.waiting]
      rw [add_comm _ {(_, Loc.waiting)}, add_assoc, add_assoc, Multiset.singleton_add, add_assoc]
  | sendShutdown =>
      obtain ⟨-, rfl⟩ := guarded moved
      refine .quiet ?_ rfl rfl
      simp only [Core.cells, List.map_append, List.map_singleton, List.sum_append,
        List.sum_singleton, Control.waiting, add_zero]
  | disconnect =>
      obtain ⟨-, rfl⟩ := guarded moved
      exact .quiet rfl rfl rfl
  | _ => cases moved

/-- A step is one of the other threads' or one of the loop's. -/
theorem step_cases (moved : s.step policy input = some t) :
    s.environment input = some t ∨ s.loopStep policy input = some t := by
  unfold Core.step at moved
  cases sent : s.environment input with
  | some u =>
      rw [sent] at moved
      exact .inl moved
  | none =>
      rw [sent] at moved
      exact .inr moved

theorem step_shape (moved : s.step policy input = some t) : StepShape policy input s t := by
  rcases step_cases moved with moved | moved
  · exact environment_shape moved
  · exact loopStep_shape moved

/-- A dead core makes no step of its own. -/
theorem alive_of_loopStep (moved : s.loopStep policy input = some t) : s.pc.dead = false := by
  cases at_ : s.pc with
  | unwound | aborted => simp [Core.loopStep, at_] at moved
  | _ => rfl

/-- Other threads touch neither the program counter nor the log. -/
theorem environment_frame (moved : s.environment input = some t) :
    t.pc = s.pc ∧ t.log = s.log ∧ t.actors = s.actors ∧ t.shuttingDown = s.shuttingDown := by
  cases input with
  | sendAdd actor factory restartPolicy | sendShutdown | disconnect =>
      obtain ⟨-, rfl⟩ := guarded moved
      exact ⟨rfl, rfl, rfl, rfl⟩
  | _ => cases moved

end Shapes

/-! ### Invariants of single cells -/

/-- The log of one cell after events of cell `id`. -/
theorem trace_append {s t : Core A M} {id : Nat} {events : List (Nat × Event A M)}
    (log : t.log = s.log ++ entries id events) (other : Nat) :
    t.trace other = if other = id then s.trace other ++ entries id events else s.trace other := by
  have own : ∀ e ∈ entries id events, e.cell = id := by
    intro e member
    obtain ⟨_, -, rfl⟩ := List.mem_map.1 member
    rfl
  unfold Core.trace
  rw [log, List.filter_append]
  split
  · rename_i same
    have all : (entries id events).filter (·.cell = other) = entries id events :=
      List.filter_eq_self.2 fun e member => by simp [own e member, same]
    rw [all]
  · rename_i different
    have none_ : (entries id events).filter (·.cell = other) = [] :=
      List.filter_eq_nil_iff.2 fun e member => by
        simpa [own e member] using fun same => different same.symm
    rw [none_, List.append_nil]

theorem trace_same {s t : Core A M} (log : t.log = s.log) (id : Nat) : t.trace id = s.trace id := by
  rw [Core.trace, Core.trace, log]

/-- The numbers of the cells the core has. -/
def Core.ids (s : Core A M) : Multiset Nat := s.cells.map fun spot => spot.1.id

/-- Every cell the core has meets `P` with its log, and every cell it no longer has meets `Q`. -/
structure Placed (P : Cell A → Loc A M → List (Entry A M) → Prop)
    (Q : Nat → List (Entry A M) → Prop) (s : Core A M) : Prop where
  nodup : s.ids.Nodup
  known : ∀ id ∈ s.ids, id < s.sent
  present : ∀ spot ∈ s.cells, P spot.1 spot.2 (s.trace spot.1.id)
  gone : ∀ id < s.sent, id ∉ s.ids → Q id (s.trace id)
  unknown : ∀ id, s.sent ≤ id → s.trace id = []

namespace Placed

variable {P : Cell A → Loc A M → List (Entry A M) → Prop} {Q : Nat → List (Entry A M) → Prop}
  {policy : Policy} {s t : Core A M} {input : Input A M}

theorem new : Placed P Q (Core.new : Core A M) where
  nodup := by simp [Core.ids, Core.cells, Core.new, Pc.held, Pc.focus, actorCells, calmCells]
  known := by simp [Core.ids, Core.cells, Core.new, Pc.held, Pc.focus, actorCells, calmCells]
  present := by simp [Core.cells, Core.new, Pc.held, Pc.focus, actorCells, calmCells]
  gone := by simp [Core.new]
  unknown := by simp [Core.trace, Core.new]

/-- The served cell is at no other place. -/
theorem apart (placed : Placed P Q s) {cell : Cell A} {loc : Loc A M}
    {rest : Multiset (Cell A × Loc A M)} (cells : s.cells = (cell, loc) ::ₘ rest) :
    s.ids = cell.id ::ₘ rest.map (fun spot => spot.1.id) ∧
      cell.id ∉ rest.map (fun spot => spot.1.id) ∧ (rest.map fun spot => spot.1.id).Nodup := by
  have ids : s.ids = cell.id ::ₘ rest.map fun spot => spot.1.id := by
    rw [Core.ids, cells, Multiset.map_cons]
  have nodup := placed.nodup
  rw [ids] at nodup
  exact ⟨ids, Multiset.nodup_cons.1 nodup⟩

/-- What happens to the served cell leaves the others alone. -/
theorem others (placed : Placed P Q s) {cell : Cell A} {loc : Loc A M}
    {rest : Multiset (Cell A × Loc A M)} (cells : s.cells = (cell, loc) ::ₘ rest)
    {events : List (Nat × Event A M)} (log : t.log = s.log ++ entries cell.id events) :
    (∀ spot ∈ rest, P spot.1 spot.2 (t.trace spot.1.id)) ∧
      (∀ id < s.sent, id ∉ s.ids → Q id (t.trace id)) ∧
      (∀ id, s.sent ≤ id → t.trace id = []) := by
  obtain ⟨ids, apart, -⟩ := placed.apart cells
  have mine : cell.id ∈ s.ids := by rw [ids]; exact Multiset.mem_cons_self _ _
  have trace := trace_append log
  refine ⟨fun spot member => ?_, fun id known absent => ?_, fun id unknown => ?_⟩
  · have different : spot.1.id ≠ cell.id := fun same =>
      apart (same ▸ Multiset.mem_map_of_mem (fun spot => spot.1.id) member)
    rw [trace, if_neg different]
    exact placed.present spot (cells ▸ Multiset.mem_cons_of_mem member)
  · have different : id ≠ cell.id := fun same => absent (same ▸ mine)
    rw [trace, if_neg different]
    exact placed.gone id known absent
  · have different : id ≠ cell.id := fun same => by
      have := placed.known _ mine
      omega
    rw [trace, if_neg different]
    exact placed.unknown id unknown

theorem mono {P' : Cell A → Loc A M → List (Entry A M) → Prop} {Q' : Nat → List (Entry A M) → Prop}
    (placed : Placed P Q s) (present : ∀ cell loc log, P cell loc log → P' cell loc log)
    (gone : ∀ id log, Q id log → Q' id log) : Placed P' Q' s :=
  { placed with
    present := fun spot member => present _ _ _ (placed.present spot member)
    gone := fun id known absent => gone _ _ (placed.gone id known absent) }

/-- The served cell goes on, and what is asked of the cells may change with it. -/
theorem transfer {P' : Cell A → Loc A M → List (Entry A M) → Prop}
    {Q' : Nat → List (Entry A M) → Prop} (placed : Placed P Q s) {cell cell' : Cell A}
    {loc loc' : Loc A M} {rest : Multiset (Cell A × Loc A M)} {events : List (Nat × Event A M)}
    (cells : s.cells = (cell, loc) ::ₘ rest) (cells' : t.cells = (cell', loc') ::ₘ rest)
    (same : cell'.id = cell.id) (log : t.log = s.log ++ entries cell.id events)
    (count : t.sent = s.sent)
    (mine : P cell loc (s.trace cell.id) →
      P' cell' loc' (s.trace cell.id ++ entries cell.id events))
    (present : ∀ other place log, other.id ≠ cell.id → P other place log → P' other place log)
    (left : ∀ id log, id ≠ cell.id → Q id log → Q' id log) : Placed P' Q' t := by
  obtain ⟨idsBefore, apart, -⟩ := placed.apart cells
  obtain ⟨others, gone, unknown⟩ := placed.others cells log
  have ids : t.ids = s.ids := by rw [idsBefore, Core.ids, cells', Multiset.map_cons, same]
  have here : (cell, loc) ∈ s.cells := by rw [cells]; exact Multiset.mem_cons_self _ _
  refine ⟨ids ▸ placed.nodup, ?_, fun spot member => ?_, fun id known absent => ?_, ?_⟩
  · rw [ids, count]
    exact placed.known
  · rw [cells'] at member
    rcases Multiset.mem_cons.1 member with rfl | other
    · rw [same, trace_append log, if_pos rfl]
      exact mine (placed.present _ here)
    · have different : spot.1.id ≠ cell.id := fun clash =>
        apart (clash ▸ Multiset.mem_map_of_mem (fun spot => spot.1.id) other)
      exact present _ _ _ different (others spot other)
  · rw [ids] at absent
    have different : id ≠ cell.id := fun clash => absent (by
      rw [idsBefore, clash]
      exact Multiset.mem_cons_self _ _)
    exact left _ _ different (gone id (count ▸ known) absent)
  · rw [count]
    exact unknown

/-- The rule for invariants of single cells: a new cell meets `P` with an empty log, and serving a
    cell keeps `P`, or gives `Q` when the core no longer has it. Unless the core dies, that is all. -/
theorem step (placed : Placed P Q s) (moved : s.step policy input = some t)
    (arrives : ∀ actor factory restartPolicy, input = .sendAdd actor factory restartPolicy →
      P { id := s.sent, actor, factory, restartPolicy } .waiting [])
    (moves : ∀ cell loc cell' loc' events log, s.Serves cell loc →
      CellStep policy input cell loc events (some (cell', loc')) →
      (input = .internal → loc' = .stopping → s.pc.draining = true) → P cell loc log →
      P cell' loc' (log ++ entries cell.id events))
    (leaves : ∀ cell loc events log, s.Serves cell loc →
      CellStep policy input cell loc events none → P cell loc log →
      Q cell.id (log ++ entries cell.id events)) : Placed P Q t ∨ Died s t := by
  cases step_shape moved with
  | sent cell actor factory restartPolicy label fresh cells log count =>
      have ids : t.ids = s.sent ::ₘ s.ids := by
        rw [Core.ids, cells, Multiset.map_cons, fresh]
        rfl
      refine .inl ⟨?_, ?_, ?_, ?_, ?_⟩
      · rw [ids, Multiset.nodup_cons]
        exact ⟨fun old => (placed.known _ old).ne rfl, placed.nodup⟩
      · intro id member
        rw [ids] at member
        rw [count]
        rcases Multiset.mem_cons.1 member with rfl | old
        · exact Nat.lt_succ_self _
        · exact (placed.known id old).trans (Nat.lt_succ_self _)
      · intro spot member
        rw [trace_same log]
        rw [cells] at member
        rcases Multiset.mem_cons.1 member with rfl | old
        · rw [fresh, placed.unknown s.sent le_rfl]
          exact arrives actor factory restartPolicy label
        · exact placed.present spot old
      · intro id known absent
        rw [trace_same log]
        rw [ids, Multiset.mem_cons, not_or] at absent
        have : id ≠ s.sent := absent.1
        exact placed.gone id (by omega) absent.2
      · intro id unknown
        rw [trace_same log]
        exact placed.unknown id (by omega)
  | quiet cells log count =>
      have ids : t.ids = s.ids := by rw [Core.ids, cells]; rfl
      refine .inl ⟨ids ▸ placed.nodup, ?_, fun spot member => ?_, fun id known absent => ?_,
        fun id unknown => ?_⟩
      · rw [ids, count]
        exact placed.known
      · rw [trace_same log]
        exact placed.present spot (cells ▸ member)
      · rw [trace_same log]
        exact placed.gone id (count ▸ known) (ids ▸ absent)
      · rw [trace_same log]
        exact placed.unknown id (count ▸ unknown)
  | moves cell cell' loc loc' rest events serves stepped drains cells cells' log count =>
      exact .inl (placed.transfer cells cells' stepped.id_eq log count
        (moves cell loc cell' loc' events _ serves stepped drains) (fun _ _ _ _ kept => kept)
        fun _ _ _ kept => kept)
  | leaves cell loc rest events serves stepped cells cells' log count =>
      obtain ⟨idsBefore, apart, nodup⟩ := placed.apart cells
      obtain ⟨others, gone, unknown⟩ := placed.others cells log
      have ids : t.ids = rest.map fun spot => spot.1.id := by rw [Core.ids, cells']
      have mine : (cell, loc) ∈ s.cells := by rw [cells]; exact Multiset.mem_cons_self _ _
      refine .inl ⟨ids ▸ nodup, fun id member => ?_, fun spot member => ?_,
        fun id known absent => ?_, ?_⟩
      · rw [count]
        refine placed.known id ?_
        rw [idsBefore]
        exact Multiset.mem_cons_of_mem (ids ▸ member)
      · exact others spot (cells' ▸ member)
      · by_cases same : id = cell.id
        · rw [trace_append log, if_pos same, same]
          exact leaves cell loc events _ serves stepped (placed.present _ mine)
        · refine gone id (count ▸ known) ?_
          rw [idsBefore, Multiset.mem_cons, not_or]
          exact ⟨same, ids ▸ absent⟩
      · rw [count]
        exact unknown
  | died died => exact .inr died

end Placed

end AetherFlow.System
