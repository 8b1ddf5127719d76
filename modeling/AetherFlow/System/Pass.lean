/-
Module: AetherFlow.System.Pass
Purpose: One scheduling pass of `core_loop`, from the head of the loop over the actors to its exit. The
  pass is watched visit by visit: the actor as the visit found it and as it left it, what its polls
  reported, and what `closed_and_empty` said. Elements are removed from the vector by `swap_remove`
  while the index walks it; every actor is visited once all the same.
Trusted boundary: none
Main exports: Visit, Visit.Removes, Pass, Pass.step, Swept, AtActor, PassInv, PassLaw, FairPass,
  fairPass_of_exec
-/
import AetherFlow.System.Containment

namespace AetherFlow.System

open Transition

variable {A M : Type*}

/-! ### The pass and what is seen of it -/

/-- A visit of an actor. -/
structure Visit (A : Type*) where
  /-- The actor as the visit found it. -/
  cell : Cell A
  /-- The actor as the visit left it. -/
  after : Cell A
  /-- What `poll_one` reported, in order. -/
  polls : List PollOutcome
  /-- What `closed_and_empty` reported, if it was called. -/
  closed : Option Bool

/-- A poll reported `Panicked`, or the first one `Empty` and `closed_and_empty` was then true. -/
def Visit.Removes (v : Visit A) : Prop :=
  .panicked ∈ v.polls ∨ v.polls.head? = some .empty ∧ v.closed = some true

instance (v : Visit A) : Decidable v.Removes :=
  inferInstanceAs (Decidable (_ ∨ _))

/-- The actor that is being visited. -/
def Pc.visiting : Pc A M → Option Nat
  | .poll (.first i) _ | .poll (.batch i _) _ | .closedCheck i | .detach i => some i
  | _ => none

/-- The core is in its scheduling pass. -/
def Pc.inPass : Pc A M → Bool
  | .visit _ | .poll (.first _) _ | .poll (.batch _ _) _ | .closedCheck _ | .detach _
  | .stop _ (.visit _) | .drop _ (.visit _) => true
  | _ => false

/-- The poll that a step of the loop ends. -/
def Pc.reports : Pc A M → Input A M → List PollOutcome
  | .poll _ (.returned outcome), .internal => [outcome]
  | _, _ => []

/-- The answer of `closed_and_empty`. -/
def Pc.verdict : Pc A M → Input A M → Option Bool
  | .closedCheck _, .closedAndEmpty verdict => some verdict
  | _, _ => none

/-- The input comes from another thread. -/
def Input.foreign : Input A M → Bool
  | .sendAdd _ _ _ | .sendShutdown | .disconnect => true
  | _ => false

/-- A pass: the core, the visits that are over, and the one that is not. -/
structure Pass (A M : Type*) where
  core : Core A M
  visits : List (Visit A)
  current : Option (Visit A)

namespace Pass

def start (s : Core A M) : Pass A M := ⟨s, [], none⟩

/-- The pass after a step to `t`. -/
def after (p : Pass A M) (input : Input A M) (t : Core A M) : Pass A M :=
  match p.current, t.pc.visiting with
  | none, none => { p with core := t }
  | none, some i =>
      { p with core := t, current := (t.actors[i]?).map fun cell => ⟨cell, cell, [], none⟩ }
  | some v, next =>
      let seen : Visit A :=
        { v with
          polls := v.polls ++ p.core.pc.reports input
          closed := v.closed.or (p.core.pc.verdict input) }
      match next with
      | some i => { p with core := t, current := some { seen with after := (t.actors[i]?).getD v.after } }
      | none => { core := t, visits := p.visits ++ [seen], current := none }

/-- A step of the core or of another thread while the pass goes on. -/
def step (policy : Policy) (p : Pass A M) (input : Input A M) : Option (Pass A M) :=
  if p.core.pc.inPass then (p.core.step policy input).map (p.after input) else none

end Pass

/-! ### What has been visited -/

/-- A visit takes messages of its own actor only, at most as many as a batch has. -/
structure Visit.Sound (policy : Policy) (v : Visit A) : Prop where
  same : v.after.id = v.cell.id
  more : v.cell.taken ≤ v.after.taken
  batch : v.after.taken ≤ v.cell.taken + policy.batchDrain

/-- The actors that the visits kept, as they left them. -/
def keptBy (visits : List (Visit A)) : List (Cell A) :=
  (visits.filter fun v => ¬ v.Removes).map Visit.after

/-- The loop is about to look at index `i`: the actors before it were visited and kept, those from it on
    are still as the pass found them. -/
structure Swept (policy : Policy) (vector : List (Cell A)) (visits : List (Visit A))
    (actors : List (Cell A)) (i : Nat) : Prop where
  inside : i ≤ actors.length
  ahead : (visits.map Visit.cell ++ actors.drop i).Perm vector
  behind : (actors.take i).Perm (keptBy visits)
  sound : ∀ v ∈ visits, v.Sound policy

/-- The loop is at the actor of index `i`, in visit `v`. -/
structure AtActor (policy : Policy) (vector : List (Cell A)) (visits : List (Visit A))
    (actors : List (Cell A)) (i : Nat) (v : Visit A) : Prop where
  here : actors[i]? = some v.after
  same : v.after.id = v.cell.id
  more : v.cell.taken ≤ v.after.taken
  ahead : (visits.map Visit.cell ++ v.cell :: actors.drop (i + 1)).Perm vector
  behind : (actors.take i).Perm (keptBy visits)
  sound : ∀ w ∈ visits, w.Sound policy

section Visits

variable {policy : Policy} {vector actors : List (Cell A)} {visits : List (Visit A)} {i : Nat}
  {v : Visit A}

theorem Swept.start (policy : Policy) (vector : List (Cell A)) : Swept policy vector [] vector 0 where
  inside := Nat.zero_le _
  ahead := by simp
  behind := by simp [keptBy]
  sound w member := by cases member

/-- A visit begins. -/
theorem Swept.visit (done : Swept policy vector visits actors i) {cell : Cell A}
    (found : actors[i]? = some cell) :
    AtActor policy vector visits actors i ⟨cell, cell, [], none⟩ where
  here := found
  same := rfl
  more := le_rfl
  ahead := by
    obtain ⟨inside, rfl⟩ := List.getElem?_eq_some_iff.1 found
    have split := done.ahead
    rwa [List.drop_eq_getElem_cons inside] at split
  behind := done.behind
  sound := done.sound

/-- The loop is over. -/
theorem Swept.all (done : Swept policy vector visits actors i) (outside : ¬ i < actors.length) :
    (visits.map Visit.cell).Perm vector ∧ actors.Perm (keptBy visits) := by
  have ahead := done.ahead
  have behind := done.behind
  rw [List.drop_of_length_le (Nat.not_lt.1 outside), List.append_nil] at ahead
  rw [List.take_of_length_le (Nat.not_lt.1 outside)] at behind
  exact ⟨ahead, behind⟩

/-- The visited actor is changed in place. -/
theorem AtActor.update (at_ : AtActor policy vector visits actors i v) {cell : Cell A}
    (id : cell.id = v.after.id) (more : v.after.taken ≤ cell.taken) (polls : List PollOutcome)
    (closed : Option Bool) :
    AtActor policy vector visits (actors.set i cell) i ⟨v.cell, cell, polls, closed⟩ where
  here := by
    have inside := (List.getElem?_eq_some_iff.1 at_.here).1
    exact List.getElem?_set_self inside
  same := id.trans at_.same
  more := at_.more.trans more
  ahead := by
    rw [List.drop_set_of_lt (Nat.lt_succ_self i)]
    exact at_.ahead
  behind := by
    rw [List.take_set_of_le le_rfl]
    exact at_.behind
  sound := at_.sound

/-- What was reported of the visit does not matter for where it is. -/
theorem AtActor.report (at_ : AtActor policy vector visits actors i v) (polls : List PollOutcome)
    (closed : Option Bool) :
    AtActor policy vector visits actors i ⟨v.cell, v.after, polls, closed⟩ :=
  { at_ with }

theorem keptBy_append (visits : List (Visit A)) (v : Visit A) :
    keptBy (visits ++ [v]) = keptBy visits ++ if v.Removes then [] else [v.after] := by
  by_cases removes : v.Removes <;> simp [keptBy, removes]

/-- A visit that keeps its actor is over; the index goes on. -/
theorem AtActor.keep (at_ : AtActor policy vector visits actors i v) (keeps : ¬ v.Removes)
    (batch : v.after.taken ≤ v.cell.taken + policy.batchDrain) :
    Swept policy vector (visits ++ [v]) actors (i + 1) where
  inside := (List.getElem?_eq_some_iff.1 at_.here).1
  ahead := by
    rw [List.map_append, List.append_assoc]
    exact at_.ahead
  behind := by
    obtain ⟨inside, here⟩ := List.getElem?_eq_some_iff.1 at_.here
    rw [List.take_succ_eq_append_getElem inside, here, keptBy_append, if_neg keeps]
    exact at_.behind.append_right _
  sound := List.forall_mem_append.2
    ⟨at_.sound, List.forall_mem_singleton.2 ⟨at_.same, at_.more, batch⟩⟩

theorem length_swapRemove {α : Type*} {l : List α} {i : Nat} (inside : i < l.length) :
    (swapRemove l i).length = l.length - 1 := by
  rw [(swapRemove_perm inside).length_eq, List.length_eraseIdx_of_lt inside]

/-- A visit that removes its actor is over; the last actor has moved to the index, which stays. -/
theorem AtActor.remove (at_ : AtActor policy vector visits actors i v) (removes : v.Removes)
    (batch : v.after.taken ≤ v.cell.taken + policy.batchDrain) :
    Swept policy vector (visits ++ [v]) (swapRemove actors i) i := by
  obtain ⟨inside, _⟩ := List.getElem?_eq_some_iff.1 at_.here
  refine ⟨?_, ?_, ?_, ?_⟩
  · rw [length_swapRemove inside]
    omega
  · rw [List.map_append, List.append_assoc]
    refine List.Perm.trans ?_ at_.ahead
    exact ((drop_swapRemove_perm inside).cons v.cell).append_left _
  · rw [take_swapRemove inside, keptBy_append, if_pos removes, List.append_nil]
    exact at_.behind
  · exact List.forall_mem_append.2
      ⟨at_.sound, List.forall_mem_singleton.2 ⟨at_.same, at_.more, batch⟩⟩

end Visits

/-! ### The invariant of the pass -/

/-- How many polls a visit may still make, the present one included. -/
def Site.left (policy : Policy) : Site → Nat
  | .first _ => policy.batchDrain
  | .batch _ left => left
  | .drain => 0

/-- A message that `poll_one` has taken and not yet reported. -/
def PollPc.pending : PollPc A M → Nat
  | .recv => 0
  | _ => 1

/-- A visit in the middle of a poll: every earlier poll has worked and took at most one message. -/
structure Polling (policy : Policy) (v : Visit A) (site : Site) (pc : PollPc A M) : Prop where
  budget : v.polls.length + site.left policy = policy.batchDrain
  more : 0 < site.left policy
  begun : (∃ i, site = .first i) ∨ v.polls ≠ []
  worked : ∀ outcome ∈ v.polls, outcome = .worked
  unasked : v.closed = none
  taken : v.after.taken ≤ v.cell.taken + v.polls.length + pc.pending

/-- What is known where the core stands. Nothing is claimed of a pass out of which a panic has unwound. -/
def Pc.StandsIn (policy : Policy) (vector : List (Cell A)) (p : Pass A M) : Pc A M → Prop
  | .visit i | .stop _ (.visit i) | .drop _ (.visit i) =>
      p.current = none ∧ Swept policy vector p.visits p.core.actors i
  | .poll site pc =>
      ∃ v, p.current = some v ∧ site ≠ .drain ∧
        AtActor policy vector p.visits p.core.actors site.index v ∧ Polling policy v site pc
  | .closedCheck i =>
      ∃ v, p.current = some v ∧ AtActor policy vector p.visits p.core.actors i v ∧
        v.polls = [.empty] ∧ v.closed = none ∧ v.after.taken ≤ v.cell.taken + policy.batchDrain
  | .detach i =>
      ∃ v, p.current = some v ∧ AtActor policy vector p.visits p.core.actors i v ∧
        .panicked ∈ v.polls ∧ v.after.taken ≤ v.cell.taken + policy.batchDrain
  | .control | .drain =>
      p.current = none ∧ ∃ i, Swept policy vector p.visits p.core.actors i ∧ ¬ i < p.core.actors.length
  | .unwound | .aborted => True
  | _ => False

/-- The invariant of the pass. -/
def PassInv (policy : Policy) (vector : List (Cell A)) (p : Pass A M) : Prop :=
  p.core.pc.StandsIn policy vector p

section Steps

variable {policy : Policy} {vector : List (Cell A)} {p : Pass A M} {t : Core A M}
  {input : Input A M} {v : Visit A} {i : Nat}

/-- What `poll_one` does to its cell, step by step. -/
theorem pollStep_goOn {cell cell' : Cell A} {pc pc' : PollPc A M} {events : List (Nat × Event A M)}
    (stepped : pollStep policy.overflowChecks cell pc input = some (.goOn cell' pc' events)) :
    cell'.id = cell.id ∧ cell.taken ≤ cell'.taken ∧
      cell'.taken + pc.pending ≤ cell.taken + pc'.pending := by
  cases pollMove_of_pollStep stepped with
  | takes => exact ⟨rfl, Nat.le_succ _, le_rfl⟩
  | decided =>
      refine ⟨rfl, le_rfl, Nat.add_le_add_left ?_ _⟩
      split <;> exact le_rfl
  | _ => exact ⟨rfl, le_rfl, by simp [PollPc.pending]⟩

theorem core_after : (p.after input t).core = t := by
  unfold Pass.after
  split
  · rfl
  · rfl
  · split <;> rfl

/-- The observer of a visit that goes on. -/
theorem after_current {j : Nat} (current : p.current = some v) (visiting : t.pc.visiting = some j) :
    p.after input t =
      { p with
        core := t
        current := some
          { v with
            after := (t.actors[j]?).getD v.after
            polls := v.polls ++ p.core.pc.reports input
            closed := v.closed.or (p.core.pc.verdict input) } } := by
  simp only [Pass.after, current, visiting]

/-- The observer of a visit that ends. -/
theorem after_closing (current : p.current = some v) (visiting : t.pc.visiting = none) :
    p.after input t =
      { core := t
        visits := p.visits ++
          [{ v with
              polls := v.polls ++ p.core.pc.reports input
              closed := v.closed.or (p.core.pc.verdict input) }]
        current := none } := by
  simp only [Pass.after, current, visiting]

/-- The observer between visits. -/
theorem after_between (current : p.current = none) (visiting : t.pc.visiting = none) :
    p.after input t = { p with core := t } := by
  simp only [Pass.after, current, visiting]

theorem after_opening {j : Nat} {cell : Cell A} (current : p.current = none)
    (visiting : t.pc.visiting = some j) (found : t.actors[j]? = some cell) :
    p.after input t = { p with core := t, current := some ⟨cell, cell, [], none⟩ } := by
  simp only [Pass.after, current, visiting, found, Option.map_some]

theorem visited_cases (s : Core A M) (i : Nat) :
    (s.visited i).actors = s.actors ∧
      (i < s.actors.length ∧ (s.visited i).pc = .poll (.first i) .recv ∨
        ¬ i < s.actors.length ∧ ((s.visited i).pc = .drain ∨ (s.visited i).pc = .control)) := by
  unfold Core.visited
  split
  · rename_i more
    exact ⟨rfl, .inl ⟨more, rfl⟩⟩
  · rename_i none_
    split
    · exact ⟨rfl, .inr ⟨none_, .inl rfl⟩⟩
    · exact ⟨rfl, .inr ⟨none_, .inr rfl⟩⟩

/-- Between visits, with the same actors or one of them removed. -/
theorem PassInv.between (current : p.current = none) (done : Swept policy vector p.visits t.actors i)
    (pc : t.pc = .visit i ∨ (∃ cell, t.pc = .stop cell (.visit i)) ∨ ∃ cell, t.pc = .drop cell (.visit i)) :
    PassInv policy vector (p.after input t) := by
  rcases pc with pc | ⟨cell, pc⟩ | ⟨cell, pc⟩
  · rw [PassInv, after_between current (by rw [pc]; rfl), pc]
    exact ⟨current, done⟩
  · rw [PassInv, after_between current (by rw [pc]; rfl), pc]
    exact ⟨current, done⟩
  · rw [PassInv, after_between current (by rw [pc]; rfl), pc]
    exact ⟨current, done⟩

/-- At the head of the loop. -/
theorem PassInv.visited (positive : 1 ≤ policy.batchDrain) (current : p.current = none)
    (done : Swept policy vector p.visits p.core.actors i) :
    PassInv policy vector (p.after input (p.core.visited i)) := by
  obtain ⟨same, ⟨more, pc⟩ | ⟨none_, pc⟩⟩ := visited_cases p.core i
  · have found : (p.core.visited i).actors[i]? = some p.core.actors[i] := by
      rw [same, List.getElem?_eq_getElem more]
    rw [PassInv, after_opening current (by rw [pc]; rfl) found, pc]
    rw [← same] at done
    refine ⟨_, rfl, by simp, done.visit found, Nat.zero_add _, positive, .inl ⟨i, rfl⟩, ?_, rfl, le_rfl⟩
    intro outcome member
    cases member
  · rw [← same] at done none_
    rcases pc with pc | pc
    · rw [PassInv, after_between current (by rw [pc]; rfl), pc]
      exact ⟨current, i, done, none_⟩
    · rw [PassInv, after_between current (by rw [pc]; rfl), pc]
      exact ⟨current, i, done, none_⟩

/-- A visit is over and the actor stays. -/
theorem PassInv.keeps (current : p.current = some v)
    (at_ : AtActor policy vector p.visits p.core.actors i v)
    (batch : v.after.taken ≤ v.cell.taken + policy.batchDrain)
    (keeps : ¬ Visit.Removes
      { v with
        polls := v.polls ++ p.core.pc.reports input
        closed := v.closed.or (p.core.pc.verdict input) })
    (pc : t.pc = .visit (i + 1)) (actors : t.actors = p.core.actors) :
    PassInv policy vector (p.after input t) := by
  rw [PassInv, after_closing current (by rw [pc]; rfl), pc]
  refine ⟨rfl, ?_⟩
  rw [actors]
  exact (at_.report _ _).keep keeps batch

/-- A visit is over and the actor goes. -/
theorem PassInv.removes (current : p.current = some v)
    (at_ : AtActor policy vector p.visits p.core.actors i v)
    (batch : v.after.taken ≤ v.cell.taken + policy.batchDrain)
    (removes : Visit.Removes
      { v with
        polls := v.polls ++ p.core.pc.reports input
        closed := v.closed.or (p.core.pc.verdict input) })
    (pc : t.pc = .visit i ∨ ∃ cell, t.pc = .stop cell (.visit i))
    (actors : t.actors = swapRemove p.core.actors i) :
    PassInv policy vector (p.after input t) := by
  have done := (at_.report _ _).remove removes batch
  rw [← actors] at done
  rcases pc with pc | ⟨cell, pc⟩
  · rw [PassInv, after_closing current (by rw [pc]; rfl), pc]
    exact ⟨rfl, done⟩
  · rw [PassInv, after_closing current (by rw [pc]; rfl), pc]
    exact ⟨rfl, done⟩

/-- Out of a pass a panic has unwound. -/
theorem PassInv.dead (pc : t.pc = .unwound ∨ t.pc = .aborted) :
    PassInv policy vector (p.after input t) := by
  rw [PassInv, core_after]
  rcases pc with pc | pc
  · rw [pc]
    trivial
  · rw [pc]
    trivial

/-- A poll goes on. -/
theorem PassInv.polls {site : Site} {pc pc' : PollPc A M} {cell cell' : Cell A}
    {events : List (Nat × Event A M)} (current : p.current = some v) (inside : site ≠ .drain)
    (at_ : AtActor policy vector p.visits p.core.actors site.index v)
    (polling : Polling policy v site pc) (found : p.core.actors[site.index]? = some cell)
    (stepped : pollStep policy.overflowChecks cell pc input = some (.goOn cell' pc' events))
    (here : p.core.pc = .poll site pc) (unreported : p.core.pc.reports input = [])
    (pc_ : t.pc = .poll site pc') (actors : t.actors = p.core.actors.set site.index cell') :
    PassInv policy vector (p.after input t) := by
  obtain ⟨id, more, pending⟩ := pollStep_goOn stepped
  have same : cell = v.after := Option.some.inj (found.symm.trans at_.here)
  subst same
  have visiting : t.pc.visiting = some site.index := by
    rw [pc_]
    cases site with
    | first | batch => rfl
    | drain => exact absurd rfl inside
  have stored : t.actors[site.index]? = some cell' := by
    rw [actors]
    exact List.getElem?_set_self (List.getElem?_eq_some_iff.1 found).1
  have quiet : p.core.pc.verdict input = none := by
    rw [here]
    rfl
  rw [PassInv, after_current current visiting, pc_, unreported, quiet, stored]
  refine ⟨_, rfl, inside, ?_, ?_⟩
  · rw [actors]
    exact at_.update id more _ _
  · obtain ⟨budget, left, begun, worked, unasked, taken⟩ := polling
    refine ⟨?_, left, ?_, ?_, ?_, ?_⟩
    · rw [List.append_nil]
      exact budget
    · rw [List.append_nil]
      exact begun
    · rw [List.append_nil]
      exact worked
    · rw [unasked]
      rfl
    · simp only [List.append_nil, Option.getD_some]
      omega

/-- Where a poll that has worked leads. -/
theorem polled_worked (s : Core A M) (cell : Cell A) {site : Site} (inside : site ≠ .drain) :
    s.polled policy cell site .worked =
      { s with pc := Core.batchNext site.index (site.left policy - 1) } := by
  cases site with
  | first | batch => rfl
  | drain => exact absurd rfl inside

theorem polled_panicked (s : Core A M) (cell : Cell A) {site : Site} (inside : site ≠ .drain) :
    s.polled policy cell site .panicked = { s with pc := .detach site.index } := by
  cases site with
  | first | batch => rfl
  | drain => exact absurd rfl inside

/-- A poll has reported that it worked. -/
theorem PassInv.worked {site : Site} (current : p.current = some v)
    (at_ : AtActor policy vector p.visits p.core.actors site.index v)
    (polling : Polling policy v site (.returned .worked : PollPc A M))
    (reported : p.core.pc.reports input = [.worked]) (unasked : p.core.pc.verdict input = none)
    (pc : t.pc = Core.batchNext site.index (site.left policy - 1)) (actors : t.actors = p.core.actors) :
    PassInv policy vector (p.after input t) := by
  obtain ⟨budget, more, begun, worked, fresh, taken⟩ := polling
  simp only [PollPc.pending] at taken
  have allWorked : ∀ outcome ∈ v.polls ++ [PollOutcome.worked], outcome = .worked := by
    exact List.forall_mem_append.2 ⟨worked, List.forall_mem_singleton.2 rfl⟩
  unfold Core.batchNext at pc
  split at pc
  · refine .keeps current at_ (by omega) ?_ pc actors
    rw [reported]
    rintro (panicked | ⟨first, _⟩)
    · cases allWorked _ panicked
    · cases allWorked _ (List.mem_of_mem_head? first)
  · have visiting : t.pc.visiting = some site.index := by
      rw [pc]
      rfl
    have found : t.actors[site.index]? = some v.after := by
      rw [actors]
      exact at_.here
    rw [PassInv, after_current current visiting, pc, reported, unasked, fresh, found]
    refine ⟨_, rfl, fun never => by (cases never), ?_, ?_⟩
    · rw [actors]
      exact at_.report _ _
    · refine ⟨?_, ?_, .inr (List.append_ne_nil_of_right_ne_nil _ (List.cons_ne_nil _ _)), allWorked,
        rfl, ?_⟩
      · change (v.polls ++ [PollOutcome.worked]).length + (site.left policy - 1) = policy.batchDrain
        rw [List.length_append, List.length_singleton]
        omega
      · change 0 < site.left policy - 1
        omega
      · simp only [List.length_append, List.length_singleton, PollPc.pending, Option.getD_some]
        omega

/-- A poll has reported a panic. -/
theorem PassInv.panicked {site : Site} (current : p.current = some v)
    (at_ : AtActor policy vector p.visits p.core.actors site.index v)
    (polling : Polling policy v site (.returned .panicked : PollPc A M))
    (reported : p.core.pc.reports input = [.panicked]) (pc : t.pc = .detach site.index)
    (actors : t.actors = p.core.actors) : PassInv policy vector (p.after input t) := by
  obtain ⟨budget, more, _, _, _, taken⟩ := polling
  simp only [PollPc.pending] at taken
  have visiting : t.pc.visiting = some site.index := by
    rw [pc]
    rfl
  have found : t.actors[site.index]? = some v.after := by
    rw [actors]
    exact at_.here
  rw [PassInv, after_current current visiting, pc, reported, found]
  refine ⟨_, rfl, ?_, List.mem_append_right _ (List.mem_singleton_self _), ?_⟩
  · rw [actors]
    exact at_.report _ _
  · simp only [Option.getD_some]
    omega

/-- A poll has found nothing. -/
theorem PassInv.empty {site : Site} (current : p.current = some v) (inside : site ≠ .drain)
    (at_ : AtActor policy vector p.visits p.core.actors site.index v)
    (polling : Polling policy v site (.returned .empty : PollPc A M))
    (here : p.core.pc = .poll site (.returned .empty)) (input_ : input = .internal) {cell : Cell A} :
    PassInv policy vector (p.after input (p.core.polled policy cell site .empty)) := by
  obtain ⟨budget, more, begun, worked, fresh, taken⟩ := polling
  simp only [PollPc.pending] at taken
  have reported : p.core.pc.reports input = [.empty] := by
    rw [here, input_]
    rfl
  cases site with
  | drain => exact absurd rfl inside
  | first i =>
      have none_ : v.polls = [] := by
        simp only [Site.left] at budget
        exact List.length_eq_zero_iff.1 (by omega)
      have found : (p.core.polled policy cell (.first i) .empty).actors[i]? = some v.after := at_.here
      rw [PassInv, after_current (j := i) current rfl, reported, none_, found]
      exact ⟨_, rfl, at_.report _ _, rfl, by rw [fresh, here]; rfl, by simp only [Option.getD_some]; omega⟩
  | batch i left =>
      obtain ⟨first, rest, polls⟩ :=
        List.exists_cons_of_ne_nil (begun.resolve_left fun ⟨_, never⟩ => by cases never)
      refine .keeps current at_ (by omega) ?_ rfl rfl
      rw [reported]
      rintro (panicked | ⟨head, _⟩)
      · rcases List.mem_append.1 panicked with earlier | last
        · cases worked _ earlier
        · cases List.mem_singleton.1 last
      · rw [polls] at head worked
        cases head
        cases worked _ List.mem_cons_self

/-- A step that nobody in the pass sees. -/
theorem after_unseen (current : p.current = some v) (visiting : t.pc.visiting = some i)
    (found : t.actors[i]? = some v.after) (unreported : p.core.pc.reports input = [])
    (unasked : p.core.pc.verdict input = none) : p.after input t = { p with core := t } := by
  rw [after_current current visiting, found, unreported, unasked, List.append_nil, Option.or_none,
    Option.getD_some, ← current]

/-- The invariant only looks at the actors and at what has been seen. -/
theorem PassInv.unseen (inv : PassInv policy vector p) (pc : t.pc = p.core.pc)
    (actors : t.actors = p.core.actors) : PassInv policy vector { p with core := t } := by
  unfold PassInv at inv ⊢
  simp only [pc]
  cases here : p.core.pc with
  | poll | closedCheck | detach | visit | control | drain =>
      rw [here] at inv
      simpa only [Pc.StandsIn, actors] using inv
  | stop cell resume | drop cell resume =>
      rw [here] at inv
      cases resume with
      | visit => simpa only [Pc.StandsIn, actors] using inv
      | control | drain => exact inv
  | unwound | aborted => trivial
  | start | exited =>
      rw [here] at inv
      exact inv

/-- A message of another thread changes nothing of the pass. -/
theorem PassInv.environment (inv : PassInv policy vector p) (within : p.core.pc.inPass = true)
    (moved : p.core.environment input = some t) : PassInv policy vector (p.after input t) := by
  obtain ⟨samePc, -, sameActors, -⟩ := environment_frame moved
  have foreign : input.foreign = true := by
    cases input with
    | sendAdd | sendShutdown | disconnect => rfl
    | _ => cases moved
  have unreported : p.core.pc.reports input = [] := by
    unfold Pc.reports
    split
    · cases foreign
    · rfl
  have unasked : p.core.pc.verdict input = none := by
    unfold Pc.verdict
    split
    · cases foreign
    · rfl
  have same : p.after input t = { p with core := t } := by
    have standing := inv
    unfold PassInv at standing
    cases here : p.core.pc with
    | poll site pc =>
        rw [here] at standing samePc
        obtain ⟨v, current, inside, at_, -⟩ := standing
        refine after_unseen (i := site.index) current ?_ (sameActors ▸ at_.here) unreported unasked
        rw [samePc]
        cases site with
        | first | batch => rfl
        | drain => exact absurd rfl inside
    | closedCheck i | detach i =>
        rw [here] at standing samePc
        obtain ⟨v, current, at_, -⟩ := standing
        exact after_unseen (i := i) current (samePc ▸ rfl) (sameActors ▸ at_.here) unreported unasked
    | visit i =>
        rw [here] at standing samePc
        exact after_between standing.1 (samePc ▸ rfl)
    | stop cell resume | drop cell resume =>
        rw [here] at standing samePc within
        cases resume with
        | visit i => exact after_between standing.1 (samePc ▸ rfl)
        | control | drain => cases within
    | _ =>
        rw [here] at within
        cases within
  rw [same]
  exact inv.unseen samePc sameActors

/-- A step of the loop inside the pass. -/
theorem PassInv.loopStep (positive : 1 ≤ policy.batchDrain) (inv : PassInv policy vector p)
    (within : p.core.pc.inPass = true) (moved : p.core.loopStep policy input = some t) :
    PassInv policy vector (p.after input t) := by
  have standing := inv
  unfold PassInv at standing
  unfold Core.loopStep at moved
  split at moved
  · rename_i here
    rw [here] at within
    cases within
  · rename_i here
    rw [here] at within
    cases within
  · rename_i i here
    cases moved
    rw [here] at standing
    exact .visited positive standing.1 standing.2
  · rename_i site outcome here
    obtain ⟨cell, found, rfl⟩ := Option.map_eq_some_iff.1 moved
    rw [here] at standing
    obtain ⟨v, current, inside, at_, polling⟩ := standing
    cases outcome with
    | worked =>
        rw [polled_worked _ _ inside]
        exact .worked current at_ polling (here ▸ rfl) (here ▸ rfl) rfl rfl
    | panicked =>
        rw [polled_panicked _ _ inside]
        exact .panicked current at_ polling (here ▸ rfl) rfl rfl
    | empty => exact .empty current inside at_ polling here rfl
  · rename_i site pc here fresh
    obtain ⟨cell, found, rest⟩ := Option.bind_eq_some_iff.1 moved
    obtain ⟨next, stepped, rfl⟩ := Option.map_eq_some_iff.1 rest
    rw [here] at standing
    obtain ⟨v, current, inside, at_, polling⟩ := standing
    cases next with
    | goOn cell' pc' events =>
        refine .polls current inside at_ polling found stepped here ?_ rfl rfl
        cases pc with
        | returned => cases stepped
        | _ => rw [here]; rfl
    | unwound => exact .dead (.inl rfl)
    | aborted => exact .dead (.inr rfl)
  · rename_i i verdict here
    obtain ⟨cell, found, rfl⟩ := Option.map_eq_some_iff.1 moved
    rw [here] at standing
    obtain ⟨v, current, at_, polls, unasked, batch⟩ := standing
    have reported : p.core.pc.reports (.closedAndEmpty verdict) = [] := here ▸ rfl
    have asked : v.closed.or (p.core.pc.verdict (.closedAndEmpty verdict)) = some verdict := by
      rw [unasked, here]
      rfl
    cases verdict with
    | true =>
        refine .removes current at_ batch (.inr ⟨?_, asked⟩) (.inr ⟨cell, rfl⟩) rfl
        simp only [polls, reported, List.append_nil, List.head?_cons]
    | false =>
        refine .keeps current at_ batch ?_ rfl rfl
        rintro (panicked | ⟨-, closed⟩)
        · rw [polls, reported] at panicked
          cases List.mem_singleton.1 panicked
        · rw [asked] at closed
          cases closed
  · rename_i i outcome here
    obtain ⟨cell, found, rfl⟩ := Option.map_eq_some_iff.1 moved
    rw [here] at standing
    obtain ⟨v, current, at_, panicked, batch⟩ := standing
    cases outcome with
    | returned =>
        exact .removes current at_ batch (.inl (List.mem_append_left _ panicked)) (.inl rfl) rfl
    | panicked => exact .dead (.inl rfl)
    | aborted => exact .dead (.inr rfl)
  · rename_i cell resume after outcome here
    cases moved
    rw [here] at standing within
    cases resume with
    | visit i =>
        by_cases aborted : outcome = .aborted
        · exact .dead (.inr (by simp [Core.stopped, aborted]))
        · rw [Core.stopped, if_neg aborted]
          exact .between standing.1 standing.2 (.inr (.inr ⟨_, rfl⟩))
    | control | drain => cases within
  · rename_i cell resume outcome here
    cases moved
    rw [here] at standing within
    cases resume with
    | visit i =>
        cases outcome with
        | returned => exact .between standing.1 standing.2 (.inl rfl)
        | panicked => exact .dead (.inl rfl)
        | aborted => exact .dead (.inr rfl)
    | control | drain => cases within
  · rename_i here
    rw [here] at within
    cases within
  · cases moved

/-- A step of the pass keeps its invariant. -/
theorem PassInv.step (positive : 1 ≤ policy.batchDrain) (inv : PassInv policy vector p)
    (within : p.core.pc.inPass = true) (moved : p.core.step policy input = some t) :
    PassInv policy vector (p.after input t) := by
  rcases step_cases moved with environment | loop
  · exact inv.environment within environment
  · exact inv.loopStep positive within loop

end Steps

/-! ### The pass comes to its end -/

/-- A bound for the steps of one visit. -/
def Policy.visitSteps (policy : Policy) : Nat := 7 * policy.batchDrain + 4

/-- A bound for the steps the loop has yet to take in the pass, over `n` actors. -/
def Pc.togo (policy : Policy) (n : Nat) : Pc A M → Nat
  | .visit i => (n - i) * policy.visitSteps + 1
  | .poll site pc =>
      (n - (site.index + 1)) * policy.visitSteps + 7 * (site.left policy - 1) + pc.rank + 5
  | .closedCheck i => (n - (i + 1)) * policy.visitSteps + 4
  | .detach i => (n - (i + 1)) * policy.visitSteps + 2
  | .stop _ (.visit i) => (n - i) * policy.visitSteps + 3
  | .drop _ (.visit i) => (n - i) * policy.visitSteps + 2
  | _ => 0

def Pass.rank (policy : Policy) (p : Pass A M) : Nat := p.core.pc.togo policy p.core.actors.length

section Termination

variable {policy : Policy} {vector : List (Cell A)} {p : Pass A M} {t : Core A M}
  {input : Input A M}

/-- The visits to come, with the present one taken out. -/
theorem visitSteps_here (policy : Policy) {i n : Nat} (inside : i < n) :
    (n - i) * policy.visitSteps = (n - (i + 1)) * policy.visitSteps + policy.visitSteps := by
  rw [← Nat.succ_mul]
  congr 1
  omega

/-- A step of the loop inside the pass takes its rank down. -/
theorem PassInv.rank_lt (positive : 1 ≤ policy.batchDrain) (inv : PassInv policy vector p)
    (within : p.core.pc.inPass = true) (moved : p.core.loopStep policy input = some t) :
    t.pc.togo policy t.actors.length < p.rank policy := by
  have standing := inv
  unfold PassInv at standing
  unfold Core.loopStep at moved
  unfold Pass.rank
  split at moved
  · rename_i here
    rw [here] at within
    cases within
  · rename_i here
    rw [here] at within
    cases within
  · rename_i i here
    cases moved
    obtain ⟨same, ⟨more, pc⟩ | ⟨-, pc⟩⟩ := visited_cases p.core i
    · rw [here, pc, same]
      have split := visitSteps_here policy more
      simp only [Pc.togo, Site.index, Site.left, PollPc.rank]
      rw [split, Policy.visitSteps]
      omega
    · rcases pc with pc | pc
      · rw [here, pc]
        exact Nat.succ_pos _
      · rw [here, pc]
        exact Nat.succ_pos _
  · rename_i site outcome here
    obtain ⟨cell, found, rfl⟩ := Option.map_eq_some_iff.1 moved
    rw [here] at standing ⊢
    obtain ⟨v, current, inside, at_, polling⟩ := standing
    have left := polling.more
    cases outcome with
    | worked =>
        rw [polled_worked _ _ inside]
        simp only [Core.batchNext]
        split
        · simp only [Pc.togo, PollPc.rank]
          omega
        · change (p.core.actors.length - (site.index + 1)) * policy.visitSteps +
              7 * (site.left policy - 1 - 1) + 6 + 5 <
            (p.core.actors.length - (site.index + 1)) * policy.visitSteps +
              7 * (site.left policy - 1) + 0 + 5
          omega
    | panicked =>
        rw [polled_panicked _ _ inside]
        simp only [Pc.togo, PollPc.rank]
        omega
    | empty =>
        cases site with
        | first i | batch i left =>
            simp only [Core.polled, Pc.togo, PollPc.rank, Site.index]
            omega
        | drain => exact absurd rfl inside
  · rename_i site pc here fresh
    obtain ⟨cell, found, rest⟩ := Option.bind_eq_some_iff.1 moved
    obtain ⟨next, stepped, rfl⟩ := Option.map_eq_some_iff.1 rest
    rw [here]
    cases next with
    | goOn cell' pc' events =>
        have lower := rank_lt_of_pollMove (pollMove_of_pollStep stepped)
        simp only [Core.pollNext, Pc.togo, List.length_set]
        omega
    | unwound | aborted => exact Nat.succ_pos _
  · rename_i i verdict here
    obtain ⟨cell, found, rfl⟩ := Option.map_eq_some_iff.1 moved
    have inside := (List.getElem?_eq_some_iff.1 found).1
    rw [here]
    cases verdict with
    | true =>
        change ((swapRemove p.core.actors i).length - i) * policy.visitSteps + 3 <
          (p.core.actors.length - (i + 1)) * policy.visitSteps + 4
        rw [length_swapRemove inside, Nat.sub_sub, Nat.add_comm 1 i]
        exact Nat.lt_succ_self _
    | false =>
        change (p.core.actors.length - (i + 1)) * policy.visitSteps + 1 <
          (p.core.actors.length - (i + 1)) * policy.visitSteps + 4
        omega
  · rename_i i outcome here
    obtain ⟨cell, found, rfl⟩ := Option.map_eq_some_iff.1 moved
    have inside := (List.getElem?_eq_some_iff.1 found).1
    rw [here]
    cases outcome with
    | returned =>
        change ((swapRemove p.core.actors i).length - i) * policy.visitSteps + 1 <
          (p.core.actors.length - (i + 1)) * policy.visitSteps + 2
        rw [length_swapRemove inside, Nat.sub_sub, Nat.add_comm 1 i]
        exact Nat.lt_succ_self _
    | panicked | aborted => exact Nat.succ_pos _
  · rename_i cell resume after outcome here
    cases moved
    rw [here] at within ⊢
    cases resume with
    | visit i =>
        by_cases aborted : outcome = .aborted
        · rw [Core.stopped, if_pos aborted]
          exact Nat.succ_pos _
        · rw [Core.stopped, if_neg aborted]
          exact Nat.lt_succ_self _
    | control | drain => cases within
  · rename_i cell resume outcome here
    cases moved
    rw [here] at within ⊢
    cases resume with
    | visit i =>
        cases outcome with
        | returned => exact Nat.lt_succ_self _
        | panicked | aborted => exact Nat.succ_pos _
    | control | drain => cases within
  · rename_i here
    rw [here] at within
    cases within
  · cases moved

/-- A poll in the middle of its work can always go on. -/
theorem pollStep_enabled (overflowChecks : Bool) (cell : Cell A) {pc : PollPc A M}
    (unreturned : ∀ outcome, pc ≠ .returned outcome) :
    ∃ input : Input A M, input.foreign = false ∧ (pollStep overflowChecks cell pc input).isSome := by
  cases pc with
  | recv => exact ⟨.received none, rfl, rfl⟩
  | handle msg => exact ⟨.ran cell.actor .returned, rfl, rfl⟩
  | broken =>
      cases supervised : cell.factory with
      | true =>
          refine ⟨.now 0, rfl, ?_⟩
          simp only [pollStep, supervised, if_true]
          split <;> rfl
      | false => exact ⟨.internal, rfl, by simp [pollStep, supervised]⟩
  | make => exact ⟨.ran cell.actor .returned, rfl, rfl⟩
  | onRestart fresh => exact ⟨.ran fresh .returned, rfl, rfl⟩
  | replace fresh => exact ⟨.dropped .returned, rfl, rfl⟩
  | returned outcome => exact absurd rfl (unreturned outcome)

/-- Inside the pass the loop can always go on. -/
theorem PassInv.enabled (inv : PassInv policy vector p) (within : p.core.pc.inPass = true) :
    ∃ input q, input.foreign = false ∧ Pass.step policy p input = some q := by
  have goesOn : ∃ input : Input A M, input.foreign = false ∧ (p.core.loopStep policy input).isSome := by
    have standing := inv
    unfold PassInv at standing
    cases here : p.core.pc with
    | visit i => exact ⟨.internal, rfl, by simp [Core.loopStep, here]⟩
    | poll site pc =>
        rw [here] at standing
        obtain ⟨v, -, -, at_, -⟩ := standing
        by_cases returned : ∃ outcome, pc = .returned outcome
        · obtain ⟨outcome, rfl⟩ := returned
          exact ⟨.internal, rfl, by simp [Core.loopStep, here, at_.here]⟩
        · obtain ⟨input, own, stepped⟩ := pollStep_enabled policy.overflowChecks v.after
            (fun outcome same => returned ⟨outcome, same⟩)
          refine ⟨input, own, ?_⟩
          cases pc with
          | returned outcome => exact absurd ⟨outcome, rfl⟩ returned
          | _ => simp [Core.loopStep, here, at_.here, stepped]
    | closedCheck i =>
        rw [here] at standing
        obtain ⟨v, -, at_, -⟩ := standing
        exact ⟨.closedAndEmpty false, rfl, by simp [Core.loopStep, here, at_.here]⟩
    | detach i =>
        rw [here] at standing
        obtain ⟨v, -, at_, -⟩ := standing
        exact ⟨.dropped .returned, rfl, by simp [Core.loopStep, here, at_.here]⟩
    | stop cell resume => exact ⟨.ran cell.actor .returned, rfl, by simp [Core.loopStep, here]⟩
    | drop cell resume => exact ⟨.dropped .returned, rfl, by simp [Core.loopStep, here]⟩
    | _ =>
        rw [here] at within
        cases within
  obtain ⟨input, own, stepped⟩ := goesOn
  obtain ⟨t, moved⟩ := Option.isSome_iff_exists.1 stepped
  have alone : p.core.environment input = none := by
    cases input with
    | sendAdd | sendShutdown | disconnect => cases own
    | _ => rfl
  refine ⟨input, p.after input t, own, ?_⟩
  have step : p.core.step policy input = some t := by
    rw [Core.step, alone]
    exact moved
  rw [Pass.step, if_pos within, step, Option.map_some]

/-- Who makes a step of the pass, and what it does to the rank. -/
theorem PassInv.descends (positive : 1 ≤ policy.batchDrain) (inv : PassInv policy vector p) {q : Pass A M}
    (stepped : Pass.step policy p input = some q) :
    PassInv policy vector q ∧ q.rank policy ≤ p.rank policy ∧
      (input.foreign = false → q.rank policy < p.rank policy) := by
  unfold Pass.step at stepped
  split at stepped
  · rename_i within
    obtain ⟨t, moved, rfl⟩ := Option.map_eq_some_iff.1 stepped
    refine ⟨inv.step positive within moved, ?_⟩
    rw [Pass.rank, core_after]
    rcases step_cases moved with environment | loop
    · obtain ⟨samePc, -, sameActors, -⟩ := environment_frame environment
      rw [samePc, sameActors]
      refine ⟨le_rfl, fun own => ?_⟩
      cases input with
      | sendAdd | sendShutdown | disconnect => cases own
      | _ => cases environment
    · have lower := inv.rank_lt positive within loop
      exact ⟨lower.le, fun _ => lower⟩
  · cases stepped

end Termination

/-! ### The law of the pass -/

/-- What a pass has done to the vector when it is over. -/
structure PassLaw (policy : Policy) (vector : List (Cell A)) (p : Pass A M) : Prop where
  /-- Every actor of the vector was visited once, and no other. -/
  once : (p.visits.map Visit.cell).Perm vector
  /-- A visit takes between none and `batch_drain` messages of its actor. -/
  amount : ∀ v ∈ p.visits, v.Sound policy
  /-- The actors that are left are those of the visits that remove none, each once. -/
  kept : p.core.actors.Perm (keptBy p.visits)

/-- The steps that no panic outside every boundary and no abort makes. -/
def Pass.Harmless (policy : Policy) (p : Pass A M) (input : Input A M) : Prop :=
  System.Harmless policy p.core input

/-- A scheduling pass from `s`, at any moment of it. -/
structure FairPass (policy : Policy) (s : Core A M) (labels : List (Input A M)) (p : Pass A M) :
    Prop where
  /-- The loop's own steps are bounded, whatever the others send. -/
  terminates : labels.countP (fun input => !input.foreign) ≤ s.actors.length * policy.visitSteps + 1
  /-- It is never stuck. -/
  goesOn : p.core.pc.inPass = true →
    ∃ input q, input.foreign = false ∧ Pass.step policy p input = some q
  /-- It ends behind the loop, with the law met. -/
  ends : p.core.pc.inPass = false → p.core.pc.dead = false →
    (p.core.pc = .control ∨ p.core.pc = .drain) ∧ PassLaw policy s.actors p
  /-- Polls that report an outcome, and destructors that return, do not take the core down. -/
  lives : Throughout (Pass.step policy) (Pass.Harmless policy) (.start s) labels →
    p.core.pc.dead = false

section Law

variable {policy : Policy} {vector : List (Cell A)} {s : Core A M} {labels : List (Input A M)}
  {p : Pass A M}

theorem PassInv.ends (inv : PassInv policy vector p) (outside : p.core.pc.inPass = false)
    (alive : p.core.pc.dead = false) :
    (p.core.pc = .control ∨ p.core.pc = .drain) ∧ PassLaw policy vector p := by
  unfold PassInv at inv
  cases here : p.core.pc with
  | control =>
      rw [here] at inv
      obtain ⟨-, i, swept, none_⟩ := inv
      exact ⟨.inl rfl, (swept.all none_).1, swept.sound, (swept.all none_).2⟩
  | drain =>
      rw [here] at inv
      obtain ⟨-, i, swept, none_⟩ := inv
      exact ⟨.inr rfl, (swept.all none_).1, swept.sound, (swept.all none_).2⟩
  | unwound | aborted =>
      rw [here] at alive
      cases alive
  | start | exited =>
      rw [here] at inv
      exact inv.elim
  | stop cell resume | drop cell resume =>
      rw [here] at inv outside
      cases resume with
      | visit => cases outside
      | control | drain => exact inv.elim
  | poll site pc =>
      rw [here] at inv outside
      obtain ⟨v, -, inside, -⟩ := inv
      cases site with
      | first | batch => cases outside
      | drain => exact absurd rfl inside
  | visit | closedCheck | detach =>
      rw [here] at outside
      cases outside

theorem alive_of_throughout (starts : s.pc = .visit 0)
    (executed : exec (Pass.step policy) (.start s) labels = some p)
    (harmless : Throughout (Pass.step policy) (Pass.Harmless policy) (.start s) labels) :
    p.core.pc.dead = false := by
  refine (reach_of_throughout executed harmless).invariant (P := fun p => p.core.pc.dead = false) ?_ ?_
  · rw [Pass.start, starts]
    rfl
  · intro u input v alive harmless stepped
    unfold Pass.step at stepped
    split at stepped
    · obtain ⟨t, moved, rfl⟩ := Option.map_eq_some_iff.1 stepped
      rw [core_after]
      exact step_lives harmless alive moved
    · cases stepped

/-- Every scheduling pass is fair. -/
theorem fairPass_of_exec (positive : 1 ≤ policy.batchDrain) (starts : s.pc = .visit 0)
    (executed : exec (Pass.step policy) (.start s) labels = some p) : FairPass policy s labels p := by
  have initially : PassInv policy s.actors (Pass.start s) := by
    unfold PassInv Pass.start
    rw [starts]
    exact ⟨rfl, .start policy s.actors⟩
  have atFirst : (Pass.start s).rank policy = s.actors.length * policy.visitSteps + 1 := by
    rw [Pass.rank, Pass.start, starts]
    rfl
  have descends : ∀ (input : Input A M) (u v : Pass A M), PassInv policy s.actors u →
      Pass.step policy u input = some v →
      PassInv policy s.actors v ∧ v.rank policy ≤ u.rank policy ∧
        ((!input.foreign) = true → v.rank policy < u.rank policy) := by
    intro input u v inv stepped
    rw [Bool.not_eq_true']
    exact inv.descends positive stepped
  obtain ⟨inv, bound⟩ := countP_le_of_exec (Pass.rank policy) (fun input => !input.foreign) initially
    descends executed
  rw [atFirst] at bound
  exact
    { terminates := (Nat.le_add_right _ _).trans bound
      goesOn := inv.enabled
      ends := inv.ends
      lives := alive_of_throughout starts executed }

end Law

def pairPolicy : Policy := { batchDrain := 2, overflowChecks := true }

/-- Three actors at the head of the loop. -/
def threeActors : Core Nat Nat where
  controls := []
  connected := true
  actors := [0, 1, 2].map fun id => { id, actor := 10 * id, factory := false, restartPolicy := .never }
  shuttingDown := false
  pc := .visit 0
  log := []
  sent := 3
  sentBefore := none

/-- The first actor panics in its batch, the last one is closed and takes its place, the other one works. -/
def threeVisits : List (Input Nat Nat) :=
  [.internal, .received (some 7), .ran 1 .returned, .internal,
    .received (some 8), .ran 1 .panicked, .internal, .internal, .dropped .returned,
    .sendShutdown, .internal, .received none, .internal, .closedAndEmpty true, .ran 20 .returned,
    .dropped .returned,
    .internal, .received (some 9), .ran 11 .returned, .internal, .received none, .internal, .internal]

/-- `fairPass_of_exec` on a pass in which two of three actors leave. -/
theorem fairPass_of_three_visits :
    ∃ p, exec (Pass.step pairPolicy) (.start threeActors) threeVisits = some p ∧
      p.visits.map (·.cell.id) = [0, 2, 1] ∧ p.core.actors.map (·.id) = [1] ∧
      FairPass pairPolicy threeActors threeVisits p :=
  have executed : (exec (Pass.step pairPolicy) (.start threeActors) threeVisits).isSome = true := rfl
  ⟨_, (Option.some_get executed).symm, rfl, rfl,
    fairPass_of_exec (by decide) rfl (Option.some_get executed).symm⟩

end AetherFlow.System
