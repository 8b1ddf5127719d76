/-
Module: AetherFlow.Lib.Transition
Purpose: Partial labelled transition functions and the states they reach. A step may carry a side
  condition on the state before it and on its label, so that "every run whose steps all meet the
  condition" is one relation. The module gives the invariant rule, the projection of a composed
  system onto a component, a ranking rule for what must happen, and executors that turn a list of
  labels into a reachability fact.
Trusted boundary: none
Main exports: StepOf, Reach, guarded, Free, Reach.invariant, Reach.project, Reach.weaken,
  Inevitable, Inevitable.of_rank, exec, exec_append, reach_of_exec_ok, reach_of_exec, length_le_of_exec,
  countP_le_of_exec, passes, goal_of_alone, execChecked, reach_of_execChecked, execChecked_or,
  good_iff_execChecked, Throughout, Sometime, reach_of_throughout, exists_throughout, Throughout.or_sometime
-/
import Mathlib.Algebra.Order.Ring.Nat
import Mathlib.Logic.Relation

namespace Transition

variable {σ α τ β : Type*}

/-- One step of `step` whose source state and label meet the side condition `ok`. -/
def StepOf (step : σ → α → Option σ) (ok : σ → α → Prop) (s t : σ) : Prop :=
  ∃ a, ok s a ∧ step s a = some t

/-- `t` is reached from `s` by finitely many steps that all meet `ok`. -/
def Reach (step : σ → α → Option σ) (ok : σ → α → Prop) : σ → σ → Prop :=
  Relation.ReflTransGen (StepOf step ok)

/-- A guarded step was enabled, and says where it led. -/
theorem guarded {enabled : Prop} [Decidable enabled] {next t : σ}
    (moved : (if enabled then some next else none) = some t) : enabled ∧ t = next := by
  obtain ⟨met, same⟩ := Option.ite_none_right_eq_some.1 moved
  exact ⟨met, (Option.some.inj same).symm⟩

/-- The side condition that admits every step. -/
def Free (_ : σ) (_ : α) : Prop := True

instance (s : σ) (a : α) : Decidable (Free s a) := isTrue trivial

namespace Reach

variable {step : σ → α → Option σ} {ok ok' : σ → α → Prop} {r s t : σ}

theorem refl (s : σ) : Reach step ok s s := Relation.ReflTransGen.refl

theorem trans (one : Reach step ok r s) (two : Reach step ok s t) : Reach step ok r t :=
  Relation.ReflTransGen.trans one two

theorem tail {a : α} (run : Reach step ok r s) (met : ok s a) (next : step s a = some t) :
    Reach step ok r t :=
  Relation.ReflTransGen.tail run ⟨a, met, next⟩

theorem single {a : α} (met : ok s a) (next : step s a = some t) : Reach step ok s t :=
  (refl s).tail met next

/-- A predicate that holds at the start and is kept by every admitted step holds at the end. -/
theorem invariant {P : σ → Prop} (run : Reach step ok s t) (initially : P s)
    (keeps : ∀ u a v, P u → ok u a → step u a = some v → P v) : P t := by
  induction run with
  | refl => exact initially
  | tail _ last inductionHypothesis =>
      obtain ⟨a, met, next⟩ := last
      exact keeps _ a _ inductionHypothesis met next

/-- A run under a stronger side condition is a run under a weaker one. -/
theorem weaken (run : Reach step ok s t) (weaker : ∀ u a, ok u a → ok' u a) :
    Reach step ok' s t := by
  induction run with
  | refl => exact refl _
  | tail _ last inductionHypothesis =>
      obtain ⟨a, met, next⟩ := last
      exact inductionHypothesis.tail (weaker _ a met) next

/-- Projection of a composed system onto a component: when every admitted step of the whole is
    matched by finitely many admitted steps of the component, so is every run. -/
theorem project {component : τ → β → Option τ} {admitted : τ → β → Prop} (view : σ → τ)
    (run : Reach step ok s t)
    (matched : ∀ u a v, ok u a → step u a = some v →
      Reach component admitted (view u) (view v)) :
    Reach component admitted (view s) (view t) := by
  induction run with
  | refl => exact refl _
  | tail _ last inductionHypothesis =>
      obtain ⟨a, met, next⟩ := last
      exact inductionHypothesis.trans (matched _ a _ met next)

end Reach

/-- Whatever admitted steps are taken, some state of `goal` is passed after finitely many of them, and
    until then one can always be taken. -/
inductive Inevitable (step : σ → α → Option σ) (ok : σ → α → Prop) (goal : σ → Prop) : σ → Prop
  | here {s : σ} : goal s → Inevitable step ok goal s
  | later {s : σ} : (∃ a t, ok s a ∧ step s a = some t) →
      (∀ a t, ok s a → step s a = some t → Inevitable step ok goal t) → Inevitable step ok goal s

/-- The ranking rule: under `P` an admitted step can be taken, and each one comes to the goal or keeps
    `P` and takes the rank down. -/
theorem Inevitable.of_rank {step : σ → α → Option σ} {ok : σ → α → Prop} {goal P : σ → Prop}
    (rank : σ → Nat) (enabled : ∀ u, P u → ∃ a v, ok u a ∧ step u a = some v)
    (descends : ∀ u a v, P u → ok u a → step u a = some v → goal v ∨ P v ∧ rank v < rank u)
    {s : σ} (initially : P s) : Inevitable step ok goal s := by
  generalize bound : rank s = n
  induction n using Nat.strong_induction_on generalizing s with
  | _ n inductionHypothesis =>
      subst bound
      refine .later (enabled s initially) fun a t met moved => ?_
      rcases descends s a t initially met moved with reached | ⟨kept, lower⟩
      · exact .here reached
      · exact inductionHypothesis (rank t) lower kept rfl

theorem Inevitable.mono {step : σ → α → Option σ} {ok : σ → α → Prop} {goal goal' : σ → Prop} {s : σ}
    (inevitable : Inevitable step ok goal s) (weaker : ∀ t, goal t → goal' t) :
    Inevitable step ok goal' s := by
  induction inevitable with
  | here reached => exact .here (weaker _ reached)
  | later enabled _ inductionHypothesis => exact .later enabled inductionHypothesis

/-- Run a list of labels; `none` as soon as one of them is not enabled. -/
def exec (step : σ → α → Option σ) (s : σ) : List α → Option σ
  | [] => some s
  | a :: labels => (step s a).bind (exec step · labels)

theorem exec_append {step : σ → α → Option σ} {before after : List α} {s t u : σ}
    (first : exec step s before = some t) (rest : exec step t after = some u) :
    exec step s (before ++ after) = some u := by
  induction before generalizing s with
  | nil =>
      cases first
      exact rest
  | cons a before inductionHypothesis =>
      obtain ⟨v, moved, first⟩ := Option.bind_eq_some_iff.1 first
      rw [List.cons_append, exec, moved]
      exact inductionHypothesis first

/-- An executed list of labels is a run under every side condition that its labels meet anywhere. -/
theorem reach_of_exec_ok {step : σ → α → Option σ} {ok : σ → α → Prop} {labels : List α} {s t : σ}
    (met : ∀ a ∈ labels, ∀ u, ok u a) (executed : exec step s labels = some t) :
    Reach step ok s t := by
  induction labels generalizing s with
  | nil =>
      cases executed
      exact Reach.refl _
  | cons a labels inductionHypothesis =>
      obtain ⟨u, first, rest⟩ := Option.bind_eq_some_iff.1 executed
      have later := inductionHypothesis (fun b member => met b (List.mem_cons_of_mem _ member)) rest
      exact (Reach.single (met a List.mem_cons_self s) first).trans later

/-- An executed list of labels is a run. -/
theorem reach_of_exec {step : σ → α → Option σ} {labels : List α} {s t : σ}
    (executed : exec step s labels = some t) : Reach step Free s t :=
  reach_of_exec_ok (fun _ _ _ => trivial) executed

/-- The ranking rule for executed lists: when a step of the list under `P` keeps `P` and takes the rank
    down by one, up to what its label may give back, the list is no longer than its start's rank and
    the sum of what its labels give back. -/
theorem length_le_of_exec {step : σ → α → Option σ} {P : σ → Prop} (rank : σ → Nat)
    (refund : α → Nat) {labels : List α} {s t : σ} (initially : P s)
    (descends : ∀ a ∈ labels, ∀ u v, P u → step u a = some v →
      P v ∧ rank v + 1 ≤ rank u + refund a)
    (executed : exec step s labels = some t) :
    P t ∧ labels.length + rank t ≤ rank s + (labels.map refund).sum := by
  induction labels generalizing s with
  | nil =>
      cases executed
      exact ⟨initially, by simp⟩
  | cons a labels inductionHypothesis =>
      obtain ⟨u, first, rest⟩ := Option.bind_eq_some_iff.1 executed
      obtain ⟨kept, lower⟩ := descends a List.mem_cons_self _ _ initially first
      obtain ⟨atEnd, bound⟩ := inductionHypothesis kept
        (fun b member => descends b (List.mem_cons_of_mem _ member)) rest
      refine ⟨atEnd, ?_⟩
      simp only [List.length_cons, List.map_cons, List.sum_cons]
      omega

theorem sum_refund_add_countP (own : α → Bool) (labels : List α) :
    (labels.map fun a => if own a then 0 else 1).sum + labels.countP own = labels.length := by
  induction labels with
  | nil => rfl
  | cons a labels inductionHypothesis =>
      rw [List.map_cons, List.sum_cons, List.countP_cons, List.length_cons]
      split <;> omega

/-- The ranking rule for one party among others: its steps take the rank down and the others' do not
    bring it up, so it takes no more steps than the rank at the start. -/
theorem countP_le_of_exec {step : σ → α → Option σ} {P : σ → Prop} (rank : σ → Nat) (own : α → Bool)
    {labels : List α} {s t : σ} (initially : P s)
    (descends : ∀ a u v, P u → step u a = some v →
      P v ∧ rank v ≤ rank u ∧ (own a = true → rank v < rank u))
    (executed : exec step s labels = some t) : P t ∧ labels.countP own + rank t ≤ rank s := by
  have lowers : ∀ a ∈ labels, ∀ u v, P u → step u a = some v →
      P v ∧ rank v + 1 ≤ rank u + if own a then 0 else 1 := by
    intro a _ u v holds moved
    obtain ⟨kept, lower, strictly⟩ := descends a u v holds moved
    refine ⟨kept, ?_⟩
    split
    · rename_i mine
      exact strictly mine
    · exact Nat.succ_le_succ lower
  obtain ⟨atEnd, bound⟩ := length_le_of_exec rank (fun a => if own a then 0 else 1) initially lowers executed
  have split := sum_refund_add_countP own labels
  exact ⟨atEnd, by omega⟩

/-- How many steps of the run of `labels` from `s` are made in a state of `P`. -/
def passes (step : σ → α → Option σ) (P : σ → Bool) (s : σ) : List α → Nat
  | [] => 0
  | a :: labels => (if P s then 1 else 0) + ((step s a).map (passes step P · labels)).getD 0

/-- The ranking rule for a party that runs alone: under `P` it is at its goal or makes a step that keeps
    `P`, takes the rank down, and pays for the state if it is one of `seen`. Then it gets to its goal. -/
theorem goal_of_alone (step : σ → α → Option σ) (goal : σ → Prop) {P : σ → Prop} (a : α)
    (rank cost : σ → Nat) (seen : σ → Bool)
    (moves : ∀ u, P u → goal u ∨ ∃ v, step u a = some v ∧ P v ∧ rank v < rank u ∧
      cost v + (if seen u then 1 else 0) ≤ cost u)
    {s : σ} (initially : P s) :
    ∃ n ≤ rank s, ∃ t, exec step s (List.replicate n a) = some t ∧ goal t ∧
      passes step seen s (List.replicate n a) ≤ cost s := by
  generalize bound : rank s = r
  induction r using Nat.strong_induction_on generalizing s with
  | _ r inductionHypothesis =>
      subst bound
      rcases moves s initially with reached | ⟨u, moved, kept, lower, paid⟩
      · exact ⟨0, Nat.zero_le _, s, rfl, reached, Nat.zero_le _⟩
      · obtain ⟨n, short, t, executed, reached, cheap⟩ := inductionHypothesis (rank u) lower kept rfl
        refine ⟨n + 1, by omega, t, ?_, reached, ?_⟩
        · rw [List.replicate_succ, exec, moved]
          exact executed
        · rw [List.replicate_succ, passes, moved, Option.map_some, Option.getD_some]
          omega

/-- Run a list of labels and check the side condition at each step. -/
def execChecked (step : σ → α → Option σ) (ok : σ → α → Prop) [∀ s a, Decidable (ok s a)] (s : σ) :
    List α → Option σ
  | [] => some s
  | a :: labels => if ok s a then (step s a).bind (execChecked step ok · labels) else none

/-- A checked list of labels is a run under the side condition. -/
theorem reach_of_execChecked {step : σ → α → Option σ} {ok : σ → α → Prop}
    [∀ s a, Decidable (ok s a)] {labels : List α} {s t : σ}
    (executed : execChecked step ok s labels = some t) : Reach step ok s t := by
  induction labels generalizing s with
  | nil =>
      cases executed
      exact Reach.refl _
  | cons a labels inductionHypothesis =>
      obtain ⟨met, executed⟩ := Option.ite_none_right_eq_some.1 executed
      obtain ⟨u, first, rest⟩ := Option.bind_eq_some_iff.1 executed
      exact (Reach.single met first).trans (inductionHypothesis rest)

/-- A run meets the side condition at every step, or ends where it shows that it did not: a step that
    does not meet the condition leads to `Shown`, and `Shown` stays. -/
theorem execChecked_or {step : σ → α → Option σ} {ok : σ → α → Prop} [∀ s a, Decidable (ok s a)]
    {P Shown : σ → Prop} (keeps : ∀ u a v, P u → step u a = some v → P v)
    (shows : ∀ u a v, P u → ¬ ok u a → step u a = some v → Shown v)
    (stays : ∀ u a v, P u → Shown u → step u a = some v → Shown v) {labels : List α} {s t : σ}
    (initially : P s) (executed : exec step s labels = some t) :
    execChecked step ok s labels = some t ∨ Shown t := by
  have stays' : ∀ {labels : List α} {s : σ}, P s → Shown s → exec step s labels = some t →
      Shown t := by
    intro labels
    induction labels with
    | nil =>
        intro s _ shown executed
        cases executed
        exact shown
    | cons a labels inductionHypothesis =>
        intro s here shown executed
        obtain ⟨u, first, rest⟩ := Option.bind_eq_some_iff.1 executed
        exact inductionHypothesis (keeps _ _ _ here first) (stays _ _ _ here shown first) rest
  induction labels generalizing s with
  | nil => exact .inl executed
  | cons a labels inductionHypothesis =>
      obtain ⟨u, first, rest⟩ := Option.bind_eq_some_iff.1 executed
      by_cases met : ok s a
      · rw [execChecked, if_pos met, first]
        exact inductionHypothesis (keeps _ _ _ initially first) rest
      · exact .inr (stays' (keeps _ _ _ initially first) (shows _ _ _ initially met first) rest)

/-- A run ends in a good state exactly if it meets the side condition at every step: such a step keeps
    the state good, any other makes it bad, and a bad state stays bad. -/
theorem good_iff_execChecked {step : σ → α → Option σ} (ok : σ → α → Prop)
    [∀ s a, Decidable (ok s a)] {P Q : σ → Prop}
    (keeps : ∀ u a v, P u → step u a = some v → P v)
    (good : ∀ u a v, P u → ok u a → step u a = some v → Q u → Q v)
    (bad : ∀ u a v, P u → ¬ ok u a → step u a = some v → ¬ Q v)
    (stays : ∀ u a v, P u → ¬ Q u → step u a = some v → ¬ Q v) {labels : List α} {s t : σ}
    (initially : P s) (atFirst : Q s) (executed : exec step s labels = some t) :
    Q t ↔ execChecked step ok s labels = some t := by
  constructor
  · intro reached
    exact (execChecked_or keeps bad stays initially executed).resolve_right fun lost => lost reached
  · intro checked
    refine ((reach_of_execChecked checked).invariant (P := fun s => P s ∧ Q s)
      ⟨initially, atFirst⟩ ?_).2
    rintro u a v ⟨here, fine⟩ met moved
    exact ⟨keeps u a v here moved, good u a v here met moved fine⟩

/-! ### The steps of one run -/

/-- Every step of the run of `labels` from `s` meets `ok`. -/
def Throughout (step : σ → α → Option σ) (ok : σ → α → Prop) (s : σ) (labels : List α) : Prop :=
  ∀ before a after u, labels = before ++ a :: after → exec step s before = some u → ok u a

/-- Some step of the run of `labels` from `s` is made in a state of `P`. -/
def Sometime (step : σ → α → Option σ) (P : σ → Prop) (s : σ) (labels : List α) : Prop :=
  ∃ before a after u, labels = before ++ a :: after ∧ exec step s before = some u ∧ P u

theorem Throughout.head {step : σ → α → Option σ} {ok : σ → α → Prop} {s u : σ} {a : α}
    {labels : List α} (met : Throughout step ok s (a :: labels)) (first : step s a = some u) :
    ok s a ∧ Throughout step ok u labels := by
  refine ⟨met [] a labels s rfl rfl, ?_⟩
  rintro before b after v rfl executed
  refine met (a :: before) b after v rfl ?_
  rw [exec, first]
  exact executed

theorem Throughout.cons {step : σ → α → Option σ} {ok : σ → α → Prop} {s u : σ} {a : α}
    {labels : List α} (met : ok s a) (first : step s a = some u) (later : Throughout step ok u labels) :
    Throughout step ok s (a :: labels) := by
  intro before b after v split reached
  cases before with
  | nil =>
      cases split
      cases reached
      exact met
  | cons c before =>
      obtain ⟨rfl, rfl⟩ := List.cons.inj split
      rw [exec, first] at reached
      exact later before b after v rfl reached

theorem reach_of_throughout {step : σ → α → Option σ} {ok : σ → α → Prop} {s t : σ} {labels : List α}
    (executed : exec step s labels = some t) (met : Throughout step ok s labels) :
    Reach step ok s t := by
  induction labels generalizing s with
  | nil =>
      cases executed
      exact Reach.refl _
  | cons a labels inductionHypothesis =>
      obtain ⟨u, first, rest⟩ := Option.bind_eq_some_iff.1 executed
      obtain ⟨now, later⟩ := met.head first
      exact (Reach.single now first).trans (inductionHypothesis rest later)

/-- Reachability under a side condition is a run of labels that meets it throughout. -/
theorem exists_throughout {step : σ → α → Option σ} {ok : σ → α → Prop} {s t : σ}
    (run : Reach step ok s t) :
    ∃ labels, exec step s labels = some t ∧ Throughout step ok s labels := by
  induction run using Relation.ReflTransGen.head_induction_on with
  | refl => exact ⟨[], rfl, fun before a after u split _ => by simp at split⟩
  | @head s u first _ inductionHypothesis =>
      obtain ⟨a, met, moved⟩ := first
      obtain ⟨labels, executed, later⟩ := inductionHypothesis
      refine ⟨a :: labels, by rw [exec, moved]; exact executed, ?_⟩
      intro before b after v split reached
      cases before with
      | nil =>
          cases split
          cases reached
          exact met
      | cons c before =>
          obtain ⟨rfl, rfl⟩ := List.cons.inj split
          rw [exec, moved] at reached
          exact later before b after v rfl reached

/-- A run passes a state of `P`, or avoids it throughout. -/
theorem Throughout.or_sometime {step : σ → α → Option σ} {ok : σ → α → Prop} {P : σ → Prop} {s : σ}
    {labels : List α} (met : Throughout step ok s labels) :
    Sometime step P s labels ∨ Throughout step (fun u a => ok u a ∧ ¬ P u) s labels := by
  by_cases passed : Sometime step P s labels
  · exact .inl passed
  · refine .inr fun before a after u split executed => ⟨met before a after u split executed, ?_⟩
    exact fun holds => passed ⟨before, a, after, u, split, executed, holds⟩

end Transition
