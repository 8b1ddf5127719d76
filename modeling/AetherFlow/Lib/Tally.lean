/-
Module: AetherFlow.Lib.Tally
Purpose: How many steps of a run are of one kind, and two rules for runs under a side condition. Bounded
  waiting: when nothing takes a measure down and every counted step takes it up until it has come to a
  bound, it comes to the bound after as many counted steps as are missing. Bounded work: when nothing
  takes a rank up and every step of one party takes it down, the party takes no more steps than that.
Trusted boundary: none
Main exports: tally, min_le_of_tally, countP_le_of_throughout, throughout_of_execChecked
-/
import AetherFlow.Lib.Transition

namespace Transition

variable {σ α : Type*}

/-- The number of counted steps in the run of `labels` from `s`. -/
def tally (step : σ → α → Option σ) (counts : σ → α → Bool) (s : σ) : List α → Nat
  | [] => 0
  | a :: labels =>
      (if counts s a then 1 else 0) + ((step s a).map (tally step counts · labels)).getD 0

/-- The rule for bounded waiting. -/
theorem min_le_of_tally {step : σ → α → Option σ} {ok : σ → α → Prop} {counts : σ → α → Bool}
    {P : σ → Prop} (measure : σ → Nat) (bound : Nat)
    (serves : ∀ u a v, P u → ok u a → step u a = some v → P v ∧ measure u ≤ measure v ∧
      (counts u a = true → measure u < bound → measure u < measure v))
    {labels : List α} {s t : σ} (initially : P s) (met : Throughout step ok s labels)
    (executed : exec step s labels = some t) :
    P t ∧ min bound (measure s + tally step counts s labels) ≤ measure t := by
  induction labels generalizing s with
  | nil =>
      cases executed
      exact ⟨initially, Nat.min_le_right _ _⟩
  | cons a labels inductionHypothesis =>
      obtain ⟨u, first, rest⟩ := Option.bind_eq_some_iff.1 executed
      obtain ⟨now, later⟩ := met.head first
      obtain ⟨kept, up, served⟩ := serves s a u initially now first
      obtain ⟨atEnd, enough⟩ := inductionHypothesis kept later rest
      refine ⟨atEnd, ?_⟩
      rw [tally, first, Option.map_some, Option.getD_some]
      split
      · rename_i counted
        have higher := served counted
        omega
      · omega

/-- Where the kind of a step shows in its label, the steps are counted by their labels. -/
theorem tally_eq_countP {step : σ → α → Option σ} {kind : α → Bool} {labels : List α} {s t : σ}
    (executed : exec step s labels = some t) :
    tally step (fun _ a => kind a) s labels = labels.countP kind := by
  induction labels generalizing s with
  | nil => rfl
  | cons a labels inductionHypothesis =>
      obtain ⟨u, first, rest⟩ := Option.bind_eq_some_iff.1 executed
      rw [tally, first, Option.map_some, Option.getD_some, inductionHypothesis rest, List.countP_cons]
      exact Nat.add_comm _ _

/-- The rule for bounded work. -/
theorem countP_le_of_throughout {step : σ → α → Option σ} {ok : σ → α → Prop} {P : σ → Prop}
    (rank : σ → Nat) (own : α → Bool)
    (descends : ∀ u a v, P u → ok u a → step u a = some v →
      P v ∧ rank v + (own a).toNat ≤ rank u)
    {labels : List α} {s t : σ} (initially : P s) (met : Throughout step ok s labels)
    (executed : exec step s labels = some t) : P t ∧ labels.countP own + rank t ≤ rank s := by
  induction labels generalizing s with
  | nil =>
      cases executed
      exact ⟨initially, by simp⟩
  | cons a labels inductionHypothesis =>
      obtain ⟨u, first, rest⟩ := Option.bind_eq_some_iff.1 executed
      obtain ⟨now, later⟩ := met.head first
      obtain ⟨kept, lower⟩ := descends s a u initially now first
      obtain ⟨atEnd, bounded⟩ := inductionHypothesis kept later rest
      refine ⟨atEnd, ?_⟩
      rw [List.countP_cons]
      cases mine : own a <;> simp only [mine, Bool.toNat_true, Bool.toNat_false] at lower ⊢ <;>
        simp only [Bool.false_eq_true, if_false, if_true] <;> omega

/-- A checked list of labels meets the side condition throughout. -/
theorem throughout_of_execChecked {step : σ → α → Option σ} {ok : σ → α → Prop}
    [∀ s a, Decidable (ok s a)] {labels : List α} {s t : σ}
    (executed : execChecked step ok s labels = some t) :
    exec step s labels = some t ∧ Throughout step ok s labels := by
  induction labels generalizing s with
  | nil => exact ⟨executed, fun before a after u split => by simp at split⟩
  | cons a labels inductionHypothesis =>
      obtain ⟨met, executed⟩ := Option.ite_none_right_eq_some.1 executed
      obtain ⟨u, first, rest⟩ := Option.bind_eq_some_iff.1 executed
      obtain ⟨executed, later⟩ := inductionHypothesis rest
      exact ⟨by rw [exec, first]; exact executed, .cons met first later⟩

end Transition
