/-
Module: AetherFlow.Lib.OrderStatistic
Purpose: The `t`-th smallest element of a list, counted from one, and how it is found by counting: it
  lies in a lower set exactly when `t` elements do.
Trusted boundary: none
Main exports: ofRank, lt_countP_iff, mem_lower_iff
-/
import Mathlib.Data.List.Sort

namespace OrderStatistic

universe u

variable {α : Type u} [LinearOrder α]

/-- The `t`-th smallest element; the first one for `t = 1`. -/
def ofRank (l : List α) (t : Nat) : Option α := (l.insertionSort (· ≤ ·))[t - 1]?

/-- In an ordered list the elements of a lower set come first. -/
theorem lt_countP_iff {p : α → Bool} (lower : ∀ a b, a ≤ b → p b = true → p a = true) {l : List α}
    (ordered : l.Pairwise (· ≤ ·)) {i : Nat} {x : α} (found : l[i]? = some x) :
    i < l.countP p ↔ p x = true := by
  induction l generalizing i with
  | nil => cases found
  | cons a l inductionHypothesis =>
      obtain ⟨least, ordered⟩ := List.pairwise_cons.1 ordered
      by_cases first : p a = true
      · rw [List.countP_cons_of_pos first]
        cases i with
        | zero =>
            cases found
            exact iff_of_true (Nat.succ_pos _) first
        | succ i => rw [Nat.succ_lt_succ_iff, inductionHypothesis ordered found]
      · -- Nothing behind `a` is in the lower set.
        have none_ : ∀ b ∈ a :: l, ¬ p b = true := by
          intro b member inside
          rcases List.mem_cons.1 member with rfl | member
          · exact first inside
          · exact first (lower a b (least b member) inside)
        rw [List.countP_eq_zero.2 none_]
        exact iff_of_false (Nat.not_lt_zero _) (none_ x (List.mem_of_getElem? found))

/-- The `t`-th smallest element is in a lower set when `t` elements are. -/
theorem mem_lower_iff {p : α → Bool} (lower : ∀ a b, a ≤ b → p b = true → p a = true) {l : List α}
    {t : Nat} {x : α} (positive : 0 < t) (found : ofRank l t = some x) :
    p x = true ↔ t ≤ l.countP p := by
  have sorted := List.pairwise_insertionSort (· ≤ ·) l
  rw [← lt_countP_iff lower sorted found, (List.perm_insertionSort (· ≤ ·) l).countP_eq]
  omega

theorem ofRank_isSome {l : List α} {t : Nat} (positive : 0 < t) (inside : t ≤ l.length) :
    ∃ x ∈ l, ofRank l t = some x := by
  have there : t - 1 < (l.insertionSort (· ≤ ·)).length := by
    rw [List.length_insertionSort]
    omega
  exact ⟨_, (List.mem_insertionSort (· ≤ ·)).1 (List.getElem_mem there), List.getElem?_eq_getElem there⟩

end OrderStatistic
