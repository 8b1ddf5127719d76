/-
Module: AetherFlow.Lib.RoundRobin
Purpose: How evenly the numbers of a wrapping counter spread over the residues of `n`. The counter runs
  through `period` values and starts again; each value chooses a residue. Within one period no residue
  is chosen more than once more than another; every wrap can add one to the difference, unless `n`
  divides the period.
Trusted boundary: none
Main exports: RoundRobin.choice, RoundRobin.share, RoundRobin.share_le, RoundRobin.share_le_of_dvd
-/
import Mathlib.Data.Int.CardIntervalMod
import Mathlib.Data.Nat.Count

namespace RoundRobin

variable {period n : Nat}

/-- The residue that the ticket `t` chooses. -/
def choice (period n t : Nat) : Nat := t % period % n

/-- How many of the first `m` tickets choose the residue `c`. -/
def share (period n m c : Nat) : Nat := ((List.range m).map (choice period n)).count c

theorem share_eq (m c : Nat) : share period n m c = Nat.count (choice period n · = c) m := by
  induction m with
  | zero => rfl
  | succ m inductionHypothesis =>
      rw [Nat.count_succ, ← inductionHypothesis, share, share, List.range_succ, List.map_append,
        List.count_append]
      simp [List.count_singleton]

/-- Tickets below the period choose their own residue. -/
theorem share_of_le {m c : Nat} (nonzero : 0 < n) (small : c < n) (few : m ≤ period) :
    share period n m c = m / n + if c < m % n then 1 else 0 := by
  have own : share period n m c = Nat.count (· ≡ c [MOD n]) m := by
    rw [share_eq, Nat.count_eq_card_filter_range, Nat.count_eq_card_filter_range]
    refine congrArg Finset.card (Finset.filter_congr fun t member => ?_)
    have below := Finset.mem_range.1 member
    rw [choice, Nat.mod_eq_of_lt (show t < period by omega), Nat.ModEq, Nat.mod_eq_of_lt small]
  rw [own, Nat.count_modEq_card _ nonzero, Nat.mod_eq_of_lt small]

/-- A whole period, and what comes after it. -/
theorem share_period_add (m c : Nat) :
    share period n (period + m) c = share period n period c + share period n m c := by
  have again : ∀ t, choice period n (period + t) = choice period n t := by
    intro t
    rw [choice, choice, Nat.add_mod_left]
  rw [share_eq, share_eq, share_eq, Nat.count_add]
  simp only [again]

theorem share_periods_add (k m c : Nat) :
    share period n (period * k + m) c = k * share period n period c + share period n m c := by
  induction k with
  | zero => simp
  | succ k inductionHypothesis =>
      rw [Nat.mul_succ, Nat.add_right_comm, Nat.add_comm _ period, share_period_add,
        inductionHypothesis, Nat.succ_mul]
      omega

/-- The share of a residue after any number of wraps. -/
theorem share_split (m c : Nat) :
    share period n m c =
      m / period * share period n period c + share period n (m % period) c := by
  conv_lhs => rw [← Nat.div_add_mod m period]
  exact share_periods_add _ _ _

/-- Two residues differ by one, and by one more for each wrap. -/
theorem share_le {m c c' : Nat} (nonzero : 0 < n) (wide : 0 < period) (small : c < n)
    (small' : c' < n) : share period n m c ≤ share period n m c' + m / period + 1 := by
  have part := (Nat.mod_lt m wide).le
  rw [share_split m c, share_split m c', share_of_le nonzero small le_rfl,
    share_of_le nonzero small' le_rfl, share_of_le nonzero small part, share_of_le nonzero small' part]
  have whole : (if c < period % n then 1 else 0) ≤ 1 + if c' < period % n then 1 else 0 := by
    split <;> omega
  have scaled := Nat.mul_le_mul_left (m / period) whole
  rw [Nat.mul_add] at scaled
  rw [Nat.mul_add, Nat.mul_add]
  have last : (if c < m % period % n then 1 else 0) ≤
      1 + if c' < m % period % n then 1 else 0 := by
    split <;> omega
  omega

/-- When the residues divide the period, wrapping does not show. -/
theorem share_le_of_dvd {m c c' : Nat} (nonzero : 0 < n) (wide : 0 < period) (divides : n ∣ period)
    (small : c < n) (small' : c' < n) : share period n m c ≤ share period n m c' + 1 := by
  have part := (Nat.mod_lt m wide).le
  have even : period % n = 0 := Nat.mod_eq_zero_of_dvd divides
  rw [share_split m c, share_split m c', share_of_le nonzero small le_rfl,
    share_of_le nonzero small' le_rfl, share_of_le nonzero small part, share_of_le nonzero small' part,
    even]
  simp only [Nat.not_lt_zero, if_false, Nat.add_zero]
  split <;> split <;> omega

end RoundRobin
