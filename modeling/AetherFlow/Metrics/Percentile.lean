/-
Module: AetherFlow.Metrics.Percentile
Purpose: What a whole snapshot says about the samples it was taken of. The count is exact, the largest
  sample is exact, the mean is that of the sum as it wraps around, and each percentile is the midpoint
  of the bucket of the sample whose rank is the target, so it is off by less than a third below and at
  most by a half above; a rank of 0, and a sample in the lowest bucket, are reported as 2.
Trusted boundary: none
Main exports: Sums, sums_of_samples, middle, Approximates, Estimates, percentile_estimates,
  Summarises, summarises_of_recorded, snapshot_summarises
-/
import AetherFlow.Lib.OrderStatistic
import AetherFlow.Metrics.Median

namespace AetherFlow.Metrics

open OrderStatistic

/-! ### The sum and the largest sample -/

/-- The largest of the samples, 0 without one. -/
def largest (samples : List UInt64) : Nat := (samples.map UInt64.toNat).foldr max 0

@[simp] theorem largest_nil : largest [] = 0 := rfl

theorem largest_append (samples : List UInt64) (ns : UInt64) :
    largest (samples ++ [ns]) = max (largest samples) ns.toNat := by
  induction samples with
  | nil => simp [largest]
  | cons x samples inductionHypothesis =>
      simp only [largest, List.cons_append, List.map_cons, List.foldr_cons] at inductionHypothesis ⊢
      rw [inductionHypothesis, Nat.max_assoc]

/-- The sum of the samples so far, which wraps around, and the largest of them. -/
structure Sums (h : LatencyHistogram) (samples : List UInt64) : Prop where
  sum : h.sumNs.toNat = total samples % 2 ^ 64
  max : h.maxNs.toNat = largest samples

theorem sums_new : Sums .new [] where
  sum := rfl
  max := rfl

/-- One more sample. -/
theorem Sums.record {h h' : LatencyHistogram} {samples : List UInt64} (sums : Sums h samples)
    {ns : UInt64} (recorded : Metrics.record h ns = some h') : Sums h' (samples ++ [ns]) := by
  have added := addBucket_eq h (bucketOf_lt ns)
  have sum : (h.sumNs + ns).toNat = total (samples ++ [ns]) % 2 ^ 64 := by
    rw [UInt64.toNat_add, sums.sum, Nat.mod_add_mod]
    simp
  by_cases higher : h.maxNs < ns
  · rw [record_of_higher added higher] at recorded
    obtain rfl := Option.some.inj recorded
    refine ⟨sum, ?_⟩
    have above : largest samples < ns.toNat := by
      rw [← sums.max]
      exact UInt64.lt_iff_toNat_lt.1 higher
    rw [largest_append, Nat.max_eq_right above.le]
    rfl
  · rw [record_of_not_higher added higher] at recorded
    obtain rfl := Option.some.inj recorded
    refine ⟨sum, ?_⟩
    have below : ns.toNat ≤ largest samples := by
      rw [← sums.max]
      exact UInt64.le_iff_toNat_le.1 (UInt64.not_lt.1 higher)
    rw [largest_append, Nat.max_eq_left below]
    exact sums.max

theorem sums_of_samples {h h' : LatencyHistogram} {earlier samples : List UInt64}
    (sums : Sums h earlier) (recorded : samples.foldlM Metrics.record h = some h') :
    Sums h' (earlier ++ samples) := by
  induction samples generalizing h earlier with
  | nil =>
      obtain rfl := Option.some.inj recorded
      rwa [List.append_nil]
  | cons ns samples inductionHypothesis =>
      rw [List.foldlM_cons] at recorded
      obtain ⟨h₁, first, later⟩ := Option.bind_eq_some_iff.1 recorded
      rw [List.append_cons]
      exact inductionHypothesis (sums.record first) later

/-! ### The percentiles -/

/-- The midpoint of the bucket of `x`, which is 2 for the lowest one. -/
def middle (x : Nat) : Nat := 2 ^ x.log2 + 2 ^ (x.log2 - 1)

/-- How far `r` may be from the `x` it stands for. -/
def Approximates (x r : Nat) : Prop :=
  if x ≤ 1 then r = 2 else 3 * x < 4 * r ∧ 2 * r ≤ 3 * x

theorem approximates_middle (x : Nat) : Approximates x (middle x) := by
  rw [Approximates, middle]
  split
  · rename_i low
    rcases Nat.le_one_iff_eq_zero_or_eq_one.1 low with rfl | rfl <;> decide
  · rename_i above
    obtain ⟨lower, upper⟩ := (Nat.log2_eq_iff (k := x.log2) (by omega)).1 rfl
    have position : x.log2 ≠ 0 := by
      intro lowest
      rw [lowest] at upper
      omega
    obtain ⟨k, next⟩ := Nat.exists_eq_succ_of_ne_zero position
    rw [next] at lower upper ⊢
    rw [Nat.succ_sub_one]
    have double : 2 ^ (k + 1) = 2 * 2 ^ k := by rw [Nat.pow_succ, Nat.mul_comm]
    have more : 2 ^ (k + 1 + 1) = 4 * 2 ^ k := by
      rw [Nat.pow_succ, double]
      omega
    simp only [Nat.succ_eq_add_one] at lower upper ⊢
    omega

/-- The sample with this rank, the smallest one having rank 1. -/
def ranked (samples : List UInt64) (rank : Nat) : Option Nat :=
  ofRank (samples.map UInt64.toNat) rank

/-- How many samples are in low buckets decides which bucket the sample of a rank is in. -/
theorem log2_lt_iff_of_ranked {samples : List UInt64} {rank x : Nat} (positive : 0 < rank)
    (found : ranked samples rank = some x) (k : Nat) : x.log2 < k ↔ rank ≤ below samples k := by
  have lower : ∀ a b : Nat, a ≤ b → decide (b.log2 < k) = true → decide (a.log2 < k) = true := by
    intro a b le inside
    refine decide_eq_true (Nat.lt_of_le_of_lt ?_ (of_decide_eq_true inside))
    rw [Nat.log2_eq_log_two, Nat.log2_eq_log_two]
    exact Nat.log_mono_right le
  have counted : (samples.map UInt64.toNat).countP (fun v => decide (v.log2 < k)) =
      below samples k := by
    rw [List.countP_map]
    rfl
  rw [← counted, ← mem_lower_iff lower positive found, decide_eq_true_eq]

/-- What is reported for a rank. -/
structure Estimates (samples : List UInt64) (rank : Nat) (r : UInt64) : Prop where
  no_samples : samples = [] → r = 0
  no_rank : samples ≠ [] → rank = 0 → r = 2
  in_range : 0 < rank → rank ≤ samples.length →
    ∃ x, ranked samples rank = some x ∧ r.toNat = middle x ∧ Approximates x r.toNat
  beyond : samples.length < rank → r.toNat = largest samples

/-- A scan whose buckets do not reach its target runs through all of them. -/
theorem scan_ranOff (overflowChecks : Bool) {goal acc : UInt64} {i : Nat} {counts : List UInt64}
    (short : acc.toNat + total counts < goal.toNat) :
    scan overflowChecks goal i acc counts = .ranOff := by
  induction counts generalizing i acc with
  | nil => rfl
  | cons c counts inductionHypothesis =>
      rw [total_cons] at short
      have bound := goal.toNat_lt
      have sum : (acc + c).toNat = acc.toNat + c.toNat := by
        rw [UInt64.toNat_add, Nat.mod_eq_of_lt (by omega)]
      have quiet : ¬ (overflowChecks = true ∧ 2 ^ 64 ≤ acc.toNat + c.toNat) := by omega
      have more : ¬ goal ≤ acc + c := by
        rw [UInt64.le_iff_toNat_le, sum]
        omega
      rw [scan, if_neg quiet, if_neg more]
      exact inductionHypothesis (by omega)

section Estimated

variable {h : LatencyHistogram} {samples : List UInt64} (tallies : Tallies h samples)
  (sums : Sums h samples)

include tallies in
theorem Tallies.total_lt : Metrics.total h.buckets.toList < 2 ^ 64 := by
  rw [tallies.total, ← tallies.count]
  exact h.count.toNat_lt

include tallies in
theorem Tallies.count_eq_zero : h.count = 0 ↔ samples = [] := by
  rw [← UInt64.toNat_inj, tallies.count, UInt64.toNat_zero, List.length_eq_zero_iff]

include tallies in
/-- The scan stops in the bucket of the sample that has the rank. -/
theorem middle_of_stopsIn {rank k : Nat} {r : UInt64} (positive : 0 < rank)
    (inside : rank ≤ samples.length) (value : r.toNat = 2 ^ k + 2 ^ (k - 1))
    (stops : StopsIn h.buckets.toList rank k) :
    ∃ x, ranked samples rank = some x ∧ r.toNat = middle x ∧ Approximates x r.toNat := by
  obtain ⟨x, _, found⟩ := ofRank_isSome positive
    (inside.trans_eq (List.length_map UInt64.toNat).symm)
  have small : k < 64 := by
    have inRange := stops.inside
    rwa [Vector.length_toList] at inRange
  have upper : x.log2 < k + 1 := by
    rw [log2_lt_iff_of_ranked positive found, ← tallies.total_take (by omega)]
    exact stops.reached
  have lower : ¬ x.log2 < k := by
    rw [log2_lt_iff_of_ranked positive found, ← tallies.total_take small.le]
    rcases stops.first with rfl | before
    · simpa using positive.ne'
    · exact Nat.not_le.2 before
  have bucket : x.log2 = k := by omega
  have mid : r.toNat = middle x := by rw [value, ← bucket, middle]
  refine ⟨x, found, mid, ?_⟩
  rw [mid]
  exact approximates_middle x

include tallies sums in
/-- A percentile estimates the sample whose rank is its target. -/
theorem percentile_estimates (overflowChecks : Bool) (q : Float) :
    ∃ r, percentile overflowChecks q h.count h.buckets.toList h.maxNs = some r ∧
      Estimates samples (target q h.count).toNat r := by
  have all : h.buckets.toList.length = 64 := Vector.length_toList
  by_cases empty : h.count = 0
  · have nothing := tallies.count_eq_zero.1 empty
    subst nothing
    refine ⟨0, if_pos empty, fun _ => rfl, fun never => absurd rfl never, ?_, fun _ => rfl⟩
    intro positive inside
    exact absurd (Nat.lt_of_lt_of_le positive inside) (Nat.lt_irrefl 0)
  · have nonempty : samples ≠ [] := fun nothing => empty (tallies.count_eq_zero.2 nothing)
    by_cases covers : (target q h.count).toNat ≤ samples.length
    · obtain ⟨k, r, found, value, stops⟩ := percentile_stops overflowChecks h.maxNs empty all
        tallies.total_lt (covers.trans_eq tallies.total.symm)
      refine ⟨r, found, fun nothing => absurd nothing nonempty, ?_, ?_, ?_⟩
      · -- The lowest bucket reaches a target of 0.
        intro _ none
        have lowest : k = 0 := by
          rcases stops.first with first | before
          · exact first
          · omega
        subst lowest
        exact UInt64.toNat_inj.1 value
      · exact fun positive inside => middle_of_stopsIn tallies positive inside value stops
      · exact fun beyond => absurd covers (Nat.not_le.2 beyond)
    · have ranOff : scan overflowChecks (target q h.count) 0 0 h.buckets.toList = .ranOff := by
        refine scan_ranOff overflowChecks ?_
        rw [tallies.total, UInt64.toNat_zero]
        omega
      refine ⟨h.maxNs, ?_, fun nothing => absurd nothing nonempty, ?_, ?_, fun _ => sums.max⟩
      · rw [percentile, if_neg empty, ranOff]
      · intro _ none
        omega
      · exact fun _ inside => absurd inside covers

end Estimated

/-! ### The snapshot -/

/-- A snapshot of a sequence of samples. -/
structure Summarises (samples : List UInt64) (snap : LatencySnapshot) : Prop where
  count : snap.count.toNat = samples.length
  largest : snap.maxNs.toNat = largest samples
  mean : snap.meanNs.toNat = total samples % 2 ^ 64 / samples.length
  p50 : Estimates samples (target 0.50 snap.count).toNat snap.p50Ns
  p99 : Estimates samples (target 0.99 snap.count).toNat snap.p99Ns
  p999 : Estimates samples (target 0.999 snap.count).toNat snap.p999Ns
  /-- The rank of the median is half the number of the samples, rounded down. -/
  half : samples.length < 2 ^ 53 → (target 0.50 snap.count).toNat = samples.length / 2

theorem toNat_meanNs (sumNs count : UInt64) :
    (meanNs sumNs count).toNat = sumNs.toNat / count.toNat := by
  rw [meanNs]
  split
  · rename_i zero
    rw [zero, UInt64.toNat_zero, Nat.div_zero]
  · exact UInt64.toNat_div _ _

/-- A histogram that counts these samples is summarised without a panic. -/
theorem summarises_of_tallies (overflowChecks : Bool) {h : LatencyHistogram} {samples : List UInt64}
    (tallies : Tallies h samples) (sums : Sums h samples) :
    ∃ snap, snapshot overflowChecks h = some snap ∧ Summarises samples snap := by
  obtain ⟨p50Ns, found, p50⟩ := percentile_estimates tallies sums overflowChecks 0.50
  obtain ⟨p99Ns, found', p99⟩ := percentile_estimates tallies sums overflowChecks 0.99
  obtain ⟨p999Ns, found'', p999⟩ := percentile_estimates tallies sums overflowChecks 0.999
  refine ⟨⟨h.count, meanNs h.sumNs h.count, p50Ns, p99Ns, p999Ns, h.maxNs⟩, ?_,
    tallies.count, sums.max, ?_, p50, p99, p999, ?_⟩
  · rw [snapshot, found, Option.bind_eq_bind, Option.bind_some, found', Option.bind_some, found'',
      Option.bind_some]
  · rw [toNat_meanNs, sums.sum, tallies.count]
  · intro exact_
    have same : (0.50 : Float) = 0.5 := by decide +kernel
    rw [target, same, Binary64.toUInt64_mul_half (by rw [tallies.count]; exact exact_), tallies.count]

/-- What the samples that were recorded leave in a new histogram. -/
theorem summarises_of_recorded (overflowChecks : Bool) {h : LatencyHistogram} {samples : List UInt64}
    (few : samples.length < 2 ^ 64) (recorded : samples.foldlM record .new = some h) :
    ∃ snap, snapshot overflowChecks h = some snap ∧ Summarises samples snap := by
  obtain ⟨h', same, tallies⟩ := @tallies_of_samples .new [] samples tallies_new few
  rw [recorded] at same
  cases same
  have sums := sums_of_samples sums_new recorded
  rw [List.nil_append] at tallies sums
  exact summarises_of_tallies overflowChecks tallies sums

/-- After any sequence of fewer than `2 ^ 64` samples a snapshot is taken without a panic, and it
    summarises them. -/
theorem snapshot_summarises (overflowChecks : Bool) {samples : List UInt64}
    (few : samples.length < 2 ^ 64) :
    ∃ snap, snapshotAfter overflowChecks samples = some snap ∧ Summarises samples snap := by
  obtain ⟨h, recorded, _⟩ := @tallies_of_samples .new [] samples tallies_new few
  rw [snapshotAfter, recorded]
  exact summarises_of_recorded overflowChecks few recorded

/-- Five samples with an outlier. -/
theorem snapshot_summarises_outlier :
    ∃ snap, snapshotAfter true [3, 900, 5, 40, 6] = some snap ∧
      Summarises [3, 900, 5, 40, 6] snap :=
  snapshot_summarises true (by decide)

end AetherFlow.Metrics
