/-
Module: AetherFlow.Metrics.Median
Purpose: The median that a snapshot reports after any sequence of samples. The buckets count the samples,
  so the scan finds the bucket of the median; what it reports lies in that bucket unless it is the
  lowest one, whose midpoint is 2 and belongs to the next. A single sample has target 0, which the
  scan takes to be reached in the lowest bucket.
Trusted boundary: none
Main exports: snapshotAfter, Tallies, tallies_of_samples, InBucket, MedianInData,
  median_in_data_iff
-/
import AetherFlow.Lib.Binary64
import AetherFlow.Metrics.Buckets

namespace AetherFlow.Metrics

/-- A snapshot after these samples were recorded. -/
def snapshotAfter (overflowChecks : Bool) (samples : List UInt64) : Option LatencySnapshot := do
  let h ← samples.foldlM record .new
  snapshot overflowChecks h

/-! ### What the buckets count -/

/-- The counters are the numbers of the samples so far. -/
structure Tallies (h : LatencyHistogram) (samples : List UInt64) : Prop where
  count : h.count.toNat = samples.length
  buckets : ∀ (k : Nat) (small : k < 64), h.buckets[k].toNat = samples.countP (bucketOf · = k)

theorem tallies_new : Tallies .new [] where
  count := rfl
  buckets k small := by
    simp [LatencyHistogram.new]

/-- One more sample. -/
theorem Tallies.record {h : LatencyHistogram} {samples : List UInt64} (tallies : Tallies h samples)
    (ns : UInt64) (few : samples.length + 1 < 2 ^ 64) :
    ∃ h', Metrics.record h ns = some h' ∧ Tallies h' (samples ++ [ns]) := by
  obtain ⟨h', recorded, buckets, count⟩ := record_eq (addBucket_eq h (bucketOf_lt ns))
  refine ⟨h', recorded, ?_, ?_⟩
  · rw [count, UInt64.toNat_add, tallies.count, UInt64.toNat_one, List.length_append,
      List.length_singleton, Nat.mod_eq_of_lt few]
  · intro k small
    have bound : samples.countP (bucketOf · = k) ≤ samples.length := List.countP_le_length
    have before := tallies.buckets k small
    simp only [buckets, List.countP_append, List.countP_singleton]
    by_cases here : bucketOf ns = k
    · subst here
      rw [Vector.getElem_set_self, UInt64.toNat_add, before, UInt64.toNat_one,
        Nat.mod_eq_of_lt (by omega)]
      simp
    · rw [Vector.getElem_set_ne _ _ here, before]
      simp [here]

/-- The counters after a sequence of samples. -/
theorem tallies_of_samples {h : LatencyHistogram} {earlier samples : List UInt64}
    (tallies : Tallies h earlier) (few : (earlier ++ samples).length < 2 ^ 64) :
    ∃ h', samples.foldlM Metrics.record h = some h' ∧ Tallies h' (earlier ++ samples) := by
  induction samples generalizing h earlier with
  | nil =>
      refine ⟨h, rfl, ?_⟩
      rw [List.append_nil]
      exact tallies
  | cons ns samples inductionHypothesis =>
      rw [List.append_cons] at few ⊢
      have shorter : earlier.length + 1 < 2 ^ 64 := by
        simp only [List.length_append, List.length_singleton] at few
        omega
      obtain ⟨h₁, recorded, next⟩ := tallies.record ns shorter
      obtain ⟨h', later, atEnd⟩ := inductionHypothesis next few
      refine ⟨h', ?_, atEnd⟩
      rw [List.foldlM_cons, recorded]
      exact later

/-- The number of samples in buckets below `k`. -/
def below (samples : List UInt64) (k : Nat) : Nat := samples.countP (bucketOf · < k)

theorem below_succ (samples : List UInt64) (k : Nat) :
    below samples (k + 1) = below samples k + samples.countP (bucketOf · = k) := by
  induction samples with
  | nil => rfl
  | cons ns samples inductionHypothesis =>
      simp only [below, List.countP_cons, decide_eq_true_eq] at inductionHypothesis ⊢
      split <;> split <;> split <;> omega

/-- The first `k` buckets count the samples below `k`. -/
theorem Tallies.total_take {h : LatencyHistogram} {samples : List UInt64} (tallies : Tallies h samples)
    {k : Nat} (small : k ≤ 64) : total (h.buckets.toList.take k) = below samples k := by
  induction k with
  | zero =>
      rw [List.take_zero, total_nil, below]
      simp
  | succ k inductionHypothesis =>
      have inside : k < h.buckets.toList.length := by
        rw [Vector.length_toList]
        exact small
      rw [List.take_add_one, total_append, inductionHypothesis (by omega), below_succ,
        ← tallies.buckets k (by omega), List.getElem?_eq_getElem inside]
      simp

theorem below_all (samples : List UInt64) : below samples 64 = samples.length := by
  rw [below, List.countP_eq_length]
  exact fun ns _ => decide_eq_true (bucketOf_lt ns)

theorem Tallies.total {h : LatencyHistogram} {samples : List UInt64} (tallies : Tallies h samples) :
    total h.buckets.toList = samples.length := by
  have all := tallies.total_take (k := 64) le_rfl
  rwa [List.take_of_length_le (by rw [Vector.length_toList]), below_all] at all

/-! ### The median -/

/-- The value range of a bucket. -/
def InBucket (i v : Nat) : Prop := if i = 0 then v ≤ 1 else 2 ^ i ≤ v ∧ v < 2 ^ (i + 1)

theorem inBucket_iff {i v : Nat} : InBucket i v ↔ v.log2 = i := by
  by_cases zero : v = 0
  · subst zero
    cases i <;> simp [InBucket]
  · rw [Nat.log2_eq_iff zero, InBucket]
    split
    · rename_i lowest
      subst lowest
      omega
    · exact Iff.rfl

/-- A midpoint lies in its bucket, the one of the lowest bucket in the bucket above it. -/
theorem log2_midpoint (k : Nat) : (2 ^ k + 2 ^ (k - 1)).log2 = max k 1 := by
  cases k with
  | zero => decide
  | succ k =>
      have double : 2 ^ (k + 1) = 2 * 2 ^ k := by rw [Nat.pow_succ, Nat.mul_comm]
      have more : 2 ^ (k + 1 + 1) = 4 * 2 ^ k := by
        rw [Nat.pow_succ, double]
        omega
      have pos := Nat.two_pow_pos k
      rw [Nat.max_eq_left (by omega), Nat.add_sub_cancel, Nat.log2_eq_iff (by omega)]
      omega

/-- The reported value lies in the range of a sample's bucket, at least half of the samples, rounded
    down, are in that bucket or a lower one, and at most as many are in lower buckets. -/
def MedianInData (samples : List UInt64) (p50Ns : UInt64) : Prop :=
  ∃ x ∈ samples, InBucket (bucketOf x) p50Ns.toNat ∧
    samples.length / 2 ≤ below samples (bucketOf x + 1) ∧
    below samples (bucketOf x) ≤ samples.length / 2

/-- Fewer than half of the samples, rounded down, are 0 or 1, or exactly as many are and some sample
    is 2 or 3. -/
def MedianAboveLowest (samples : List UInt64) : Prop :=
  below samples 1 < samples.length / 2 ∨
    below samples 1 = samples.length / 2 ∧ ∃ x ∈ samples, bucketOf x = 1

theorem below_mono (samples : List UInt64) {j k : Nat} (le : j ≤ k) :
    below samples j ≤ below samples k := by
  refine List.countP_mono_left fun ns _ lower => ?_
  exact decide_eq_true (Nat.lt_of_lt_of_le (of_decide_eq_true lower) le)

/-- Some sample is in a bucket with which the count grows. -/
theorem exists_of_below_lt {samples : List UInt64} {k : Nat}
    (grows : below samples k < below samples (k + 1)) : ∃ x ∈ samples, bucketOf x = k := by
  rw [below_succ] at grows
  obtain ⟨x, member, here⟩ := List.countP_pos_iff.1
    (show 0 < samples.countP (bucketOf · = k) by omega)
  exact ⟨x, member, of_decide_eq_true here⟩

/-- Which bucket the scan stops in decides whether the median belongs to the data. -/
theorem medianInData_iff {samples : List UInt64} {p50Ns : UInt64} {k : Nat}
    (value : p50Ns.toNat = 2 ^ k + 2 ^ (k - 1))
    (reached : samples.length / 2 ≤ below samples (k + 1))
    (first : k = 0 ∨ below samples k < samples.length / 2) :
    MedianInData samples p50Ns ↔ MedianAboveLowest samples := by
  have bucket : ∀ i, InBucket i p50Ns.toNat ↔ max k 1 = i := by
    intro i
    rw [inBucket_iff, value, log2_midpoint]
  rcases Nat.eq_zero_or_pos k with rfl | above
  · -- The lowest bucket: what is reported lies in the next one.
    have up := below_mono samples (j := 1) (k := 2) (by decide)
    constructor
    · rintro ⟨x, member, inside, _, lower⟩
      have next : bucketOf x = 1 := ((bucket _).1 inside).symm
      rw [next] at lower
      exact .inr ⟨Nat.le_antisymm lower reached, x, member, next⟩
    · rintro (fewer | ⟨half, x, member, next⟩)
      · exact absurd reached (Nat.not_le.2 fewer)
      · refine ⟨x, member, (bucket _).2 next.symm, ?_, ?_⟩
        · rw [next]
          exact reached.trans up
        · rw [next]
          exact half.le
  · have before : below samples k < samples.length / 2 := first.resolve_left above.ne'
    have fewer : below samples 1 < samples.length / 2 :=
      Nat.lt_of_le_of_lt (below_mono samples above) before
    obtain ⟨x, member, here⟩ := exists_of_below_lt (Nat.lt_of_lt_of_le before reached)
    refine iff_of_true ⟨x, member, (bucket _).2 ?_, ?_, ?_⟩ (.inl fewer)
    · rw [here]
      omega
    · rw [here]
      exact reached
    · rw [here]
      exact before.le

/-- After any non-empty sequence of fewer than `2 ^ 53` samples the reported median belongs to the data
    exactly if the median does not fall into the lowest bucket. -/
theorem median_in_data_iff (overflowChecks : Bool) {samples : List UInt64} (nonempty : samples ≠ [])
    (few : samples.length < 2 ^ 53) :
    ∃ snap, snapshotAfter overflowChecks samples = some snap ∧
      (MedianInData samples snap.p50Ns ↔ MedianAboveLowest samples) := by
  obtain ⟨h, recorded, tallies⟩ := @tallies_of_samples .new [] samples tallies_new
    (by rw [List.nil_append]; omega)
  rw [List.nil_append] at tallies
  have all : h.buckets.toList.length = 64 := Vector.length_toList
  have fits : total h.buckets.toList < 2 ^ 64 := by
    rw [tallies.total]
    omega
  have half : (target 0.50 h.count).toNat = samples.length / 2 := by
    have same : (0.50 : Float) = 0.5 := by decide +kernel
    rw [target, same, Binary64.toUInt64_mul_half (by rw [tallies.count]; exact few), tallies.count]
  have nonzero : h.count ≠ 0 := by
    intro zero
    have none := tallies.count
    rw [zero, UInt64.toNat_zero] at none
    exact nonempty (List.length_eq_zero_iff.1 none.symm)
  obtain ⟨k, p50Ns, found, value, stops⟩ :=
    percentile_stops overflowChecks h.maxNs nonzero all fits
      (by rw [half, tallies.total]; omega)
  obtain ⟨p99Ns, found'⟩ := percentile_isSome overflowChecks 0.99 h.count h.maxNs all fits
  obtain ⟨p999Ns, found''⟩ := percentile_isSome overflowChecks 0.999 h.count h.maxNs all fits
  have inside : k < 64 := all ▸ stops.inside
  refine ⟨⟨h.count, meanNs h.sumNs h.count, p50Ns, p99Ns, p999Ns, h.maxNs⟩, ?_,
    medianInData_iff value ?_ ?_⟩
  · rw [snapshotAfter, recorded, Option.bind_eq_bind, Option.bind_some, snapshot, found,
      Option.bind_eq_bind, Option.bind_some, found', Option.bind_some, found'', Option.bind_some]
  · rw [← tallies.total_take (by omega), ← half]
    exact stops.reached
  · rw [← tallies.total_take (k := k) (by omega), ← half]
    exact stops.first

/-- Three samples, none of them 0 or 1. -/
theorem median_of_three_samples : MedianAboveLowest [3, 900, 700] ∧
    ∃ snap, snapshotAfter true [3, 900, 700] = some snap ∧
      MedianInData [3, 900, 700] snap.p50Ns := by
  have above : MedianAboveLowest [3, 900, 700] := .inl (by decide)
  obtain ⟨snap, found, inData⟩ :=
    median_in_data_iff true (List.cons_ne_nil 3 [900, 700]) (by decide)
  exact ⟨above, snap, found, inData.2 above⟩

/-- A single sample of 1000 ns is reported as 2 ns. -/
theorem median_not_in_data : ¬ ∀ (overflowChecks : Bool) (samples : List UInt64)
    (snap : LatencySnapshot), samples ≠ [] → samples.length < 2 ^ 53 →
      snapshotAfter overflowChecks samples = some snap → MedianInData samples snap.p50Ns := by
  intro claimed
  have reported : snapshotAfter true [1000] = some ⟨1, 1000, 2, 2, 2, 1000⟩ := by decide +kernel
  obtain ⟨x, member, inside, _⟩ := claimed true [1000] _ (by decide) (by decide) reported
  rw [List.mem_singleton.1 member] at inside
  exact absurd (inBucket_iff.1 inside) (by decide)

end AetherFlow.Metrics
