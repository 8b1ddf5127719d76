/-
Module: AetherFlow.Metrics.Buckets
Purpose: What the functions of the histogram compute. Every sample has a bucket, the one of its binary
  logarithm; the midpoint of a bucket does not overflow; and a scan whose buckets add up to at least
  its target stops in the first bucket that reaches it. With larger targets it stops later.
Trusted boundary: none
Main exports: bucketOf, bucketIndex_eq, bucketOf_lt, midpoint_eq, total, StopsIn, StopsIn.mono,
  scan_stops, percentile_isSome, percentile_stops
-/
import Mathlib.Algebra.Order.Ring.Nat
import Mathlib.Algebra.BigOperators.Group.List.Basic
import AetherFlow.Metrics.Histogram

namespace AetherFlow.Metrics

/-! ### Buckets of samples -/

/-- The bucket of a sample: 0 for 0 and 1, and `i` for the samples from `2 ^ i` on, below `2 ^ (i + 1)`. -/
def bucketOf (ns : UInt64) : Nat := ns.toNat.log2

@[simp] theorem bucketOf_zero : bucketOf 0 = 0 := rfl

theorem bucketOf_lt (ns : UInt64) : bucketOf ns < 64 := by
  by_cases zero : ns.toNat = 0
  · rw [bucketOf, zero]
    decide
  · exact (Nat.log2_lt zero).2 ns.toNat_lt

/-- The computation of the bucket does not underflow, and gives the binary logarithm. -/
theorem bucketIndex_eq (ns : UInt64) : bucketIndex ns = some (bucketOf ns) := by
  by_cases zero : ns = 0
  · subst zero
    rfl
  · have nonzero : ns.toBitVec ≠ 0#64 := fun same => zero (UInt64.toBitVec_inj.1 same)
    have lower : 2 ^ (63 - leadingZeros ns) ≤ ns.toNat :=
      BitVec.two_pow_sub_clz_le_toNat_of_ne_zero (by decide) nonzero
    have upper : ns.toNat < 2 ^ (64 - leadingZeros ns) := BitVec.toNat_lt_two_pow_sub_clz
    have small : leadingZeros ns < 64 := BitVec.clz_lt_iff_ne_zero.2 nonzero
    have log2 : bucketOf ns = 63 - leadingZeros ns := by
      rw [bucketOf, Nat.log2_eq_iff (fun never => zero (UInt64.toNat_inj.1 never))]
      have next : 63 - leadingZeros ns + 1 = 64 - leadingZeros ns := by omega
      rw [next]
      exact ⟨lower, upper⟩
    rw [bucketIndex, if_neg zero, if_pos (by omega), log2]

theorem addBucket_eq (h : LatencyHistogram) {idx : Nat} (small : idx < 64) :
    h.addBucket idx = some { h with buckets := h.buckets.set idx (h.buckets[idx] + 1) } :=
  dif_pos small

theorem record_of_higher {h h₁ : LatencyHistogram} {ns : UInt64}
    (added : h.addBucket (bucketOf ns) = some h₁) (higher : h₁.maxNs < ns) :
    record h ns = some ((h₁.addCount.addSum ns).storeMax ns) := by
  rw [record, bucketIndex_eq, Option.bind_eq_bind, Option.bind_some, added]
  exact if_pos higher

theorem record_of_not_higher {h h₁ : LatencyHistogram} {ns : UInt64}
    (added : h.addBucket (bucketOf ns) = some h₁) (lower : ¬ h₁.maxNs < ns) :
    record h ns = some (h₁.addCount.addSum ns) := by
  rw [record, bucketIndex_eq, Option.bind_eq_bind, Option.bind_some, added]
  exact if_neg lower

/-- `record` adds one to the bucket of its sample and to the count. -/
theorem record_eq {h h₁ : LatencyHistogram} {ns : UInt64}
    (added : h.addBucket (bucketOf ns) = some h₁) :
    ∃ h', record h ns = some h' ∧ h'.buckets = h₁.buckets ∧ h'.count = h₁.count + 1 := by
  by_cases higher : h₁.maxNs < ns
  · exact ⟨_, record_of_higher added higher, rfl, rfl⟩
  · exact ⟨_, record_of_not_higher added higher, rfl, rfl⟩

/-! ### Midpoints -/

theorem shl_eq {i : Nat} (small : i < 64) : ∃ v, shl i = some v ∧ v.toNat = 2 ^ i := by
  refine ⟨1 <<< UInt64.ofNat i, if_pos small, ?_⟩
  have bound : 2 ^ i < 2 ^ 64 := Nat.pow_lt_pow_right (by decide) small
  have word : i % 2 ^ 64 % 64 = i := by omega
  rw [UInt64.toNat_shiftLeft, UInt64.toNat_ofNat', word, Nat.shiftLeft_eq, UInt64.toNat_one,
    Nat.one_mul, Nat.mod_eq_of_lt bound]

/-- The two powers of a midpoint add up to less than `2 ^ 64`. -/
theorem midpoint_lt {i : Nat} (small : i < 64) : 2 ^ i + 2 ^ (i - 1) < 2 ^ 64 := by
  have first : 2 ^ i ≤ 2 ^ 63 := Nat.pow_le_pow_right (by decide) (by omega)
  have second : 2 ^ (i - 1) ≤ 2 ^ 62 := Nat.pow_le_pow_right (by decide) (by omega)
  omega

/-- In every bucket both shifts are in range and the sum does not saturate. -/
theorem midpoint_eq {i : Nat} (small : i < 64) :
    ∃ v, midpoint i = some v ∧ v.toNat = 2 ^ i + 2 ^ (i - 1) := by
  obtain ⟨lower, shifted, value⟩ := shl_eq small
  obtain ⟨half, shifted', value'⟩ := shl_eq (i := i - 1) (by omega)
  have fits : lower.toNat + half.toNat < 2 ^ 64 := by
    rw [value, value']
    exact midpoint_lt small
  refine ⟨lower + half, ?_, ?_⟩
  · rw [midpoint, shifted, shifted']
    exact congrArg some (if_pos fits)
  · rw [UInt64.toNat_add, Nat.mod_eq_of_lt fits, value, value']

theorem midpoint_mono {i j : Nat} (le : i ≤ j) : 2 ^ i + 2 ^ (i - 1) ≤ 2 ^ j + 2 ^ (j - 1) :=
  Nat.add_le_add (Nat.pow_le_pow_right (by decide) le)
    (Nat.pow_le_pow_right (by decide) (Nat.sub_le_sub_right le 1))

/-! ### The scan -/

/-- The number of samples in these buckets. -/
def total (counts : List UInt64) : Nat := (counts.map UInt64.toNat).sum

@[simp] theorem total_nil : total [] = 0 := rfl

@[simp] theorem total_cons (c : UInt64) (counts : List UInt64) :
    total (c :: counts) = c.toNat + total counts := List.sum_cons

@[simp] theorem total_append (counts more : List UInt64) :
    total (counts ++ more) = total counts + total more := by
  rw [total, List.map_append, List.sum_append]
  rfl

theorem total_take_le (counts : List UInt64) (k : Nat) : total (counts.take k) ≤ total counts := by
  conv_rhs => rw [← List.take_append_drop k counts, total_append]
  exact Nat.le_add_right _ _

theorem total_take_mono (counts : List UInt64) {j k : Nat} (le : j ≤ k) :
    total (counts.take j) ≤ total (counts.take k) := by
  have split : counts.take j = (counts.take k).take j := by rw [List.take_take, Nat.min_eq_left le]
  rw [split]
  exact total_take_le _ _

/-- Bucket `k` is the first one with which the buckets reach `goal`. -/
structure StopsIn (counts : List UInt64) (goal k : Nat) : Prop where
  inside : k < counts.length
  reached : goal ≤ total (counts.take (k + 1))
  first : k = 0 ∨ total (counts.take k) < goal

/-- A larger goal is reached later. -/
theorem StopsIn.mono {counts : List UInt64} {goal goal' k k' : Nat} (le : goal ≤ goal')
    (stops : StopsIn counts goal k) (stops' : StopsIn counts goal' k') : k ≤ k' := by
  rcases stops.first with rfl | before
  · exact Nat.zero_le _
  · by_contra later
    have := total_take_mono counts (j := k' + 1) (k := k) (by omega)
    have := stops'.reached
    omega

/-- The scan stops with the midpoint of the bucket in which the running sum reaches the target. -/
theorem scan_stops_from (overflowChecks : Bool) {goal acc : UInt64} {i : Nat} {counts : List UInt64}
    (nonempty : counts ≠ []) (room : i + counts.length ≤ 64)
    (fits : acc.toNat + total counts < 2 ^ 64) (covers : goal.toNat ≤ acc.toNat + total counts) :
    ∃ k ns, scan overflowChecks goal i acc counts = .stopped (i + k) ns ∧
      ns.toNat = 2 ^ (i + k) + 2 ^ (i + k - 1) ∧ k < counts.length ∧
      goal.toNat ≤ acc.toNat + total (counts.take (k + 1)) ∧
      (k = 0 ∨ acc.toNat + total (counts.take k) < goal.toNat) := by
  induction counts generalizing i acc with
  | nil => exact absurd rfl nonempty
  | cons c counts inductionHypothesis =>
      rw [total_cons] at fits covers
      rw [List.length_cons] at room
      have sum : (acc + c).toNat = acc.toNat + c.toNat := by
        rw [UInt64.toNat_add, Nat.mod_eq_of_lt (by omega)]
      have quiet : ¬ (overflowChecks = true ∧ 2 ^ 64 ≤ acc.toNat + c.toNat) := by omega
      by_cases enough : goal ≤ acc + c
      · obtain ⟨ns, middle, value⟩ := midpoint_eq (i := i) (by omega)
        refine ⟨0, ns, ?_, value, Nat.succ_pos _, ?_, .inl rfl⟩
        · rw [scan, if_neg quiet, if_pos enough, middle]
          rfl
        · simpa [sum] using UInt64.le_iff_toNat_le.1 enough
      · have short : acc.toNat + c.toNat < goal.toNat := by
          rw [← sum]
          exact UInt64.lt_iff_toNat_lt.1 (UInt64.not_le.1 enough)
        have rest : counts ≠ [] := by
          rintro rfl
          simp only [total_nil] at covers
          omega
        obtain ⟨k, ns, stopped, value, inside, reached, first⟩ :=
          @inductionHypothesis (acc + c) (i + 1) rest (by omega) (by omega) (by omega)
        have place : i + 1 + k = i + (k + 1) := by omega
        refine ⟨k + 1, ns, ?_, ?_, Nat.succ_lt_succ inside, ?_, .inr ?_⟩
        · rw [scan, if_neg quiet, if_neg enough, stopped, place]
        · rw [value, place]
        · rw [List.take_succ_cons, total_cons]
          omega
        · rw [List.take_succ_cons, total_cons]
          rcases first with rfl | before
          · simpa using short
          · omega

/-- Without an overflow of the running sum the scan does not panic. -/
theorem scan_ne_panicked (overflowChecks : Bool) (goal acc : UInt64) {i : Nat} {counts : List UInt64}
    (room : i + counts.length ≤ 64) (fits : acc.toNat + total counts < 2 ^ 64) :
    scan overflowChecks goal i acc counts ≠ .panicked := by
  induction counts generalizing i acc with
  | nil => exact fun never => by cases never
  | cons c counts inductionHypothesis =>
      rw [total_cons] at fits
      rw [List.length_cons] at room
      have sum : (acc + c).toNat = acc.toNat + c.toNat := by
        rw [UInt64.toNat_add, Nat.mod_eq_of_lt (by omega)]
      have quiet : ¬ (overflowChecks = true ∧ 2 ^ 64 ≤ acc.toNat + c.toNat) := by omega
      rw [scan, if_neg quiet]
      split
      · obtain ⟨ns, middle, _⟩ := midpoint_eq (i := i) (by omega)
        rw [middle]
        exact fun never => by cases never
      · exact inductionHypothesis (acc + c) (by omega) (by omega)

/-- The scan of a whole snapshot. -/
theorem scan_stops (overflowChecks : Bool) {goal : UInt64} {counts : List UInt64}
    (all : counts.length = 64) (fits : total counts < 2 ^ 64)
    (covers : goal.toNat ≤ total counts) :
    ∃ k ns, scan overflowChecks goal 0 0 counts = .stopped k ns ∧
      ns.toNat = 2 ^ k + 2 ^ (k - 1) ∧ StopsIn counts goal.toNat k := by
  have nonempty : counts ≠ [] := by
    rintro rfl
    cases all
  obtain ⟨k, ns, stopped, value, inside, reached, first⟩ :=
    @scan_stops_from overflowChecks goal 0 0 counts nonempty (by omega) (by simpa using fits)
      (by simpa using covers)
  simp only [Nat.zero_add] at stopped value
  simp only [UInt64.toNat_zero, Nat.zero_add] at reached first
  exact ⟨k, ns, stopped, value, inside, reached, first⟩

/-- A percentile is computed without a panic. -/
theorem percentile_isSome (overflowChecks : Bool) (q : Float) (count maxNs : UInt64)
    {counts : List UInt64} (all : counts.length = 64) (fits : total counts < 2 ^ 64) :
    ∃ ns, percentile overflowChecks q count counts maxNs = some ns := by
  have quiet : scan overflowChecks (target q count) 0 0 counts ≠ .panicked :=
    scan_ne_panicked overflowChecks (target q count) 0 (by omega) (by simpa using fits)
  unfold percentile
  split
  · exact ⟨0, rfl⟩
  · split
    · exact ⟨_, rfl⟩
    · exact ⟨maxNs, rfl⟩
    · rename_i panicked
      exact absurd panicked quiet

/-- A percentile whose target the buckets reach is the midpoint of the bucket that reaches it. -/
theorem percentile_stops (overflowChecks : Bool) {q : Float} {count : UInt64} (maxNs : UInt64)
    {counts : List UInt64} (nonzero : count ≠ 0) (all : counts.length = 64)
    (fits : total counts < 2 ^ 64) (covers : (target q count).toNat ≤ total counts) :
    ∃ k ns, percentile overflowChecks q count counts maxNs = some ns ∧
      ns.toNat = 2 ^ k + 2 ^ (k - 1) ∧ StopsIn counts (target q count).toNat k := by
  obtain ⟨k, ns, stopped, value, stops⟩ := scan_stops overflowChecks all fits covers
  refine ⟨k, ns, ?_, value, stops⟩
  rw [percentile, if_neg nonzero, stopped]

end AetherFlow.Metrics
