/-
Module: AetherFlow.Metrics.Snapshot
Purpose: Snapshots that are taken while samples are recorded. Alone, the atomic steps of a call compute
  the function `record` or `snapshot`. In any order with the steps of the writer, what a snapshot has
  read of the buckets and what is in the rest of them together cover the count it read, because a
  sample is in its bucket before it is counted and buckets only grow; so its scans stop, and they stop
  in the order of their targets. After `2 ^ 64` samples in one bucket the bucket starts again from zero.
Trusted boundary: none
Main exports: record_alone, snapshot_alone, OrderedTargets, ReaderInv, SnapshotInv, snapshotInv_step,
  Coherent, coherent_of_run, snapshot_loses_samples
-/
import Mathlib.Algebra.Order.BigOperators.Group.List
import AetherFlow.Metrics.Buckets

namespace AetherFlow.Metrics

open Transition

/-! ### The steps of a call alone -/

section Alone

variable {overflowChecks : Bool}

/-- The steps of `record`, taken without interruption, compute it. -/
theorem record_alone {s : Instrumented} (idle : s.writer = .idle) (ns : UInt64) :
    ∃ h, record s.histogram ns = some h ∧ Reach (Instrumented.step overflowChecks) Free s
      { s with histogram := h, samples := s.samples ++ [ns] } := by
  obtain ⟨h, _, readers, samples⟩ := s
  subst idle
  obtain ⟨h₁, added⟩ : ∃ h₁, h.addBucket (bucketOf ns) = some h₁ :=
    ⟨_, addBucket_eq h (bucketOf_lt ns)⟩
  by_cases higher : h₁.maxNs < ns
  · refine ⟨_, record_of_higher added higher,
      @reach_of_exec _ _ _ [.record ns, .write, .write, .write, .write, .write] _ _ ?_⟩
    simp [exec, Instrumented.step, Instrumented.begin, bucketIndex_eq, Writer.step, added,
      LatencyHistogram.addCount, LatencyHistogram.addSum, higher]
  · refine ⟨_, record_of_not_higher added higher,
      @reach_of_exec _ _ _ [.record ns, .write, .write, .write, .write] _ _ ?_⟩
    simp [exec, Instrumented.step, Instrumented.begin, bucketIndex_eq, Writer.step, added,
      LatencyHistogram.addCount, LatencyHistogram.addSum, higher]

/-- A call of `snapshot` over a histogram that does not change. -/
def Reads (overflowChecks : Bool) (h : LatencyHistogram) : SnapshotPc → SnapshotPc → Prop :=
  Reach (fun pc (_ : Unit) => pc.step overflowChecks h) Free

theorem Reads.next {h : LatencyHistogram} {pc pc' pc'' : SnapshotPc}
    (stepped : pc.step overflowChecks h = some pc') (later : Reads overflowChecks h pc' pc'') :
    Reads overflowChecks h pc pc'' :=
  (Reach.single (a := ()) trivial stepped).trans later

/-- These steps are steps of the system. -/
theorem Reads.alone {s : Instrumented} {i : Nat} {pc pc' : SnapshotPc}
    (reads : Reads overflowChecks s.histogram pc pc') (reader : s.readers[i]? = some pc) :
    Reach (Instrumented.step overflowChecks) Free s { s with readers := s.readers.set i pc' } := by
  induction reads with
  | refl =>
      obtain ⟨inside, here⟩ := List.getElem?_eq_some_iff.1 reader
      rw [← here, List.set_getElem_self inside]
      exact Reach.refl _
  | @tail pc₁ pc₂ _ last inductionHypothesis =>
      obtain ⟨_, _, moved⟩ := last
      have inside : i < s.readers.length := (List.getElem?_eq_some_iff.1 reader).1
      refine inductionHypothesis.tail (a := .read i) trivial ?_
      simp [Instrumented.step, List.getElem?_set_self inside, moved]

/-- It loads one more bucket. -/
theorem step_loadBucket (h : LatencyHistogram) (count : UInt64) {counts : List UInt64}
    (small : counts.length < 64) (read : counts = h.buckets.toList.take counts.length) :
    (SnapshotPc.loadBucket count counts).step overflowChecks h =
      some (if counts.length + 1 < 64
        then .loadBucket count (h.buckets.toList.take (counts.length + 1))
        else .loadSum count (h.buckets.toList.take (counts.length + 1))) := by
  have inside : counts.length < h.buckets.toList.length := by
    rw [Vector.length_toList]
    exact small
  have joined : counts ++ [h.buckets[counts.length]] = h.buckets.toList.take (counts.length + 1) := by
    rw [List.take_succ_eq_append_getElem inside, ← read, Vector.getElem_toList]
  have longer : (h.buckets.toList.take (counts.length + 1)).length = counts.length + 1 := by
    rw [List.length_take, Nat.min_eq_left inside]
  rw [SnapshotPc.step, dif_pos small]
  simp only [joined, longer]

/-- It loads one bucket after the other. -/
theorem reads_buckets (h : LatencyHistogram) (count : UInt64) {counts : List UInt64}
    (small : counts.length < 64) (read : counts = h.buckets.toList.take counts.length) :
    Reads overflowChecks h (.loadBucket count counts) (.loadSum count h.buckets.toList) := by
  have all : h.buckets.toList.length = 64 := Vector.length_toList
  have stepped := @step_loadBucket overflowChecks h count counts small read
  by_cases more : counts.length + 1 < 64
  · rw [if_pos more] at stepped
    have longer : (h.buckets.toList.take (counts.length + 1)).length = counts.length + 1 := by
      rw [List.length_take, all]
      omega
    refine Reads.next stepped (reads_buckets h count ?_ ?_)
    · rw [longer]
      exact more
    · rw [longer]
  · rw [if_neg more, List.take_of_length_le (by omega)] at stepped
    exact Reads.next stepped (Reach.refl _)
termination_by 64 - counts.length
decreasing_by omega

/-- The steps of `snapshot`, taken without interruption, compute it. -/
theorem reads_all (h : LatencyHistogram) :
    Reads overflowChecks h .loadCount
      (match snapshot overflowChecks h with
        | some snap => .returned snap
        | none => .panicked) := by
  refine Reads.next rfl ((@reads_buckets _ h h.count [] (by decide) rfl).trans ?_)
  refine Reads.next rfl ?_
  rw [snapshot]
  cases p50 : percentile overflowChecks 0.50 h.count h.buckets.toList h.maxNs with
  | none => exact Reads.next (by rw [SnapshotPc.step, p50]; rfl) (Reach.refl _)
  | some p50Ns =>
      refine Reads.next (by rw [SnapshotPc.step, p50]) ?_
      cases p99 : percentile overflowChecks 0.99 h.count h.buckets.toList h.maxNs with
      | none => exact Reads.next (by rw [SnapshotPc.step, p99]; rfl) (Reach.refl _)
      | some p99Ns =>
          refine Reads.next (by rw [SnapshotPc.step, p99]) ?_
          cases p999 : percentile overflowChecks 0.999 h.count h.buckets.toList h.maxNs with
          | none => exact Reads.next (by rw [SnapshotPc.step, p999]; rfl) (Reach.refl _)
          | some p999Ns => exact Reads.next (by rw [SnapshotPc.step, p999]) (Reads.next rfl (Reach.refl _))

/-- A call of `snapshot` over a quiet histogram returns what the function does. -/
theorem snapshot_alone {s : Instrumented} {i : Nat} (reader : s.readers[i]? = some .loadCount) :
    Reach (Instrumented.step overflowChecks) Free s
      { s with readers := s.readers.set i (match snapshot overflowChecks s.histogram with
        | some snap => .returned snap
        | none => .panicked) } :=
  (reads_all s.histogram).alone reader

end Alone

/-! ### While samples are recorded -/

/-- The rounded targets are ordered and none exceeds the count. -/
def OrderedTargets (count : UInt64) : Prop :=
  target 0.50 count ≤ target 0.99 count ∧ target 0.99 count ≤ target 0.999 count ∧
    target 0.999 count ≤ count

instance (count : UInt64) : Decidable (OrderedTargets count) := by
  unfold OrderedTargets
  infer_instance

/-- The samples begun that are not yet in their bucket. -/
def Writer.unbucketed : Writer → Nat
  | .addBucket _ _ => 1
  | _ => 0

/-- The samples begun that are not yet counted. -/
def Writer.uncounted : Writer → Nat
  | .addBucket _ _ | .addCount _ => 1
  | _ => 0

theorem Writer.unbucketed_le (writer : Writer) : writer.unbucketed ≤ writer.uncounted := by
  cases writer <;> simp [unbucketed, uncounted]

/-- The count and the buckets of a call that has read them all. -/
structure Loaded (count : UInt64) (counts : List UInt64) : Prop where
  all : counts.length = 64
  covers : count.toNat ≤ total counts
  fits : total counts < 2 ^ 64

/-- `pct(q)` has returned `ns`, whatever `max_ns` was. -/
def Reports (overflowChecks : Bool) (q : Float) (count : UInt64) (counts : List UInt64)
    (ns : UInt64) : Prop :=
  ∃ maxNs, percentile overflowChecks q count counts maxNs = some ns

/-- What a call of `snapshot` knows at each of its steps. Of the buckets it has read a part and the rest
    as it is now; together they cover the count. -/
def ReaderInv (overflowChecks : Bool) (h : LatencyHistogram) : SnapshotPc → Prop
  | .loadCount => True
  | .loadBucket count counts =>
      counts.length < 64 ∧
        count.toNat ≤ total counts + total (h.buckets.toList.drop counts.length) ∧
        total counts ≤ total (h.buckets.toList.take counts.length)
  | .loadSum count counts | .p50 count counts _ => Loaded count counts
  | .p99 count counts _ p50Ns =>
      Loaded count counts ∧ Reports overflowChecks 0.50 count counts p50Ns
  | .p999 count counts _ p50Ns p99Ns =>
      Loaded count counts ∧ Reports overflowChecks 0.50 count counts p50Ns ∧
        Reports overflowChecks 0.99 count counts p99Ns
  | .loadMax count counts _ p50Ns p99Ns p999Ns =>
      Loaded count counts ∧ Reports overflowChecks 0.50 count counts p50Ns ∧
        Reports overflowChecks 0.99 count counts p99Ns ∧
        Reports overflowChecks 0.999 count counts p999Ns
  | .returned snap =>
      OrderedTargets snap.count → snap.p50Ns ≤ snap.p99Ns ∧ snap.p99Ns ≤ snap.p999Ns
  | .panicked => False

/-- The buckets and the count hold every sample begun, up to the one that is being recorded. -/
structure SnapshotInv (overflowChecks : Bool) (s : Instrumented) : Prop where
  writer : s.writer ≠ .panicked
  index : ∀ ns idx, s.writer = .addBucket ns idx → idx < 64
  buckets : total s.histogram.buckets.toList + s.writer.unbucketed = s.samples.length
  count : s.histogram.count.toNat + s.writer.uncounted = s.samples.length
  readers : ∀ pc ∈ s.readers, ReaderInv overflowChecks s.histogram pc

section Interleaved

variable {overflowChecks : Bool} {h h' : LatencyHistogram} {count : UInt64} {counts : List UInt64}

/-- Ordered targets are reached in their order. -/
theorem Loaded.stops (loaded : Loaded count counts) {q : Float} {ns : UInt64}
    (within : target q count ≤ count) (nonzero : count ≠ 0)
    (reported : Reports overflowChecks q count counts ns) :
    ∃ k, ns.toNat = 2 ^ k + 2 ^ (k - 1) ∧ StopsIn counts (target q count).toNat k := by
  obtain ⟨maxNs, reported⟩ := reported
  obtain ⟨k, ns', stopped, value, stops⟩ :=
    percentile_stops overflowChecks maxNs nonzero loaded.all loaded.fits
      ((UInt64.le_iff_toNat_le.1 within).trans loaded.covers)
  cases reported.symm.trans stopped
  exact ⟨k, value, stops⟩

theorem Loaded.ordered (loaded : Loaded count counts) {q q' : Float} {ns ns' : UInt64}
    (le : target q count ≤ target q' count) (within : target q' count ≤ count)
    (reported : Reports overflowChecks q count counts ns)
    (reported' : Reports overflowChecks q' count counts ns') : ns ≤ ns' := by
  by_cases nonzero : count = 0
  · obtain ⟨_, reported⟩ := reported
    obtain ⟨_, reported'⟩ := reported'
    rw [percentile, if_pos nonzero] at reported reported'
    cases reported
    cases reported'
    exact UInt64.le_refl 0
  · obtain ⟨k, value, stops⟩ := loaded.stops (UInt64.le_trans le within) nonzero reported
    obtain ⟨k', value', stops'⟩ := loaded.stops within nonzero reported'
    have later := stops.mono (UInt64.le_iff_toNat_le.1 le) stops'
    rw [UInt64.le_iff_toNat_le, value, value']
    exact midpoint_mono later

/-- No bucket has lost a sample. -/
def Grows (h h' : LatencyHistogram) : Prop :=
  List.Forall₂ (fun c c' : UInt64 => c.toNat ≤ c'.toNat) h.buckets.toList h'.buckets.toList

theorem total_le_of_forall₂ {counts counts' : List UInt64}
    (grows : List.Forall₂ (fun c c' : UInt64 => c.toNat ≤ c'.toNat) counts counts') :
    total counts ≤ total counts' := by
  induction grows with
  | nil => exact le_rfl
  | cons le _ inductionHypothesis =>
      rw [total_cons, total_cons]
      exact Nat.add_le_add le inductionHypothesis

theorem ReaderInv.grows {pc : SnapshotPc} (grows : Grows h h')
    (holds : ReaderInv overflowChecks h pc) : ReaderInv overflowChecks h' pc := by
  cases pc with
  | loadBucket count counts =>
      obtain ⟨small, covers, taken⟩ := holds
      have rest := total_le_of_forall₂ (List.forall₂_drop counts.length grows)
      have front := total_le_of_forall₂ (List.forall₂_take counts.length grows)
      exact ⟨small, by omega, by omega⟩
  | loadCount | loadSum | p50 | p99 | p999 | loadMax | returned | panicked => exact holds

theorem Grows.refl (h : LatencyHistogram) : Grows h h :=
  List.forall₂_same.2 fun _ _ => le_rfl

theorem toNat_le_total {c : UInt64} (member : c ∈ counts) : c.toNat ≤ total counts :=
  List.single_le_sum (fun _ _ => Nat.zero_le _) _ (List.mem_map_of_mem member)

/-- Replacing a count by a larger one. -/
theorem forall₂_set {i : Nat} (inside : i < counts.length) {c : UInt64}
    (larger : counts[i].toNat ≤ c.toNat) :
    List.Forall₂ (fun c c' : UInt64 => c.toNat ≤ c'.toNat) counts (counts.set i c) ∧
      total (counts.set i c) + counts[i].toNat = total counts + c.toNat := by
  induction counts generalizing i with
  | nil => exact absurd inside (Nat.not_lt_zero i)
  | cons first rest inductionHypothesis =>
      cases i with
      | zero =>
          rw [List.set_cons_zero, List.getElem_cons_zero, total_cons, total_cons]
          exact ⟨.cons larger (List.forall₂_same.2 fun _ _ => le_rfl), by omega⟩
      | succ i =>
          simp only [List.getElem_cons_succ] at larger
          obtain ⟨grows, sum⟩ := inductionHypothesis (Nat.lt_of_succ_lt_succ inside) larger
          rw [List.set_cons_succ, List.getElem_cons_succ, total_cons, total_cons]
          exact ⟨.cons le_rfl grows, by omega⟩

/-- As long as fewer than `2 ^ 64` samples are in the buckets, one more does not wrap any of them. -/
theorem addBucket_grows {idx : Nat} (small : idx < 64) (few : total h.buckets.toList + 1 < 2 ^ 64) :
    ∃ h', h.addBucket idx = some h' ∧ Grows h h' ∧
      total h'.buckets.toList = total h.buckets.toList + 1 ∧ h'.count = h.count := by
  have inside : idx < h.buckets.toList.length := by
    rw [Vector.length_toList]
    exact small
  have bound := toNat_le_total (List.getElem_mem inside)
  have next : (h.buckets.toList[idx] + 1).toNat = h.buckets.toList[idx].toNat + 1 := by
    rw [UInt64.toNat_add, UInt64.toNat_one, Nat.mod_eq_of_lt (by omega)]
  obtain ⟨grows, sum⟩ := forall₂_set inside (c := h.buckets.toList[idx] + 1) (by omega)
  have stored : (h.buckets.set idx (h.buckets[idx] + 1)).toList =
      h.buckets.toList.set idx (h.buckets.toList[idx] + 1) := by
    rw [Vector.toList_set, Vector.getElem_toList]
  refine ⟨_, addBucket_eq h small, ?_, ?_, rfl⟩
  · rw [Grows, stored]
    exact grows
  · rw [stored]
    omega

/-- What the writer's step does to the histogram. -/
theorem Writer.step_inv {writer writer' : Writer} {n : Nat} (few : n < 2 ^ 64)
    (buckets : total h.buckets.toList + writer.unbucketed = n)
    (counted : h.count.toNat + writer.uncounted = n)
    (index : ∀ ns idx, writer = .addBucket ns idx → idx < 64)
    (stepped : writer.step h = some (h', writer')) :
    Grows h h' ∧ total h'.buckets.toList + writer'.unbucketed = n ∧
      h'.count.toNat + writer'.uncounted = n ∧ writer' ≠ .panicked ∧
      ∀ ns idx, writer' ≠ .addBucket ns idx := by
  cases writer with
  | idle | panicked => cases stepped
  | addBucket ns idx =>
      simp only [unbucketed, uncounted] at buckets counted
      obtain ⟨h₁, added, grows, sum, same⟩ := addBucket_grows (index ns idx rfl) (h := h) (by omega)
      rw [Writer.step, added] at stepped
      cases stepped
      refine ⟨grows, ?_, ?_, by simp, by simp⟩
      · simp only [unbucketed]
        omega
      · simp only [uncounted, same]
        omega
  | addCount ns =>
      simp only [unbucketed, uncounted] at buckets counted
      cases stepped
      refine ⟨.refl h, buckets, ?_, by simp, by simp⟩
      simp only [uncounted, LatencyHistogram.addCount]
      rw [UInt64.toNat_add, UInt64.toNat_one, Nat.mod_eq_of_lt (by omega)]
      omega
  | addSum ns =>
      cases stepped
      exact ⟨.refl h, buckets, counted, by simp, by simp⟩
  | loadMax ns =>
      rw [Writer.step] at stepped
      cases stepped
      split
      · exact ⟨.refl h, buckets, counted, by simp, by simp⟩
      · exact ⟨.refl h, buckets, counted, by simp, by simp⟩
  | storeMax ns =>
      cases stepped
      exact ⟨.refl h, buckets, counted, by simp, by simp⟩

/-- What a call of `snapshot` knows after its step. -/
theorem ReaderInv.step {pc pc' : SnapshotPc} (few : total h.buckets.toList < 2 ^ 64)
    (covers : h.count.toNat ≤ total h.buckets.toList) (holds : ReaderInv overflowChecks h pc)
    (stepped : pc.step overflowChecks h = some pc') : ReaderInv overflowChecks h pc' := by
  have all : h.buckets.toList.length = 64 := Vector.length_toList
  cases pc with
  | loadCount =>
      cases stepped
      exact ⟨by decide, by simpa using covers, by simp⟩
  | loadBucket count counts =>
      obtain ⟨small, covered, taken⟩ := holds
      have inside : counts.length < h.buckets.toList.length := all ▸ small
      have more : (counts ++ [h.buckets[counts.length]]).length = counts.length + 1 := by
        rw [List.length_append, List.length_singleton]
      have sum : total (counts ++ [h.buckets[counts.length]]) =
          total counts + h.buckets.toList[counts.length].toNat := by
        rw [total_append, total_cons, total_nil, Nat.add_zero, Vector.getElem_toList]
      have rest : total (h.buckets.toList.drop counts.length) =
          h.buckets.toList[counts.length].toNat + total (h.buckets.toList.drop (counts.length + 1)) := by
        rw [List.drop_eq_getElem_cons inside, total_cons]
      have front : total (h.buckets.toList.take (counts.length + 1)) =
          total (h.buckets.toList.take counts.length) + h.buckets.toList[counts.length].toNat := by
        rw [List.take_succ_eq_append_getElem inside, total_append, total_cons, total_nil, Nat.add_zero]
      rw [SnapshotPc.step, dif_pos small] at stepped
      cases stepped
      split
      · rename_i unread
        refine ⟨unread, ?_, ?_⟩
        · rw [more, sum]
          omega
        · rw [more, sum]
          omega
      · rename_i read
        have last : counts.length + 1 = 64 := by
          rw [more] at read
          exact Nat.le_antisymm small (Nat.not_lt.1 read)
        have none : total (h.buckets.toList.drop (counts.length + 1)) = 0 := by
          rw [List.drop_of_length_le (by omega), total_nil]
        have below := total_take_le h.buckets.toList (counts.length + 1)
        exact ⟨more.trans last, by omega, by omega⟩
  | loadSum count counts =>
      cases stepped
      exact holds
  | p50 count counts meanNs =>
      have loaded : Loaded count counts := holds
      obtain ⟨ns, reported⟩ :=
        percentile_isSome overflowChecks 0.50 count h.maxNs loaded.all loaded.fits
      rw [SnapshotPc.step, reported] at stepped
      cases stepped
      exact ⟨loaded, h.maxNs, reported⟩
  | p99 count counts meanNs p50Ns =>
      obtain ⟨loaded, low⟩ := holds
      obtain ⟨ns, reported⟩ :=
        percentile_isSome overflowChecks 0.99 count h.maxNs loaded.all loaded.fits
      rw [SnapshotPc.step, reported] at stepped
      cases stepped
      exact ⟨loaded, low, h.maxNs, reported⟩
  | p999 count counts meanNs p50Ns p99Ns =>
      obtain ⟨loaded, low, high⟩ := holds
      obtain ⟨ns, reported⟩ :=
        percentile_isSome overflowChecks 0.999 count h.maxNs loaded.all loaded.fits
      rw [SnapshotPc.step, reported] at stepped
      cases stepped
      exact ⟨loaded, low, high, h.maxNs, reported⟩
  | loadMax count counts meanNs p50Ns p99Ns p999Ns =>
      obtain ⟨loaded, low, high, highest⟩ := holds
      cases stepped
      rintro ⟨first, second, within⟩
      exact ⟨loaded.ordered first (UInt64.le_trans second within) low high,
        loaded.ordered second within high highest⟩
  | returned | panicked => cases stepped

/-- Samples are only ever added. -/
theorem samples_le {s t : Instrumented} {a : Act} (moved : s.step overflowChecks a = some t) :
    s.samples.length ≤ t.samples.length := by
  cases a with
  | record ns =>
      obtain ⟨_, rfl⟩ := guarded moved
      simp [Instrumented.begin]
  | write =>
      obtain ⟨_, _, same⟩ := Option.bind_eq_some_iff.1 moved
      cases same
      exact le_rfl
  | snapshot =>
      cases moved
      exact le_rfl
  | read i =>
      obtain ⟨pc, _, rest⟩ := Option.bind_eq_some_iff.1 moved
      obtain ⟨pc', _, same⟩ := Option.bind_eq_some_iff.1 rest
      cases same
      exact le_rfl

/-- The invariant is kept as long as fewer than `2 ^ 64` samples were begun. -/
theorem snapshotInv_step {s t : Instrumented} {a : Act} (few : t.samples.length < 2 ^ 64)
    (holds : SnapshotInv overflowChecks s) (moved : s.step overflowChecks a = some t) :
    SnapshotInv overflowChecks t := by
  cases a with
  | record ns =>
      obtain ⟨idle, rfl⟩ := guarded moved
      obtain ⟨_, _, buckets, count, readers⟩ := holds
      have begun : s.begin ns =
          { s with writer := .addBucket ns (bucketOf ns), samples := s.samples ++ [ns] } := by
        rw [Instrumented.begin, bucketIndex_eq]
      rw [idle] at buckets count
      simp only [Writer.unbucketed, Writer.uncounted] at buckets count
      rw [begun]
      refine ⟨by simp, ?_, ?_, ?_, readers⟩
      · rintro _ _ ⟨rfl, rfl⟩
        exact bucketOf_lt ns
      · simp only [Writer.unbucketed, List.length_append, List.length_singleton]
        omega
      · simp only [Writer.uncounted, List.length_append, List.length_singleton]
        omega
  | write =>
      obtain ⟨⟨h, writer⟩, stepped, same⟩ := Option.bind_eq_some_iff.1 moved
      cases same
      obtain ⟨grows, buckets, count, runs, settled⟩ :=
        Writer.step_inv few holds.buckets holds.count holds.index stepped
      exact ⟨runs, fun ns idx here => absurd here (settled ns idx), buckets, count,
        fun pc member => (holds.readers pc member).grows grows⟩
  | snapshot =>
      cases moved
      refine { holds with readers := ?_ }
      intro pc member
      rcases List.mem_append.1 member with before | new
      · exact holds.readers pc before
      · rw [List.mem_singleton.1 new]
        trivial
  | read i =>
      obtain ⟨pc, reader, rest⟩ := Option.bind_eq_some_iff.1 moved
      obtain ⟨pc', stepped, same⟩ := Option.bind_eq_some_iff.1 rest
      have few' : s.samples.length < 2 ^ 64 := by
        cases same
        exact few
      have buckets := holds.buckets
      have count := holds.count
      have pending := s.writer.unbucketed_le
      have next := (holds.readers pc (List.mem_of_getElem? reader)).step (by omega) (by omega) stepped
      cases same
      refine { holds with readers := ?_ }
      intro other member
      rcases List.mem_or_eq_of_mem_set member with before | rfl
      · exact holds.readers other before
      · exact next

theorem snapshotInv_of_run {s : Instrumented}
    (run : Reach (Instrumented.step overflowChecks) Free .new s) (few : s.samples.length < 2 ^ 64) :
    SnapshotInv overflowChecks s := by
  refine run.invariant (P := fun s => s.samples.length < 2 ^ 64 → SnapshotInv overflowChecks s)
    (fun _ => ?_) (fun u a v holds _ moved few => ?_) few
  · exact ⟨by simp [Instrumented.new], by simp [Instrumented.new], rfl, rfl, by simp [Instrumented.new]⟩
  · exact snapshotInv_step few (holds (Nat.lt_of_le_of_lt (samples_le moved) few)) moved

end Interleaved

/-! ### Coherence -/

/-- The count and the buckets of a call, once it has read them all. -/
def SnapshotPc.loaded : SnapshotPc → Option (UInt64 × List UInt64)
  | .loadSum count counts | .p50 count counts _ | .p99 count counts _ _
  | .p999 count counts _ _ _ | .loadMax count counts _ _ _ _ => some (count, counts)
  | _ => none

/-- The snapshots of a state: the buckets that one has read add up to at least the count it read; if
    its targets are ordered its scans stop in a bucket, and the percentiles it reports are ordered;
    and no call has panicked. -/
structure Coherent (overflowChecks : Bool) (s : Instrumented) : Prop where
  covers : ∀ pc ∈ s.readers, ∀ count counts, pc.loaded = some (count, counts) →
    count.toNat ≤ total counts
  stops : ∀ pc ∈ s.readers, ∀ count counts, pc.loaded = some (count, counts) →
    OrderedTargets count → count ≠ 0 → ∀ q ∈ [0.50, 0.99, 0.999],
      ∃ k ns, scan overflowChecks (target q count) 0 0 counts = .stopped k ns
  ordered : ∀ snap, .returned snap ∈ s.readers → OrderedTargets snap.count →
    snap.p50Ns ≤ snap.p99Ns ∧ snap.p99Ns ≤ snap.p999Ns
  runs : s.writer ≠ .panicked ∧ .panicked ∉ s.readers

/-- Every sample has a bucket in range, and every bucket a midpoint that does not overflow. -/
structure InRange : Prop where
  index : ∀ ns, ∃ idx, bucketIndex ns = some idx ∧ idx < 64
  midpoint : ∀ i, i < 64 → ∃ ns, midpoint i = some ns ∧ ns.toNat = 2 ^ i + 2 ^ (i - 1)

theorem inRange : InRange where
  index ns := ⟨bucketOf ns, bucketIndex_eq ns, bucketOf_lt ns⟩
  midpoint _ small := midpoint_eq small

theorem ReaderInv.loaded {overflowChecks : Bool} {h : LatencyHistogram} {pc : SnapshotPc}
    {count : UInt64} {counts : List UInt64} (holds : ReaderInv overflowChecks h pc)
    (read : pc.loaded = some (count, counts)) : Loaded count counts := by
  cases pc with
  | loadCount | loadBucket | returned | panicked => cases read
  | loadSum | p50 =>
      cases read
      exact holds
  | p99 | p999 | loadMax =>
      cases read
      exact holds.1

/-- In every run in which fewer than `2 ^ 64` samples were begun, snapshots are coherent. -/
theorem coherent_of_run {overflowChecks : Bool} {s : Instrumented}
    (run : Reach (Instrumented.step overflowChecks) Free .new s) (few : s.samples.length < 2 ^ 64) :
    Coherent overflowChecks s ∧ InRange := by
  have holds := snapshotInv_of_run run few
  refine ⟨⟨?_, ?_, ?_, holds.writer, fun panicked => holds.readers _ panicked⟩, inRange⟩
  · intro pc member count counts read
    exact ((holds.readers pc member).loaded read).covers
  · intro pc member count counts read targets nonzero q quantile
    have loaded := (holds.readers pc member).loaded read
    have within : target q count ≤ count := by
      obtain ⟨first, second, last⟩ := targets
      simp only [List.mem_cons, List.not_mem_nil, or_false] at quantile
      rcases quantile with rfl | rfl | rfl
      · exact UInt64.le_trans first (UInt64.le_trans second last)
      · exact UInt64.le_trans second last
      · exact last
    obtain ⟨k, ns, stopped, _⟩ := scan_stops overflowChecks loaded.all loaded.fits
      ((UInt64.le_iff_toNat_le.1 within).trans loaded.covers)
    exact ⟨k, ns, stopped⟩
  · exact fun snap member => holds.readers _ member

/-- A snapshot taken before `record` has come to the sum. -/
theorem coherent_within_record : ∃ s, exec (Instrumented.step true) .new
    ([.record 5, .write, .write, .snapshot] ++ List.replicate 70 (.read 0)) = some s ∧
      Coherent true s ∧ InRange := by
  have executed : exec (Instrumented.step true) .new
      ([.record 5, .write, .write, .snapshot] ++ List.replicate 70 (.read 0)) =
        some ⟨⟨(Vector.replicate BUCKETS 0).set 2 1, 1, 0, 0⟩, .addSum 5,
          [.returned ⟨1, 0, 2, 2, 2, 0⟩], [5]⟩ := by decide +kernel
  exact ⟨_, executed, coherent_of_run (reach_of_exec executed) (by decide)⟩

/-! ### A bucket that wraps -/

/-- After `n` samples of 0 ns. -/
theorem record_zeros (n : Nat) :
    ∃ s, Reach (Instrumented.step true) Free .new s ∧ s.writer = .idle ∧ s.readers = [] ∧
      s.histogram.count = .ofNat n ∧
      s.histogram.buckets = (Vector.replicate BUCKETS 0).set 0 (.ofNat n) := by
  induction n with
  | zero => exact ⟨.new, Reach.refl _, rfl, rfl, rfl, by decide⟩
  | succ n inductionHypothesis =>
      obtain ⟨s, run, idle, readers, count, buckets⟩ := inductionHypothesis
      obtain ⟨h, recorded, more⟩ := record_alone idle 0
      obtain ⟨h', recorded', buckets', count'⟩ := record_eq (addBucket_eq s.histogram (bucketOf_lt 0))
      cases recorded.symm.trans recorded'
      refine ⟨_, run.trans more, idle, readers, ?_, ?_⟩
      · rw [count', UInt64.ofNat_add]
        exact congrArg (· + 1) count
      · rw [buckets', UInt64.ofNat_add]
        simp only [bucketOf_zero, buckets]
        simp

/-- One more sample after `2 ^ 64 - 1` of them in the lowest bucket takes that bucket to zero. A snapshot
    before the sample is counted reads a count that its buckets do not reach, though its targets are
    ordered. -/
theorem snapshot_loses_samples : ∃ s, Reach (Instrumented.step true) Free .new s ∧
    ∃ pc ∈ s.readers, ∃ count counts, pc.loaded = some (count, counts) ∧ OrderedTargets count ∧
      count ≠ 0 ∧ total counts < count.toNat ∧
      scan true (target 0.50 count) 0 0 counts = .ranOff := by
  obtain ⟨⟨h, _, _, samples⟩, run, rfl, rfl, count, buckets⟩ := record_zeros (2 ^ 64 - 1)
  simp only at count buckets
  have most : h.count = 18446744073709551615 := count.trans (by decide)
  have wrapped : h.buckets.set 0 (h.buckets[0] + 1) = Vector.replicate BUCKETS 0 := by
    rw [buckets]
    decide +kernel
  -- The bucket wraps, and a call of `snapshot` begins.
  have started : Reach (Instrumented.step true) Free ⟨h, .idle, [], samples⟩
      ⟨⟨Vector.replicate BUCKETS 0, h.count, h.sumNs, h.maxNs⟩, .addCount 0,
        [.loadBucket h.count []], samples ++ [0]⟩ := by
    have added : h.addBucket 0 = some ⟨Vector.replicate BUCKETS 0, h.count, h.sumNs, h.maxNs⟩ := by
      rw [addBucket_eq h (by decide), wrapped]
    refine @reach_of_exec _ _ _ [.record 0, .write, .snapshot, .read 0] _ _ ?_
    simp [exec, Instrumented.step, Instrumented.begin, bucketIndex_eq, Writer.step, added,
      SnapshotPc.step]
  have read := @reads_buckets true ⟨Vector.replicate BUCKETS 0, h.count, h.sumNs, h.maxNs⟩ h.count []
    (by decide) rfl
  refine ⟨_, (run.trans started).trans (read.alone (i := 0) rfl),
    .loadSum h.count (Vector.replicate BUCKETS 0).toList, List.mem_singleton_self _, h.count,
    (Vector.replicate BUCKETS 0).toList, rfl, ?_⟩
  rw [most]
  decide +kernel

end AetherFlow.Metrics
