/-
Module: AetherFlow.Metrics.Histogram
Purpose: The latency histogram of `core/src/metrics.rs`. `record` and `snapshot` are given twice: as
  functions of the histogram, and as the sequences of their atomic steps, which one writer and any
  number of readers take in any order. Arithmetic that the source does not protect can panic: a
  subtraction or a shift out of range always, the running sum of the scan in a build with overflow
  checks.
Trusted boundary: human-reviewed transcription of `core/src/metrics.rs`
Main exports: LatencyHistogram, bucketIndex, record, target, midpoint, scan, percentile, snapshot,
  Writer, SnapshotPc, Instrumented, Instrumented.step
-/
import AetherFlow.Lib.Transition

namespace AetherFlow.Metrics

/-- `BUCKETS`. -/
abbrev BUCKETS : Nat := 64

/-- The counters are `u64`s that wrap around, as `fetch_add` does. -/
structure LatencyHistogram where
  buckets : Vector UInt64 BUCKETS
  count : UInt64
  sumNs : UInt64
  maxNs : UInt64
deriving DecidableEq

namespace LatencyHistogram

/-- `LatencyHistogram::new`. -/
def new : LatencyHistogram := ⟨.replicate BUCKETS 0, 0, 0, 0⟩

/-- `self.buckets[idx].fetch_add(1)`, or `none` where the index is out of range. -/
def addBucket (h : LatencyHistogram) (idx : Nat) : Option LatencyHistogram :=
  if small : idx < BUCKETS then
    some { h with buckets := h.buckets.set idx (h.buckets[idx] + 1) }
  else none

/-- `self.count.fetch_add(1)`. -/
def addCount (h : LatencyHistogram) : LatencyHistogram := { h with count := h.count + 1 }

/-- `self.sum_ns.fetch_add(ns)`. -/
def addSum (h : LatencyHistogram) (ns : UInt64) : LatencyHistogram := { h with sumNs := h.sumNs + ns }

/-- `self.max_ns.store(ns)`. -/
def storeMax (h : LatencyHistogram) (ns : UInt64) : LatencyHistogram := { h with maxNs := ns }

end LatencyHistogram

open LatencyHistogram

/-- `ns.leading_zeros()`. -/
def leadingZeros (ns : UInt64) : Nat := ns.toBitVec.clz.toNat

/-- The bucket of a sample, or `none` where `63 - ns.leading_zeros()` underflows. -/
def bucketIndex (ns : UInt64) : Option Nat :=
  if ns = 0 then some 0
  else if leadingZeros ns ≤ 63 then some (63 - leadingZeros ns)
  else none

/-- `LatencyHistogram::record`, or `none` where it panics. -/
def record (h : LatencyHistogram) (ns : UInt64) : Option LatencyHistogram := do
  let idx ← bucketIndex ns
  let h ← h.addBucket idx
  let h := h.addCount
  let h := h.addSum ns
  if h.maxNs < ns then some (h.storeMax ns) else some h

/-- `(count as f64 * q) as u64`. -/
def target (q : Float) (count : UInt64) : UInt64 := (count.toFloat * q).toUInt64

/-- `1u64 << i`, or `none` where the shift is out of range. -/
def shl (i : Nat) : Option UInt64 := if i < 64 then some (1 <<< UInt64.ofNat i) else none

/-- `u64::saturating_add`. -/
def saturatingAdd (a b : UInt64) : UInt64 :=
  if a.toNat + b.toNat < 2 ^ 64 then a + b else .ofNat (2 ^ 64 - 1)

/-- `(1u64 << i).saturating_add(1u64 << i.saturating_sub(1))`. -/
def midpoint (i : Nat) : Option UInt64 := do
  let lower ← shl i
  let half ← shl (i - 1)
  some (saturatingAdd lower half)

/-- How the `for` loop of `pct` ends. -/
inductive Scan where
  /-- It returned from bucket `i`. -/
  | stopped (i : Nat) (ns : UInt64)
  | ranOff
  | panicked
deriving DecidableEq

/-- The loop from bucket `i` on, with the sum of the buckets before it. -/
def scan (overflowChecks : Bool) (target : UInt64) (i : Nat) (acc : UInt64) :
    List UInt64 → Scan
  | [] => .ranOff
  | c :: counts =>
      if overflowChecks ∧ 2 ^ 64 ≤ acc.toNat + c.toNat then .panicked
      else if target ≤ acc + c then
        match midpoint i with
        | some ns => .stopped i ns
        | none => .panicked
      else scan overflowChecks target (i + 1) (acc + c) counts

/-- The closure `pct`, with what a load of `max_ns` returns where the loop does not. -/
def percentile (overflowChecks : Bool) (q : Float) (count : UInt64) (counts : List UInt64)
    (maxNs : UInt64) : Option UInt64 :=
  if count = 0 then some 0
  else
    match scan overflowChecks (target q count) 0 0 counts with
    | .stopped _ ns => some ns
    | .ranOff => some maxNs
    | .panicked => none

/-- `self.sum_ns.load().checked_div(count).unwrap_or(0)`. -/
def meanNs (sumNs count : UInt64) : UInt64 := if count = 0 then 0 else sumNs / count

structure LatencySnapshot where
  count : UInt64
  meanNs : UInt64
  p50Ns : UInt64
  p99Ns : UInt64
  p999Ns : UInt64
  maxNs : UInt64
deriving DecidableEq

/-- `LatencyHistogram::snapshot`, or `none` where it panics. -/
def snapshot (overflowChecks : Bool) (h : LatencyHistogram) : Option LatencySnapshot := do
  let counts := h.buckets.toList
  let p50Ns ← percentile overflowChecks 0.50 h.count counts h.maxNs
  let p99Ns ← percentile overflowChecks 0.99 h.count counts h.maxNs
  let p999Ns ← percentile overflowChecks 0.999 h.count counts h.maxNs
  some
    { count := h.count
      meanNs := Metrics.meanNs h.sumNs h.count
      p50Ns := p50Ns
      p99Ns := p99Ns
      p999Ns := p999Ns
      maxNs := h.maxNs }

/-! ### The atomic steps -/

/-- Where the owning core stands in `record`. -/
inductive Writer where
  | idle
  | addBucket (ns : UInt64) (idx : Nat)
  | addCount (ns : UInt64)
  | addSum (ns : UInt64)
  | loadMax (ns : UInt64)
  | storeMax (ns : UInt64)
  | panicked
deriving DecidableEq

/-- Where a call of `snapshot` stands. What it has loaded and computed so far goes along. -/
inductive SnapshotPc where
  | loadCount
  /-- `counts` are the buckets it has loaded. -/
  | loadBucket (count : UInt64) (counts : List UInt64)
  | loadSum (count : UInt64) (counts : List UInt64)
  | p50 (count : UInt64) (counts : List UInt64) (meanNs : UInt64)
  | p99 (count : UInt64) (counts : List UInt64) (meanNs p50Ns : UInt64)
  | p999 (count : UInt64) (counts : List UInt64) (meanNs p50Ns p99Ns : UInt64)
  | loadMax (count : UInt64) (counts : List UInt64) (meanNs p50Ns p99Ns p999Ns : UInt64)
  | returned (snapshot : LatencySnapshot)
  | panicked
deriving DecidableEq

/-- A histogram with its writer and the calls of `snapshot`, from any threads. -/
structure Instrumented where
  histogram : LatencyHistogram
  writer : Writer
  readers : List SnapshotPc
  /-- The samples whose `record` has begun. -/
  samples : List UInt64
deriving DecidableEq

inductive Act where
  /-- The owning core calls `record`. -/
  | record (ns : UInt64)
  /-- The writer's next atomic step. -/
  | write
  /-- A thread calls `snapshot`. -/
  | snapshot
  /-- The next step of this call. -/
  | read (i : Nat)
deriving DecidableEq

/-- One atomic step of `record`. -/
def Writer.step (h : LatencyHistogram) : Writer → Option (LatencyHistogram × Writer)
  | .idle | .panicked => none
  | .addBucket ns idx =>
      match h.addBucket idx with
      | some h => some (h, .addCount ns)
      | none => some (h, .panicked)
  | .addCount ns => some (h.addCount, .addSum ns)
  | .addSum ns => some (h.addSum ns, .loadMax ns)
  | .loadMax ns => some (h, if h.maxNs < ns then .storeMax ns else .idle)
  | .storeMax ns => some (h.storeMax ns, .idle)

/-- One step of `snapshot`: one load, and what is computed up to the next one. The fields of the result
    are evaluated in their order. -/
def SnapshotPc.step (overflowChecks : Bool) (h : LatencyHistogram) : SnapshotPc → Option SnapshotPc
  | .loadCount => some (.loadBucket h.count [])
  | .loadBucket count counts =>
      if small : counts.length < BUCKETS then
        let counts' := counts ++ [h.buckets[counts.length]]
        some (if counts'.length < BUCKETS then .loadBucket count counts' else .loadSum count counts')
      else none
  | .loadSum count counts => some (.p50 count counts (Metrics.meanNs h.sumNs count))
  | .p50 count counts meanNs =>
      match percentile overflowChecks 0.50 count counts h.maxNs with
      | some p50Ns => some (.p99 count counts meanNs p50Ns)
      | none => some .panicked
  | .p99 count counts meanNs p50Ns =>
      match percentile overflowChecks 0.99 count counts h.maxNs with
      | some p99Ns => some (.p999 count counts meanNs p50Ns p99Ns)
      | none => some .panicked
  | .p999 count counts meanNs p50Ns p99Ns =>
      match percentile overflowChecks 0.999 count counts h.maxNs with
      | some p999Ns => some (.loadMax count counts meanNs p50Ns p99Ns p999Ns)
      | none => some .panicked
  | .loadMax count _ meanNs p50Ns p99Ns p999Ns =>
      some (.returned ⟨count, meanNs, p50Ns, p99Ns, p999Ns, h.maxNs⟩)
  | .returned _ | .panicked => none

namespace Instrumented

/-- A fresh histogram without readers. -/
def new : Instrumented := ⟨.new, .idle, [], []⟩

/-- `record` begins with the computation of the bucket. -/
def begin (s : Instrumented) (ns : UInt64) : Instrumented :=
  { s with
    writer :=
      match bucketIndex ns with
      | some idx => .addBucket ns idx
      | none => .panicked
    samples := s.samples ++ [ns] }

def step (overflowChecks : Bool) (s : Instrumented) : Act → Option Instrumented
  | .record ns => if s.writer = .idle then some (s.begin ns) else none
  | .write => do
      let (histogram, writer) ← s.writer.step s.histogram
      some { s with histogram := histogram, writer := writer }
  | .snapshot => some { s with readers := s.readers ++ [.loadCount] }
  | .read i => do
      let pc ← s.readers[i]?
      let pc ← pc.step overflowChecks s.histogram
      some { s with readers := s.readers.set i pc }

end Instrumented

end AetherFlow.Metrics
