/-
Module: AetherFlow.Lib.Binary64
Purpose: What the logical model of `Float` computes where no digit is lost. A normal number is unpacked
  as it was packed, rounding a significand that only ends in zeros is exact, a natural number below
  `2 ^ 53` is a double, and taking half of it and truncating is division by two.
Trusted boundary: `Float.Model` of the core library as the meaning of binary64
Main exports: Normal, unpack_pack, roundWithAccuracy_normal, unpack_ofNat, roundToInt_fraction,
  toUInt64_mul_half
-/
import Mathlib

open Float.Model Float.Model.UnpackedFloat

namespace Binary64

/-- A significand with all its 53 bits. -/
def Normal (m : Nat) : Prop := 2 ^ 52 ≤ m ∧ m < 2 ^ 53

theorem Normal.pos {m : Nat} (normal : Normal m) : 0 < m := by
  have := normal.1
  omega

theorem Normal.log2 {m : Nat} (normal : Normal m) : m.log2 = 52 :=
  (Nat.log2_eq_iff normal.pos.ne').2 ⟨normal.1, normal.2⟩

theorem append_implicit {n : Nat} (m : BitVec n) : (1#1 ++ m).toNat = 2 ^ n + m.toNat := by
  rw [BitVec.toNat_append, ← Nat.shiftLeft_add_eq_or_of_lt m.isLt]
  simp [Nat.shiftLeft_eq]

theorem unpackSign_packComponents (s : Sign) (e : BitVec 11) (m : BitVec 52) :
    Sign.ofBitVec (unpackSign (packComponents Format.binary64 s e m)) = s := by
  have signBit : unpackSign (packComponents Format.binary64 s e m) = s.toBitVec := by
    apply BitVec.eq_of_getLsbD_eq
    intro i small
    have : i = 0 := by omega
    subst this
    simp only [unpackSign, packComponents]
    rw [BitVec.getLsbD_cast, BitVec.getLsbD_extractLsb, BitVec.getLsbD_append,
      BitVec.getLsbD_append]
    simp
  rw [signBit]
  cases s <;> rfl

/-- A normal number is unpacked as it was packed. -/
theorem unpack_pack {m : Nat} {e : Int} (normal : Normal m) (low : -1074 ≤ e) (high : e ≤ 971) :
    (Float.Model.pack (.finite .positive m e normal.pos)).unpack =
      .finite .positive m e normal.pos := by
  obtain ⟨biased, same⟩ := Int.eq_ofNat_of_zero_le (a := e + 1075) (by omega)
  have small : biased < 2 ^ 11 - 1 := by omega
  have positive : 0 < biased := by omega
  have packed : UnpackedFloat.pack Format.binary64 (.finite .positive m e normal.pos) =
      packComponents Format.binary64 .positive (BitVec.ofNat 11 biased) (BitVec.ofNat 52 m) := by
    have exponent : (e + Format.binary64.exponentBias + (52 : Nat)).toNat = biased := by
      simp only [Format.exponentBias]
      omega
    simp only [UnpackedFloat.pack, exponent, normal.log2, Format.mantissaBits]
    rw [if_neg (by omega), if_pos trivial]
  have value : (BitVec.ofNat 11 biased).toNat = biased := by
    rw [BitVec.toNat_ofNat]
    omega
  have mantissa : (1#1 ++ BitVec.ofNat 52 m).toNat = m := by
    obtain ⟨lower, upper⟩ := normal
    rw [append_implicit, BitVec.toNat_ofNat]
    omega
  have infinite : BitVec.ofNat 11 biased ≠ -1#11 := by
    intro never
    have := congrArg BitVec.toNat never
    rw [value] at this
    simp at this
    omega
  have subnormal : BitVec.ofNat 11 biased ≠ 0#11 := by
    intro never
    have := congrArg BitVec.toNat never
    rw [value] at this
    simp at this
    omega
  change UnpackedFloat.unpack Format.binary64
    (UnpackedFloat.pack Format.binary64 (.finite .positive m e normal.pos)) = _
  rw [packed]
  simp only [UnpackedFloat.unpack, unpackMantissa_packComponents, unpackExponent_packComponents,
    unpackSign_packComponents, if_neg infinite, if_neg subnormal, value, mantissa]
  have exponent : (biased : Int) - (Format.binary64.exponentBias + (52 : Nat)) = e := by
    simp only [Format.exponentBias]
    omega
  simp only [exponent]

theorem shiftRight_exact (m k : Nat) :
    (⟨m * 2 ^ k, false, false⟩ : ExtendedMantissa) >>> k = ⟨m, false, false⟩ := by
  change Nat.repeat ExtendedMantissa.shiftRightOne k _ = _
  induction k generalizing m with
  | zero => simp [Nat.repeat]
  | succ k inductionHypothesis =>
      have split : m * 2 ^ (k + 1) = m * 2 * 2 ^ k := by
        rw [Nat.pow_succ, Nat.mul_comm (2 ^ k), Nat.mul_assoc]
      rw [split, Nat.repeat, inductionHypothesis]
      simp [ExtendedMantissa.shiftRightOne]

theorem mantissa_shiftRight (em : ExtendedMantissa) (k : Nat) :
    (em >>> k).mantissa = em.mantissa / 2 ^ k := by
  change (Nat.repeat ExtendedMantissa.shiftRightOne k em).mantissa = _
  induction k with
  | zero => simp [Nat.repeat]
  | succ k inductionHypothesis =>
      rw [Nat.repeat, ExtendedMantissa.shiftRightOne, inductionHypothesis, Nat.div_div_eq_div_mul,
        Nat.pow_succ]

/-- A significand with `k` zeros behind its 53 bits loses them and nothing else. -/
theorem shiftToTargetExponent_normal {m : Nat} (normal : Normal m) (k : Nat) {e : Int}
    (low : -1074 ≤ e + k) :
    shiftToTargetExponent Format.binary64 (m * 2 ^ k) e .exact =
      (⟨m, false, false⟩, e + k) := by
  have log2 : (m * 2 ^ k).log2 = 52 + k := by
    rw [Nat.log2_eq_iff (Nat.mul_pos normal.pos (Nat.two_pow_pos k)).ne', Nat.pow_add,
      Nat.add_right_comm, Nat.pow_add]
    exact ⟨Nat.mul_le_mul_right _ normal.1,
      Nat.mul_lt_mul_of_pos_right normal.2 (Nat.two_pow_pos k)⟩
  have target : Format.binary64.targetExponent (totalExponent (m * 2 ^ k) e) = e + k := by
    simp only [Format.targetExponent, totalExponent, log2, Format.mantissaBits, Format.minExponent]
    omega
  have amount : (e + k - e).toNat = k := by omega
  simp only [shiftToTargetExponent, shiftToExponent, target, amount,
    ExtendedMantissa.ofMantissaAndAccuracy, shiftRight_exact]

/-- Rounding is exact where it only drops zeros. -/
theorem roundWithAccuracy_normal {m : Nat} (normal : Normal m) (k : Nat) {e : Int}
    (low : -1074 ≤ e + k) (s : Sign) :
    roundWithAccuracy Format.binary64 s (m * 2 ^ k) e .exact = .finite s m (e + k) normal.pos := by
  have again : shiftToTargetExponent Format.binary64 m (e + k) .exact =
      (⟨m, false, false⟩, e + k) := by
    simpa using shiftToTargetExponent_normal normal 0 (e := e + k) (by simpa using low)
  have rounded : (⟨m, false, false⟩ : ExtendedMantissa).roundedMantissa = m := rfl
  simp only [roundWithAccuracy, shiftToTargetExponent_normal normal k low, rounded, again,
    dif_neg normal.pos.ne']


/-- A number below `2 ^ 53` is a double, scaled to 53 bits. -/
theorem unpack_ofNat {n : Nat} (pos : n ≠ 0) (small : n < 2 ^ 53) :
    ∃ (m k : Nat) (normal : Normal m), m = n * 2 ^ k ∧ k ≤ 52 ∧
      (Float.Model.ofNat n).unpack = .finite .positive m (-(k : Int)) normal.pos := by
  obtain ⟨k, log2⟩ : ∃ k, n.log2 + k = 52 := by
    have := (Nat.log2_lt pos).2 small
    exact ⟨52 - n.log2, by omega⟩
  have normal : Normal (n * 2 ^ k) := by
    have lower := Nat.mul_le_mul_right (2 ^ k) (Nat.log2_self_le pos)
    have upper := Nat.mul_lt_mul_of_pos_right (Nat.lt_log2_self (n := n)) (Nat.two_pow_pos k)
    rw [← Nat.pow_add] at lower upper
    rw [log2] at lower
    rw [Nat.add_right_comm, log2] at upper
    exact ⟨lower, upper⟩
  have target : Format.binary64.targetExponent (totalExponent n 0) = -(k : Int) := by
    simp only [Format.targetExponent, totalExponent, Format.mantissaBits, Format.minExponent]
    omega
  have rounded : UnpackedFloat.ofNat Format.binary64 n =
      .finite .positive (n * 2 ^ k) (-(k : Int)) normal.pos := by
    have positive : compare (n : Int) 0 = .gt := by
      rw [Int.compare_eq_gt]
      omega
    have amount : (0 - -(k : Int)).toNat = k := by omega
    have unrounded := roundWithAccuracy_normal normal 0 (e := -(k : Int)) (by omega) .positive
    simp only [UnpackedFloat.ofNat, UnpackedFloat.ofInt, UnpackedFloat.normalize, positive,
      UnpackedFloat.round, target, decreaseExponent, amount, Int.toNat_natCast, Nat.shiftLeft_eq]
    simpa using unrounded
  refine ⟨n * 2 ^ k, k, normal, rfl, by omega, ?_⟩
  rw [Float.Model.ofNat, rounded]
  exact unpack_pack normal (by omega) (by omega)

theorem unpack_half : (0.5 : Float).toModel.unpack =
    .finite .positive (2 ^ 52) (-53) (by decide) := by
  have packed : (0.5 : Float).toModel =
      Float.Model.pack (.finite .positive (2 ^ 52) (-53) (by decide)) := by
    decide +kernel
  rw [packed]
  exact unpack_pack ⟨by decide, by decide⟩ (by decide) (by decide)

/-- A number with a fraction of `k` bits is truncated. -/
theorem roundToInt_fraction (m k : Nat) :
    roundToInt .positive m (-(k : Int)) = ((m / 2 ^ k : Nat) : Int) := by
  have up : (-(k : Int)).toNat = 0 := by omega
  have down : (0 - -(k : Int)).toNat = k := by omega
  simp only [roundToInt, decreaseExponent, Int.sub_zero, up, Nat.shiftLeft_zero, Int.natCast_zero,
    shiftToExponent, down, mantissa_shiftRight, ExtendedMantissa.ofMantissaAndAccuracy, Sign.apply]

/-- Multiplying by a half and truncating is exact below `2 ^ 53`. -/
theorem toUInt64_mul_half {n : UInt64} (small : n.toNat < 2 ^ 53) :
    (n.toFloat * 0.5).toUInt64.toNat = n.toNat / 2 := by
  by_cases zero : n.toNat = 0
  · have : n = 0 := UInt64.toNat_inj.1 zero
    subst this
    decide +kernel
  · obtain ⟨m, k, normal, scaled, bound, unpacked⟩ := unpack_ofNat zero small
    have product : (n.toFloat * 0.5).toModel.unpack =
        .finite .positive m (-((k + 1 : Nat) : Int)) normal.pos := by
      change (Float.Model.pack (UnpackedFloat.mul Format.binary64
        (Float.Model.ofNat n.toNat).unpack (0.5 : Float).toModel.unpack)).unpack = _
      rw [unpacked, unpack_half]
      have unrounded := roundWithAccuracy_normal normal 52 (e := -(k : Int) + -53) (by omega) .positive
      have exponent : -(k : Int) + -53 + (52 : Nat) = -((k + 1 : Nat) : Int) := by omega
      rw [exponent] at unrounded
      change (Float.Model.pack (roundWithAccuracy Format.binary64 .positive (m * 2 ^ 52)
        (-(k : Int) + -53) .exact)).unpack = _
      rw [unrounded]
      exact unpack_pack normal (by omega) (by omega)
    have halved : m / 2 ^ (k + 1) = n.toNat / 2 := by
      rw [scaled, Nat.pow_succ, ← Nat.div_div_eq_div_mul, Nat.mul_div_cancel _ (Nat.two_pow_pos k)]
    change (UInt64.ofNatClamp
      ((n.toFloat * 0.5).toModel.unpack.toInt 0 (UInt64.size - 1)).toNat).toNat = _
    rw [product]
    change (UInt64.ofNatClamp (roundToInt .positive m (-((k + 1 : Nat) : Int))).toNat).toNat = _
    rw [roundToInt_fraction, halved, Int.toNat_natCast, UInt64.ofNatClamp,
      dif_pos (by rw [UInt64.size]; omega)]
    exact UInt64.toNat_ofNatLT

end Binary64
