/-
Module: AetherFlow.Lib.Word
Purpose: Unbounded counters held in machine words. A counter `n` is stored as `BitVec.ofNat w n`; the
  module says when two stored counters are equal, what a power-of-two mask selects from one, and how
  the two's-complement gap between two of them reads.
Trusted boundary: none
Main exports: ofNat_eq_ofNat_iff_of_near, toNat_and_mask, signedGap, signedGap_eq_zero_iff,
  signedGap_succ_right, signedGap_ofNat_of_near, signedGap_ofNat_ahead, mod_ne_mod_of_near, exists_near_mod_eq
-/
import Mathlib.Data.Nat.Log
import Mathlib.Data.Nat.ModEq

namespace Word

/-- Two stored counters less than one full word apart are equal only if the counters are. -/
theorem ofNat_eq_ofNat_iff_of_near {w a b : Nat} (le : a ≤ b) (near : b - a < 2 ^ w) :
    BitVec.ofNat w a = BitVec.ofNat w b ↔ a = b := by
  constructor
  · intro stored
    have residue : a % 2 ^ w = b % 2 ^ w := by
      simpa using congrArg BitVec.toNat stored
    have divides : 2 ^ w ∣ b - a := (Nat.modEq_iff_dvd' le).1 residue
    have := Nat.eq_zero_of_dvd_of_lt divides near
    omega
  · rintro rfl
    rfl

/-- Masking a stored counter with `2 ^ k - 1` selects the counter modulo `2 ^ k`. -/
theorem toNat_and_mask {w k : Nat} (fits : k ≤ w) (n : Nat) :
    (BitVec.ofNat w n &&& BitVec.ofNat w (2 ^ k - 1)).toNat = n % 2 ^ k := by
  have small : 2 ^ k - 1 < 2 ^ w :=
    lt_of_lt_of_le (Nat.sub_lt (Nat.two_pow_pos k) Nat.one_pos) (Nat.pow_le_pow_right (by omega) fits)
  rw [BitVec.toNat_and, BitVec.toNat_ofNat, BitVec.toNat_ofNat, Nat.mod_eq_of_lt small,
    Nat.and_two_pow_sub_one_eq_mod, Nat.mod_mod_of_dvd _ (Nat.pow_dvd_pow 2 fits)]

/-- The gap between two words, read as a two's-complement number. -/
def signedGap {w : Nat} (a b : BitVec w) : Int := (a - b).toInt

theorem signedGap_eq_zero_iff {w : Nat} {a b : BitVec w} : signedGap a b = 0 ↔ a = b := by
  rw [signedGap, ← BitVec.toInt_zero, BitVec.toInt_inj, BitVec.sub_eq_iff_eq_add, BitVec.zero_add]

@[simp] theorem signedGap_self {w : Nat} (a : BitVec w) : signedGap a a = 0 :=
  signedGap_eq_zero_iff.2 rfl

/-- A word is one below its successor, whatever the word. -/
theorem signedGap_succ_right {w : Nat} (pos : 0 < w) (a : BitVec w) : signedGap a (a + 1) = -1 := by
  have gap : a - (a + 1) = BitVec.allOnes w := by
    rw [← BitVec.neg_one_eq_allOnes, BitVec.sub_eq_iff_eq_add, BitVec.add_comm a 1,
      ← BitVec.add_assoc, show (1 : BitVec w) = 1#w from rfl, BitVec.add_left_neg, BitVec.zero_add]
  rw [signedGap, gap, BitVec.toInt_allOnes, if_pos pos]

/-- The gap from a stored counter down to one less than half a word behind it is their distance. -/
theorem signedGap_ofNat_of_near {w a b : Nat} (le : a ≤ b) (near : b - a < 2 ^ (w - 1)) :
    signedGap (BitVec.ofNat w a) (BitVec.ofNat w b) = -((b - a : Nat) : Int) := by
  obtain ⟨d, rfl⟩ := Nat.exists_eq_add_of_le le
  rw [Nat.add_sub_cancel_left] at near ⊢
  have gap : BitVec.ofNat w a - BitVec.ofNat w (a + d) = -BitVec.ofNat w d := by
    rw [BitVec.sub_eq_iff_eq_add, BitVec.ofNat_add, BitVec.add_comm (BitVec.ofNat w a),
      ← BitVec.add_assoc, BitVec.add_left_neg, BitVec.zero_add]
  cases w with
  | zero =>
      have none : d = 0 := Nat.lt_one_iff.1 near
      simp [signedGap, none]
  | succ v =>
      have half : d < 2 ^ v := near
      have double : 2 ^ (v + 1) = 2 * 2 ^ v := by rw [Nat.pow_succ, Nat.mul_comm]
      have small : (BitVec.ofNat (v + 1) d).toInt = d := by
        rw [BitVec.toInt_ofNat', Int.bmod_eq_of_le] <;> omega
      rw [signedGap, gap, BitVec.toInt_neg, small, Int.bmod_eq_of_le] <;> omega

/-- The gap from a stored counter up to one less than half a word ahead of it is their distance. -/
theorem signedGap_ofNat_ahead {w a b : Nat} (le : b ≤ a) (near : a - b < 2 ^ (w - 1)) :
    signedGap (BitVec.ofNat w a) (BitVec.ofNat w b) = ((a - b : Nat) : Int) := by
  obtain ⟨d, rfl⟩ := Nat.exists_eq_add_of_le le
  rw [Nat.add_sub_cancel_left] at near ⊢
  have gap : BitVec.ofNat w (b + d) - BitVec.ofNat w b = BitVec.ofNat w d := by
    rw [BitVec.sub_eq_iff_eq_add, BitVec.ofNat_add, BitVec.add_comm]
  cases w with
  | zero =>
      have none : d = 0 := Nat.lt_one_iff.1 near
      simp [signedGap, none]
  | succ v =>
      have half : d < 2 ^ v := near
      have double : 2 ^ (v + 1) = 2 * 2 ^ v := by rw [Nat.pow_succ, Nat.mul_comm]
      rw [signedGap, gap, BitVec.toInt_ofNat', Int.bmod_eq_of_le] <;> omega

/-- Two distinct counters less than `m` apart fall into different residue classes modulo `m`. -/
theorem mod_ne_mod_of_near {a b m : Nat} (lt : a < b) (near : b - a < m) : a % m ≠ b % m := by
  intro residue
  have divides : m ∣ b - a := (Nat.modEq_iff_dvd' lt.le).1 residue
  have := Nat.eq_zero_of_dvd_of_lt divides near
  omega

/-- The gap between two residues, taken around the circle, is the residue of the gap. -/
theorem mod_sub_mod {a b m : Nat} (le : a ≤ b) (pos : 0 < m) :
    (b % m + m - a % m) % m = (b - a) % m := by
  obtain ⟨d, rfl⟩ := Nat.exists_eq_add_of_le le
  have split := Nat.div_add_mod a m
  have rest := Nat.mod_lt a pos
  have around : a + d + (m - a % m) = d + m * (a / m + 1) := by
    rw [Nat.mul_add]
    omega
  rw [Nat.add_sub_cancel_left, Nat.add_sub_assoc rest.le, Nat.mod_add_mod, around,
    Nat.add_mul_mod_self_left]

/-- Every residue class modulo `m` has a member in each window of `m` counters. -/
theorem exists_near_mod_eq (low : Nat) {i m : Nat} (small : i < m) :
    ∃ n, low ≤ n ∧ n < low + m ∧ n % m = i := by
  have split := Nat.div_add_mod low m
  have rest := Nat.mod_lt low (by omega : 0 < m)
  by_cases ahead : low % m ≤ i
  · refine ⟨m * (low / m) + i, by omega, by omega, ?_⟩
    rw [Nat.mul_add_mod, Nat.mod_eq_of_lt small]
  · refine ⟨m * (low / m + 1) + i, by rw [Nat.mul_add]; omega, by rw [Nat.mul_add]; omega, ?_⟩
    rw [Nat.mul_add_mod, Nat.mod_eq_of_lt small]

end Word
