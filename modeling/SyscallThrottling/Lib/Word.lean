import Mathlib.Data.Nat.Bitwise
import Mathlib.Tactic.Common

/-!
This module contains masks of 64-bit words: fields of a word that a mask cuts out, read as numbers.
It also contains the bytes of a word, in little endian order.
-/

namespace Word

variable {e m m' : UInt64}

theorem and_or_of_and_eq_zero (h : e &&& m' = 0) : e &&& (m' ||| m) = e &&& m := by
  rw [← UInt64.toNat_inj, UInt64.toNat_and, UInt64.toNat_zero] at h
  rw [← UInt64.toNat_inj, UInt64.toNat_and, UInt64.toNat_and, UInt64.toNat_or]
  rw [Nat.and_or_distrib_left, h, Nat.zero_or]

theorem and_not_of_and_eq_zero (h : e &&& m = 0) : e &&& ~~~m = e := by
  rw [← and_or_of_and_eq_zero h, UInt64.or_not_self, UInt64.and_neg_one]

theorem toNat_and_le (e m : UInt64) : (e &&& m).toNat ≤ m.toNat := by
  rw [UInt64.toNat_and]
  apply Nat.and_le_right

theorem testBit_of_and_eq_zero (h : e &&& m = 0) (i : Nat) (hi : m.toNat.testBit i = true)
    : e.toNat.testBit i = false := by
  rw [← UInt64.toNat_inj, UInt64.toNat_and, UInt64.toNat_zero] at h
  have hbit : (e.toNat &&& m.toNat).testBit i = false := by
    rw [h]
    apply Nat.zero_testBit
  rw [Nat.testBit_and, hi, Bool.and_true] at hbit
  exact hbit

theorem toNat_shiftRight (e : UInt64) (k : Nat) (hk : k < 64)
    : (e >>> UInt64.ofNat k).toNat = e.toNat / 2 ^ k := by
  have hk' : k % 2 ^ 64 % 64 = k := by omega
  rw [UInt64.toNat_shiftRight, UInt64.toNat_ofNat', hk', Nat.shiftRight_eq_div_pow]

/-- A mask that cuts off the lowest `k` bits rounds down. -/
theorem toNat_and_high (k : Nat) (hk : k < 64) (hm : m.toNat = 2 ^ 64 - 2 ^ k)
    : (e &&& m).toNat = e.toNat / 2 ^ k * 2 ^ k := by
  have he : e.toNat < 2 ^ 64 := e.toNat_lt
  have hpow : 2 ^ 64 - 2 ^ k = (2 ^ (64 - k) - 1) * 2 ^ k := by
    rw [Nat.sub_mul, ← Nat.pow_add, Nat.sub_add_cancel (by omega), Nat.one_mul]
  rw [UInt64.toNat_and, hm, hpow]
  apply Nat.eq_of_testBit_eq
  intro i
  rw [Nat.testBit_and, Nat.testBit_mul_two_pow, Nat.testBit_mul_two_pow,
    Nat.testBit_two_pow_sub_one, Nat.testBit_div_two_pow]
  by_cases hi : k ≤ i
  . rw [Nat.sub_add_cancel hi]
    by_cases hi' : i < 64
    . have : i - k < 64 - k := by omega
      simp [hi, this]
    . have hlt : e.toNat < 2 ^ i :=
        Nat.lt_of_lt_of_le he (Nat.pow_le_pow_right (by omega) (by omega))
      simp [Nat.testBit_lt_two_pow hlt]
  . simp [hi]

def bytes32 (x : UInt32) : List UInt8 :=
  [x.toUInt8, (x >>> 8).toUInt8, (x >>> 16).toUInt8, (x >>> 24).toUInt8]

def bytes64 (x : UInt64) : List UInt8 :=
  bytes32 x.toUInt32 ++ bytes32 (x >>> 32).toUInt32

@[simp]
theorem length_bytes32 (x : UInt32) : (bytes32 x).length = 4 := rfl

@[simp]
theorem length_bytes64 (x : UInt64) : (bytes64 x).length = 8 := rfl

/-- The number that is stored in `bytes`, the lowest byte first. -/
def ofBytes : List UInt8 → Nat
  | [] => 0
  | b :: bytes => b.toNat + 256 * ofBytes bytes

theorem ofBytes_toUInt8 (x : UInt32)
    : ofBytes [x.toUInt8, (x >>> 8).toUInt8, (x >>> 16).toUInt8, (x >>> 24).toUInt8] = x.toNat := by
  have hlt : x.toNat < 2 ^ 32 := x.toNat_lt
  simp only [ofBytes, UInt32.toNat_toUInt8, UInt32.toNat_shiftRight, UInt32.reduceToNat,
    Nat.reduceMod, Nat.shiftRight_eq_div_pow, Nat.reducePow]
  omega

end Word
