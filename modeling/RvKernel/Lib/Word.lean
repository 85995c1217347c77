/-
# Machine words

The fixed-width unsigned integers of the kernel's C code, and the arithmetic reading of the bit
operations it uses on them.  Every address computation of the development is carried out in `ℕ`,
where `omega` decides it; the lemmas here are the only place where masks and shifts are opened.
-/
import Mathlib.Data.BitVec
import Mathlib.Data.Nat.Bitwise
import Mathlib.Tactic

namespace RvKernel

abbrev U8 := BitVec 8
abbrev U32 := BitVec 32
abbrev U64 := BitVec 64

namespace Word

/-! ## 1. Shifts and masks as division and remainder -/

theorem toNat_shr (x : U64) (k : ℕ) : (x >>> k).toNat = x.toNat / 2 ^ k := by
  rw [BitVec.toNat_ushiftRight, Nat.shiftRight_eq_div_pow]

theorem toNat_shl (x : U64) (k : ℕ) (h : x.toNat * 2 ^ k < 2 ^ 64) :
    (x <<< k).toNat = x.toNat * 2 ^ k := by
  rw [BitVec.toNat_shiftLeft, Nat.shiftLeft_eq, Nat.mod_eq_of_lt h]

/-- The mask with the bits `low`, ..., `high` set. -/
def mask (high low : ℕ) : U64 :=
  (BitVec.allOnes 64 <<< low) &&& (BitVec.allOnes 64 >>> (64 - 1 - high))

/-- **A masked and shifted word is a bit field.** -/
theorem toNat_and_mask_shr (x : U64) (high low : ℕ) (h : high < 64) (hl : low ≤ high) :
    ((x &&& mask high low) >>> low).toNat = x.toNat / 2 ^ low % 2 ^ (high + 1 - low) := by
  have hbits : (x &&& mask high low) >>> low
      = BitVec.ofNat 64 (x.toNat / 2 ^ low % 2 ^ (high + 1 - low)) := by
    apply BitVec.eq_of_getLsbD_eq
    intro i hi
    simp only [mask, BitVec.getLsbD_ushiftRight, BitVec.getLsbD_and, BitVec.getLsbD_shiftLeft,
      BitVec.getLsbD_allOnes, BitVec.getLsbD_ofNat, Nat.testBit_mod_two_pow,
      Nat.testBit_div_two_pow, hi]
    by_cases h1 : low + i < 64
    · by_cases h2 : i < high + 1 - low
      · simp [h1, h2, BitVec.getLsbD, Nat.add_comm]
        omega
      · have h3 : ¬ (64 - 1 - high + (low + i) < 64) := by omega
        simp [h2, h3]
    · simp [h1]
      omega
  rw [hbits, BitVec.toNat_ofNat]
  apply Nat.mod_eq_of_lt
  calc x.toNat / 2 ^ low % 2 ^ (high + 1 - low) ≤ x.toNat / 2 ^ low := Nat.mod_le _ _
    _ ≤ x.toNat := Nat.div_le_self _ _
    _ < 2 ^ 64 := x.isLt

/-- Masking with `2 ^ k - 1` is the remainder modulo `2 ^ k`. -/
theorem toNat_and_low (x : U64) (k : ℕ) (hk : k < 64) :
    (x &&& BitVec.ofNat 64 (2 ^ k - 1)).toNat = x.toNat % 2 ^ k := by
  have hlt : 2 ^ k - 1 < 2 ^ 64 :=
    lt_of_le_of_lt (Nat.sub_le _ _) (Nat.pow_lt_pow_right (by omega) hk)
  rw [BitVec.toNat_and, BitVec.toNat_ofNat, Nat.mod_eq_of_lt hlt, Nat.and_two_pow_sub_one_eq_mod]

/-- **A word assembled from a shifted upper part and a small lower part** is their sum. -/
theorem toNat_shl_or (x y : U64) (k : ℕ) (hx : x.toNat * 2 ^ k < 2 ^ 64) (hy : y.toNat < 2 ^ k) :
    (x <<< k ||| y).toNat = x.toNat * 2 ^ k + y.toNat := by
  rw [BitVec.toNat_or, BitVec.toNat_shiftLeft, Nat.shiftLeft_eq, Nat.mod_eq_of_lt hx,
    ← Nat.shiftLeft_eq, ← Nat.shiftLeft_add_eq_or_of_lt hy]

/-! ## 2. Single bits -/

theorem getLsbD_eq (x : U64) (i : ℕ) : x.getLsbD i = decide (x.toNat / 2 ^ i % 2 = 1) := by
  rw [BitVec.getLsbD, Nat.testBit_eq_decide_div_mod_eq]

/-- Two words with the same ten low bits agree on each of them. -/
theorem getLsbD_low (x : U64) {i : ℕ} (hi : i < 10) :
    x.getLsbD i = (x.toNat % 1024).testBit i := by
  rw [BitVec.getLsbD, show (1024 : ℕ) = 2 ^ 10 from rfl, Nat.testBit_mod_two_pow]
  simp [hi]

/-- Testing one bit with a mask, as C does. -/
theorem and_bit_ne_zero (x : U64) {i : ℕ} (hi : i < 64) :
    x &&& BitVec.ofNat 64 (2 ^ i) ≠ 0 ↔ x.getLsbD i = true := by
  have hlt : 2 ^ i < 2 ^ 64 := Nat.pow_lt_pow_right (by omega) hi
  rw [ne_eq, ← BitVec.toNat_inj, BitVec.toNat_and, BitVec.toNat_ofNat, Nat.mod_eq_of_lt hlt,
    Nat.and_two_pow, BitVec.getLsbD]
  cases h : x.toNat.testBit i with
  | false => simp
  | true => simp

end Word

end RvKernel
