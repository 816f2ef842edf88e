import Mathlib.Data.Nat.Bitwise

/-!
# Blocks of numbers with a common prefix

The numbers of `width` bits that agree with `base` in their first `length` bits.
Programs test such a block with a mask; here it is a quotient.
-/
namespace BlackMonolith.Library

structure PrefixBlock where
  base : ℕ
  length : ℕ
deriving Repr, DecidableEq

namespace PrefixBlock

def Contains (width : ℕ) (block : PrefixBlock) (n : ℕ) : Prop :=
  n / 2 ^ (width - block.length) = block.base / 2 ^ (width - block.length)

instance (width : ℕ) (block : PrefixBlock) (n : ℕ) : Decidable (block.Contains width n) :=
  inferInstanceAs (Decidable (_ = _))

/-- A number lies in one of the blocks. -/
def InBlocks (width : ℕ) (blocks : List PrefixBlock) (n : ℕ) : Prop :=
  ∃ block ∈ blocks, block.Contains width n

instance (width : ℕ) (blocks : List PrefixBlock) (n : ℕ) : Decidable (InBlocks width blocks n) :=
  inferInstanceAs (Decidable (∃ block ∈ blocks, block.Contains width n))

/-- A mask of the upper bits clears the lower ones. -/
theorem land_mask {n m k : ℕ} (hn : n < 2 ^ (m + k)) :
    n &&& (2 ^ m - 1) * 2 ^ k = n / 2 ^ k * 2 ^ k := by
  apply Nat.eq_of_testBit_eq
  intro i
  rw [Nat.testBit_and, Nat.testBit_mul_two_pow, Nat.testBit_mul_two_pow, Nat.testBit_two_pow_sub_one,
    Nat.testBit_div_two_pow]
  by_cases hk : k ≤ i
  · have hi : i - k + k = i := by omega
    by_cases hm : i - k < m
    · simp [hk, hm, hi]
    · have hbit : n.testBit i = false := by
        apply Nat.testBit_lt_two_pow
        apply hn.trans_le
        apply Nat.pow_le_pow_right (by decide)
        omega
      simp [hbit, hi]
  · simp [hk]

/-- The mask test of a program reads the prefix. -/
theorem land_mask_eq_iff {n m k p : ℕ} (hn : n < 2 ^ (m + k)) :
    n &&& (2 ^ m - 1) * 2 ^ k = p * 2 ^ k ↔ n / 2 ^ k = p := by
  rw [land_mask hn]
  exact Nat.mul_left_inj (Nat.two_pow_pos k).ne'

end PrefixBlock

end BlackMonolith.Library
