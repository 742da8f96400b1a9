/-
# 64-bit words as sets of bit positions

A word holds the positions of its set bits, read with `Nat.testBit` on its
value. The one-hot word of a position is the mask every bit operation of a
word-array bit set is made of: or-ing it sets that bit, and-ing its complement
clears it, and-ing it tests it, and shifting it left by one moves on to the
next position until the top bit. A word is zero exactly when no position
below 64 is set.
-/

import Mathlib.Data.Nat.Bitwise

namespace DispatchRouter.Math.Word

/-- `((uint64_t) 1) << k`; the shift is taken modulo 64. -/
def onehot (k : Nat) : UInt64 := 1 <<< k.toUInt64

/-- The word whose every bit is set. -/
def allOnes : UInt64 := 0xFFFFFFFFFFFFFFFF

/-- The word whose only set bit is the top one. -/
def topBit : UInt64 := 0x8000000000000000

theorem toNat_onehot (k : Nat) : (onehot k).toNat = 2 ^ (k % 64) := by
  have small : k % 64 < 64 := Nat.mod_lt _ (by decide)
  -- `k.toUInt64` is `k` modulo `2 ^ 64`, which 64 divides
  have shift : (k.toUInt64).toNat % 64 = k % 64 := by
    rw [Nat.toUInt64_eq, UInt64.toNat_ofNat', Nat.mod_mod_of_dvd _ (by decide)]
  rw [onehot, UInt64.toNat_shiftLeft, UInt64.toNat_one, shift, Nat.one_shiftLeft]
  exact Nat.mod_eq_of_lt (Nat.pow_lt_pow_right (by decide) small)

@[simp]
theorem testBit_onehot (k j : Nat) : (onehot k).toNat.testBit j = decide (j = k % 64) := by
  rw [toNat_onehot, Nat.testBit_two_pow]
  simp [eq_comm]

/-- And-ing the one-hot word tests its bit. -/
theorem and_onehot_ne_zero (w : UInt64) (k : Nat) : w &&& onehot k ≠ 0 ↔ w.toNat.testBit (k % 64) := by
  rw [ne_eq, ← UInt64.toNat_inj, UInt64.toNat_and, toNat_onehot, UInt64.toNat_zero, Nat.and_two_pow]
  cases w.toNat.testBit (k % 64) <;> simp

theorem onehot_and_ne_zero (w : UInt64) (k : Nat) : onehot k &&& w ≠ 0 ↔ w.toNat.testBit (k % 64) := by
  rw [UInt64.and_comm]
  exact and_onehot_ne_zero w k

@[simp]
theorem and_onehot_eq_zero (w : UInt64) (k : Nat) : w &&& onehot k = 0 ↔ w.toNat.testBit (k % 64) = false := by
  rw [← Bool.not_eq_true, ← and_onehot_ne_zero, not_not]

@[simp]
theorem onehot_and_eq_zero (w : UInt64) (k : Nat) : onehot k &&& w = 0 ↔ w.toNat.testBit (k % 64) = false := by
  rw [UInt64.and_comm]
  exact and_onehot_eq_zero w k

@[simp]
theorem testBit_or_onehot (w : UInt64) (k j : Nat) :
    (w ||| onehot k).toNat.testBit j = (w.toNat.testBit j || decide (j = k % 64)) := by
  rw [UInt64.toNat_or, Nat.testBit_or, testBit_onehot]

theorem testBit_not (w : UInt64) (j : Nat) : (~~~w).toNat.testBit j = (decide (j < 64) && !w.toNat.testBit j) := by
  rw [← UInt64.toNat_toBitVec, ← UInt64.toNat_toBitVec, BitVec.testBit_toNat, BitVec.testBit_toNat,
    UInt64.toBitVec_not, BitVec.getLsbD_not]

/-- No bit of a word stands at 64 or above. -/
theorem testBit_of_le (w : UInt64) {j : Nat} (large : 64 ≤ j) : w.toNat.testBit j = false :=
  Nat.testBit_lt_two_pow (Nat.lt_of_lt_of_le w.toNat_lt (Nat.pow_le_pow_right (by decide) large))

@[simp]
theorem testBit_and_not_onehot (w : UInt64) (k j : Nat) :
    (w &&& ~~~onehot k).toNat.testBit j = (w.toNat.testBit j && !decide (j = k % 64)) := by
  rw [UInt64.toNat_and, Nat.testBit_and, testBit_not, testBit_onehot]
  by_cases small : j < 64
  · simp [small]
  · simp [testBit_of_le w (Nat.le_of_not_lt small)]

@[simp]
theorem testBit_allOnes (j : Nat) : allOnes.toNat.testBit j = decide (j < 64) := by
  rw [show allOnes.toNat = 2 ^ 64 - 1 from rfl, Nat.testBit_two_pow_sub_one]

@[simp]
theorem testBit_zero (j : Nat) : (0 : UInt64).toNat.testBit j = false := by
  simp

/-- A word is zero exactly when none of its 64 bits is set. -/
theorem eq_zero_iff (w : UInt64) : w = 0 ↔ ∀ j < 64, w.toNat.testBit j = false := by
  constructor
  · rintro rfl j _
    exact testBit_zero j
  · intro clear
    apply UInt64.toNat_inj.mp
    rw [UInt64.toNat_zero]
    apply Nat.zero_of_testBit_eq_false
    intro j
    by_cases small : j < 64
    · exact clear j small
    · exact testBit_of_le w (Nat.le_of_not_lt small)

theorem one_eq_onehot_zero : (1 : UInt64) = onehot 0 := by
  decide

/-- The top-bit test of a one-hot word: it is set only at position 63. -/
theorem onehot_and_topBit_ne_zero (k : Nat) : onehot k &&& topBit ≠ 0 ↔ k % 64 = 63 := by
  rw [UInt64.and_comm, and_onehot_ne_zero, show topBit.toNat = 2 ^ 63 from rfl, Nat.testBit_two_pow]
  simp [eq_comm]

/-- Below the top bit, shifting a one-hot word left by one moves it on by one. -/
theorem onehot_shiftLeft_one {k : Nat} (below : k % 64 < 63) : onehot k <<< 1 = onehot (k + 1) := by
  apply UInt64.toNat_inj.mp
  have step : (k + 1) % 64 = k % 64 + 1 := by omega
  have fits : 2 ^ (k % 64 + 1) < 2 ^ 64 := Nat.pow_lt_pow_right (by decide) (by omega)
  rw [UInt64.toNat_shiftLeft, toNat_onehot, toNat_onehot, show (1 : UInt64).toNat % 64 = 1 from rfl,
    Nat.shiftLeft_eq, step, ← Nat.pow_succ]
  exact Nat.mod_eq_of_lt fits

end DispatchRouter.Math.Word
