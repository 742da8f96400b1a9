/-
# Hexadecimal numerals

A number written in upper-case hexadecimal without leading zeros, as `printf`'s
`%X` writes it, one octet per digit. `hexValue` reads a numeral back, so two
numbers with the same numeral are equal; no digit is a zero octet or a slash.
-/

import Mathlib.Data.List.Basic
import Mathlib.Algebra.GroupWithZero.Nat

namespace DispatchRouter.Math

/-- The octet of a digit below sixteen: `0`–`9`, then `A`–`F`. -/
def hexDigit (d : Nat) : UInt8 :=
  if d < 10 then (48 + d).toUInt8 else (55 + d).toUInt8

/-- The value of a digit octet. -/
def digitValue (c : UInt8) : Nat :=
  if c.toNat < 58 then c.toNat - 48 else c.toNat - 55

/-- The numeral of `n` with at most `width` digits. -/
def hexNumeral : Nat → Nat → List UInt8
  | 0, _ => []
  | width + 1, n => if n < 16 then [hexDigit n] else hexNumeral width (n / 16) ++ [hexDigit (n % 16)]

/-- The number a numeral writes, most significant digit first. -/
def hexValue (numeral : List UInt8) : Nat :=
  numeral.foldl (fun value c => value * 16 + digitValue c) 0

theorem toNat_hexDigit {d : Nat} (small : d < 16) :
    (hexDigit d).toNat = if d < 10 then 48 + d else 55 + d := by
  unfold hexDigit
  split_ifs <;> simp only [Nat.toUInt8_eq, UInt8.toNat_ofNat', Nat.reducePow] <;> omega

theorem digitValue_hexDigit {d : Nat} (small : d < 16) : digitValue (hexDigit d) = d := by
  unfold digitValue
  rw [toNat_hexDigit small]
  split_ifs <;> omega

/-- Every digit octet lies between `0` and `F`. -/
theorem hexDigit_range (d : Nat) (small : d < 16) :
    48 ≤ (hexDigit d).toNat ∧ (hexDigit d).toNat ≤ 70 := by
  rw [toNat_hexDigit small]
  split_ifs <;> omega

theorem hexValue_append_digit (numeral : List UInt8) (c : UInt8) :
    hexValue (numeral ++ [c]) = hexValue numeral * 16 + digitValue c := by
  simp [hexValue, List.foldl_append]

/-- A numeral with room for all its digits reads back as its number: by
induction on the width, the last digit being the remainder. -/
theorem hexValue_hexNumeral {width n : Nat} (fits : n < 16 ^ width) :
    hexValue (hexNumeral width n) = n := by
  induction width generalizing n with
  | zero =>
      have zero : n = 0 := by simpa using fits
      subst zero
      rfl
  | succ width ih =>
      unfold hexNumeral
      split_ifs with small
      · simp [hexValue, digitValue_hexDigit small]
      · have upper : n / 16 < 16 ^ width := by
          rw [Nat.div_lt_iff_lt_mul (by omega), ← Nat.pow_succ]
          exact fits
        rw [hexValue_append_digit, ih upper, digitValue_hexDigit (Nat.mod_lt n (by omega))]
        omega

theorem hexNumeral_inj {width m n : Nat} (mFits : m < 16 ^ width) (nFits : n < 16 ^ width)
    (same : hexNumeral width m = hexNumeral width n) : m = n := by
  rw [← hexValue_hexNumeral mFits, ← hexValue_hexNumeral nFits, same]

theorem hexNumeral_range {width n : Nat} {c : UInt8} (digit : c ∈ hexNumeral width n) :
    48 ≤ c.toNat ∧ c.toNat ≤ 70 := by
  induction width generalizing n with
  | zero => simp [hexNumeral] at digit
  | succ width ih =>
      unfold hexNumeral at digit
      split_ifs at digit with small
      · rw [List.mem_singleton] at digit
        subst digit
        exact hexDigit_range n small
      · rcases List.mem_append.mp digit with front | last
        · exact ih front
        · rw [List.mem_singleton] at last
          subst last
          exact hexDigit_range _ (Nat.mod_lt n (by omega))

/-- Two lists that a marker ends, followed by the same marker, split equal. -/
theorem append_cons_cancel {α : Type} {marker : α} {a b s t : List α} (notInA : marker ∉ a)
    (notInB : marker ∉ b) (same : a ++ marker :: s = b ++ marker :: t) : a = b ∧ s = t := by
  induction a generalizing b with
  | nil =>
      cases b with
      | nil => simpa using same
      | cons c b =>
          simp only [List.nil_append, List.cons_append, List.cons.injEq] at same
          exact absurd (same.1 ▸ List.mem_cons_self) notInB
  | cons c a ih =>
      cases b with
      | nil =>
          simp only [List.nil_append, List.cons_append, List.cons.injEq] at same
          exact absurd (same.1 ▸ List.mem_cons_self) notInA
      | cons d b =>
          simp only [List.cons_append, List.cons.injEq] at same
          obtain ⟨head, rest⟩ := same
          have tails := ih (fun inA => notInA (List.mem_cons_of_mem c inA))
            (fun inB => notInB (List.mem_cons_of_mem d inB)) rest
          exact ⟨by rw [head, tails.1], tails.2⟩

example : hexNumeral 8 255 = [70, 70] := by decide

end DispatchRouter.Math
