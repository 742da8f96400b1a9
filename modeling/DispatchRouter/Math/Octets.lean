/-
# Octets of a word, most significant first

Network byte order as C code writes it: an octet is cut out of a word with a mask
and a shift, and a word is put back together by shifting octets into place and
or-ing them. Over `Nat` both become division and remainder by powers of two, which
`omega` can then finish. A signed octet is the balanced remainder modulo `256`.
-/

import Mathlib.Data.Nat.Bitwise

namespace DispatchRouter.Math.Octets

/-- Masking with an octet-wide mask at `shift` and shifting back leaves the octet
that division by `2 ^ shift` exposes. -/
theorem masked_octet (word shift : Nat) :
    ((word &&& (255 <<< shift)) >>> shift) % 2 ^ 8 = word / 2 ^ shift % 2 ^ 8 := by
  rw [Nat.shiftRight_and_distrib, Nat.shiftLeft_shiftRight, Nat.shiftRight_eq_div_pow]
  have mask : (255 : Nat) = 2 ^ 8 - 1 := rfl
  rw [mask, Nat.and_two_pow_sub_one_eq_mod, Nat.mod_mod]

/-- An octet or-ed below a word shifted by eight places is an addition. -/
theorem or_octet (word octet : Nat) (small : octet < 2 ^ 8) :
    word <<< 8 ||| octet = word * 2 ^ 8 + octet := by
  rw [← Nat.shiftLeft_add_eq_or_of_lt small, Nat.shiftLeft_eq]

/-- The same, both shifted further by `shift` places. -/
theorem shiftLeft_or_octet (word octet shift : Nat) (small : octet < 2 ^ 8) :
    word <<< (8 + shift) ||| octet <<< shift = (word * 2 ^ 8 + octet) <<< shift := by
  rw [Nat.shiftLeft_add, ← Nat.shiftLeft_or_distrib, or_octet word octet small]

/-- Four octets shifted into place, most significant first, add up to the word they encode. -/
theorem assemble_four (o₀ o₁ o₂ o₃ : Nat) (h₁ : o₁ < 2 ^ 8) (h₂ : o₂ < 2 ^ 8)
    (h₃ : o₃ < 2 ^ 8) :
    o₀ <<< 24 ||| o₁ <<< 16 ||| o₂ <<< 8 ||| o₃ =
      ((o₀ * 2 ^ 8 + o₁) * 2 ^ 8 + o₂) * 2 ^ 8 + o₃ := by
  have first : o₀ <<< 24 ||| o₁ <<< 16 = (o₀ * 2 ^ 8 + o₁) <<< 16 :=
    shiftLeft_or_octet o₀ o₁ 16 h₁
  have second : (o₀ * 2 ^ 8 + o₁) <<< 16 ||| o₂ <<< 8 =
      ((o₀ * 2 ^ 8 + o₁) * 2 ^ 8 + o₂) <<< 8 :=
    shiftLeft_or_octet (o₀ * 2 ^ 8 + o₁) o₂ 8 h₂
  rw [first, second, or_octet _ _ h₃]

/-- A 32-bit word is recovered from its four octets. -/
theorem recombine_four (word : Nat) (bounded : word < 2 ^ 32) :
    ((word / 2 ^ 24 % 2 ^ 8 * 2 ^ 8 + word / 2 ^ 16 % 2 ^ 8) * 2 ^ 8 +
      word / 2 ^ 8 % 2 ^ 8) * 2 ^ 8 + word % 2 ^ 8 = word := by
  omega

/-- A word whose signed value fits a signed octet has that value in its low octet:
the balanced remainder modulo `256` agrees with the one modulo the word's range. -/
theorem bmod_octet (x : Int) (range : Nat) (dvd : 256 ∣ range) (lo : -128 ≤ x.bmod range)
    (hi : x.bmod range < 128) : x.bmod 256 = x.bmod range := by
  rw [← Int.bmod_bmod_of_dvd dvd]
  exact Int.bmod_eq_of_le (by omega) (by omega)

end DispatchRouter.Math.Octets
