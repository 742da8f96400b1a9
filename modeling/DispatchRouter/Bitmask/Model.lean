/-
# The router bitmask (`bitmask.c`)

A `qd_bitmask_t` holds a set of bit numbers below `qd_bitmask_width()` in
`QD_BITMASK_LONGS` 64-bit words, with two cached fields: `cardinality`, the
number of set bits, and `first_set`, the least set bit, `FIRST_NONE` when no
bit is set, or `FIRST_UNKNOWN` once the least set bit has been cleared and not
yet looked for again. Each definition below is the C function of the same
name; the iteration macro `QD_BITMASK_EACH` is `qdBitmaskEach`.

Bit numbers passed in are `Fin qdBitmaskBits`: `set_bit` and `clear_bit`
assert that bound and every caller checks it with
`qd_bitmask_valid_bit_value`. What the functions return stays `int`. Bit `k`
of a mask is bit `k % 64` of word `k / 64` (`QdBitmask.bit`).
-/

import DispatchRouter.Math.Word
import DispatchRouter.Math.Scan
import Mathlib.Data.Fintype.Basic

namespace DispatchRouter.Bitmask

open Math

/-- `QD_BITMASK_LONGS` -/
def qdBitmaskLongs : Nat := 2

/-- `QD_BITMASK_BITS` -/
def qdBitmaskBits : Nat := qdBitmaskLongs * 64

instance : NeZero qdBitmaskBits := ⟨by decide⟩

/-- `FIRST_NONE` -/
def firstNone : Int := -1

/-- `FIRST_UNKNOWN` -/
def firstUnknown : Int := -2

/-- `qd_bitmask_t`. Whatever the functions do, `first_set` is one of the two
sentinels or a bit number; the structure carries that bound. -/
structure QdBitmask where
  array : Vector UInt64 qdBitmaskLongs
  firstSet : Int
  cardinality : Int
  firstSet_ge : firstUnknown ≤ firstSet
  firstSet_lt : firstSet < qdBitmaskBits

/-- `MASK_INDEX(num)` -/
def maskIndex (num : Fin qdBitmaskBits) : Fin qdBitmaskLongs :=
  ⟨num / 64, by have := num.isLt; unfold qdBitmaskBits at this; omega⟩

/-- `MASK_ONEHOT(num)` -/
def maskOnehot (num : Fin qdBitmaskBits) : UInt64 := Word.onehot (num % 64)

/-- `qd_bitmask_width` -/
def qdBitmaskWidth : Int := qdBitmaskBits

/-- `qd_bitmask_set_all`: every field is written, so the old value does not
matter. -/
def qdBitmaskSetAll (_b : QdBitmask) : QdBitmask where
  array := Vector.replicate qdBitmaskLongs Word.allOnes
  firstSet := 0
  cardinality := qdBitmaskBits
  firstSet_ge := by decide
  firstSet_lt := by decide

/-- `qd_bitmask_clear_all` -/
def qdBitmaskClearAll (_b : QdBitmask) : QdBitmask where
  array := Vector.replicate qdBitmaskLongs 0
  firstSet := firstNone
  cardinality := 0
  firstSet_ge := by decide
  firstSet_lt := by decide

/-- A cleared mask, for a block whose contents do not matter. -/
instance : Inhabited QdBitmask := ⟨⟨Vector.replicate qdBitmaskLongs 0, firstNone, 0, by decide, by decide⟩⟩

/-- `qd_bitmask(initial)`, from the block `new_qd_bitmask_t` hands out. -/
def qdBitmask (initial : Bool) (fresh : QdBitmask) : QdBitmask :=
  if initial then qdBitmaskSetAll fresh else qdBitmaskClearAll fresh

/-- `qd_bitmask_set_bit`: the old value of the bit, and the mask. -/
def qdBitmaskSetBit (b : QdBitmask) (bitnum : Fin qdBitmaskBits) : Int × QdBitmask :=
  let word := b.array[maskIndex bitnum]
  let fresh := word &&& maskOnehot bitnum == 0
  let oldValue : Int := if fresh then 0 else 1
  let firstSet : Int := if b.firstSet > bitnum ∨ b.firstSet < 0 then bitnum else b.firstSet
  (oldValue,
    { array := b.array.set (maskIndex bitnum) (word ||| maskOnehot bitnum)
      firstSet
      cardinality := if fresh then b.cardinality + 1 else b.cardinality
      firstSet_ge := by
        have := b.firstSet_ge
        unfold firstSet firstUnknown at *
        split <;> omega
      firstSet_lt := by
        have := b.firstSet_lt
        have := bitnum.isLt
        unfold firstSet
        split <;> omega })

/-- `qd_bitmask_clear_bit`: the old value of the bit, and the mask. -/
def qdBitmaskClearBit (b : QdBitmask) (bitnum : Fin qdBitmaskBits) : Int × QdBitmask :=
  let word := b.array[maskIndex bitnum]
  let wasSet := word &&& maskOnehot bitnum != 0
  let oldValue : Int := if wasSet then 1 else 0
  let firstSet : Int := if b.firstSet = bitnum then firstUnknown else b.firstSet
  (oldValue,
    { array := b.array.set (maskIndex bitnum) (word &&& ~~~maskOnehot bitnum)
      firstSet
      cardinality := if wasSet then b.cardinality - 1 else b.cardinality
      firstSet_ge := by
        have := b.firstSet_ge
        unfold firstSet
        split <;> omega
      firstSet_lt := by
        have := b.firstSet_lt
        unfold firstSet firstUnknown
        split <;> omega })

/-- `qd_bitmask_value` -/
def qdBitmaskValue (b : QdBitmask) (bitnum : Fin qdBitmaskBits) : Int :=
  if b.array[maskIndex bitnum] &&& maskOnehot bitnum != 0 then 1 else 0

/-- The search of `qd_bitmask_first_set` for the least set bit: the first
non-zero word, then its first set bit; `FIRST_NONE` when every word is zero. -/
def firstSetRecount (array : Vector UInt64 qdBitmaskLongs) : Int :=
  match (List.finRange qdBitmaskLongs).find? (fun i => array[i] != 0) with
  | none => firstNone
  | some i =>
      match (List.range 64).find? (fun j => Word.onehot j &&& array[i] != 0) with
      | none => firstNone
      | some j => i.val * 64 + j

theorem firstSetRecount_ge (array : Vector UInt64 qdBitmaskLongs) : firstNone ≤ firstSetRecount array := by
  unfold firstSetRecount firstNone
  split
  · omega
  · split <;> omega

theorem firstSetRecount_lt (array : Vector UInt64 qdBitmaskLongs) : firstSetRecount array < qdBitmaskBits := by
  unfold firstSetRecount firstNone qdBitmaskBits
  split
  · omega
  · rename_i i _
    split
    · omega
    · rename_i j found
      have := i.isLt
      have := (List.find?_range_eq_some.mp found).2.1
      simp only [List.mem_range] at this
      unfold qdBitmaskLongs at *
      omega

/-- The first half of `qd_bitmask_first_set`: a `FIRST_UNKNOWN` cache is looked
for again. -/
def qdBitmaskRecount (b : QdBitmask) : QdBitmask :=
  if b.firstSet = firstUnknown then
    { b with
      firstSet := firstSetRecount b.array
      firstSet_ge := le_trans (by decide) (firstSetRecount_ge b.array)
      firstSet_lt := firstSetRecount_lt b.array }
  else b

/-- `qd_bitmask_first_set`: the mask, with its cache looked for again when it is
`FIRST_UNKNOWN`, and `some bitnum` where the C function returns 1 and writes
`*bitnum`. -/
def qdBitmaskFirstSet (b : QdBitmask) : QdBitmask × Option Int :=
  let b := qdBitmaskRecount b
  (b, if b.firstSet = firstNone then none else some b.firstSet)

/-- `qd_bitmask_cardinality` -/
def qdBitmaskCardinality (b : QdBitmask) : Int := b.cardinality

/-- `qd_bitmask_valid_bit_value` -/
def qdBitmaskValidBitValue (bitnum : Int) : Bool := 0 ≤ bitnum && bitnum < qdBitmaskBits

/-- `_qdbm_start` -/
def qdbmStart (b : QdBitmask) : QdBitmask × Int :=
  match qdBitmaskFirstSet b with
  | (b, some v) => (b, v)
  | (b, none) => (b, -1)

/-- One step of the loop of `_qdbm_next`: the one-hot word moves on by one
bit, to bit 0 of the next word after bit 63, and the scan ends after the last
word. -/
def qdbmAdvance (idx : Fin qdBitmaskLongs) (bits : UInt64) : Option (Fin qdBitmaskLongs × UInt64) :=
  if bits &&& Word.topBit != 0 then
    if h : idx.val + 1 < qdBitmaskLongs then some (⟨idx.val + 1, h⟩, 1) else none
  else some (idx, bits <<< 1)

/-- The loop of `_qdbm_next`, which steps `next` with its word `idx` and
one-hot word `bits` until a set bit. It ends within `qdBitmaskBits` steps;
`fuel` counts them. -/
def qdbmNextLoop (b : QdBitmask) : Nat → Fin qdBitmaskLongs → UInt64 → Int → Int
  | 0, _, _, _ => -1
  | fuel + 1, idx, bits, next =>
      match qdbmAdvance idx bits with
      | none => -1
      | some (idx, bits) =>
          if b.array[idx] &&& bits != 0 then next + 1 else qdbmNextLoop b fuel idx bits (next + 1)

/-- `_qdbm_next`: the next set bit after `v`, or -1. -/
def qdbmNext (b : QdBitmask) (v : Fin qdBitmaskBits) : Int :=
  if v.val = qdBitmaskBits - 1 then -1
  else qdbmNextLoop b qdBitmaskBits (maskIndex v) (maskOnehot v) v

/-- The loop `for (QD_BITMASK_EACH(b, v, c))`, as the values of `v` its body
sees. The C test is `v >= 0 && c`; the bound `v < QD_BITMASK_BITS` beside it
always holds (`_qdbm_start` and `_qdbm_next` give -1 or a bit number) and
stands for the read of `array[MASK_INDEX(v)]` in `_qdbm_next`. Each round
moves `v` up, so `qdBitmaskBits` rounds are enough; `fuel` counts them. -/
def qdBitmaskEachLoop (b : QdBitmask) : Nat → Int → Int → List (Fin qdBitmaskBits)
  | 0, _, _ => []
  | fuel + 1, v, c =>
      if h : 0 ≤ v ∧ v < qdBitmaskBits ∧ c ≠ 0 then
        ⟨v.toNat, by omega⟩ :: qdBitmaskEachLoop b fuel (qdbmNext b ⟨v.toNat, by omega⟩) (c - 1)
      else []

/-- `QD_BITMASK_EACH(b, v, c)`: `c` is the cardinality, `v` starts at
`_qdbm_start(b)`; the mask as `_qdbm_start` leaves it, and the bits the loop
visits. -/
def qdBitmaskEach (b : QdBitmask) : QdBitmask × List (Fin qdBitmaskBits) :=
  let c := qdBitmaskCardinality b
  let (b, v) := qdbmStart b
  (b, qdBitmaskEachLoop b qdBitmaskBits v c)

/-! ### Reading a bit -/

/-- Bit `k` of the mask, read from its word. -/
def QdBitmask.bit (b : QdBitmask) (k : Fin qdBitmaskBits) : Bool :=
  b.array[maskIndex k].toNat.testBit (k % 64)

/-- A bit after one word of the mask is written. -/
theorem testBit_set_word (b : QdBitmask) (i k : Fin qdBitmaskBits) (w : UInt64) :
    (b.array.set (maskIndex i) w)[maskIndex k].toNat.testBit (k % 64) =
      if maskIndex i = maskIndex k then w.toNat.testBit (k % 64) else b.bit k := by
  rw [Fin.getElem_fin, Vector.getElem_set]
  by_cases same : maskIndex i = maskIndex k
  · rw [if_pos (congrArg Fin.val same), if_pos same]
  · rw [if_neg (fun eq => same (Fin.ext eq)), if_neg same]
    rfl

end DispatchRouter.Bitmask
