/-
# What each bitmask function does to the bits

A mask's bits are read from its words: bit `k` is bit `k % 64` of word
`k / 64`. Each function of `bitmask.c` is stated here on the bits: which it
sets or clears, what it returns, and how its cached fields move. The searches
are stated as scans: `first_set` looks for the least set bit
(`firstSetRecount_eq`), and `_qdbm_next` for the least set bit after its
argument (`qdbmNext_eq`).
-/

import DispatchRouter.Bitmask.Model

namespace DispatchRouter.Bitmask

open Math

/-- The int the C functions give for a bit number, and -1 for none. -/
def bitOrMinusOne : Option (Fin qdBitmaskBits) → Int
  | some k => k
  | none => -1

namespace QdBitmask

/-- The set bits. -/
def bits (b : QdBitmask) : Finset (Fin qdBitmaskBits) := Finset.univ.filter fun k => b.bit k

/-- The least set bit. -/
def leastSet (b : QdBitmask) : Option (Fin qdBitmaskBits) := (List.finRange qdBitmaskBits).find? b.bit

/-- The least set bit after `k`. -/
def nextSet (b : QdBitmask) (k : Fin qdBitmaskBits) : Option (Fin qdBitmaskBits) :=
  (List.finRange qdBitmaskBits).find? fun j => decide (k < j) && b.bit j

@[simp]
theorem mem_bits {b : QdBitmask} {k : Fin qdBitmaskBits} : k ∈ b.bits ↔ b.bit k := by
  simp [bits]

end QdBitmask

open QdBitmask

variable {b : QdBitmask}

/-! ### Positions in the words -/

theorem val_maskIndex (k : Fin qdBitmaskBits) : (maskIndex k).val = k.val / 64 := rfl

/-- Two bits in one word are equal when their positions in it are. -/
theorem eq_of_maskIndex_eq {i k : Fin qdBitmaskBits} (same : maskIndex i = maskIndex k) :
    k.val % 64 = i.val % 64 ↔ k = i := by
  have words := congrArg Fin.val same
  rw [val_maskIndex, val_maskIndex] at words
  rw [Fin.ext_iff]
  omega

theorem ne_of_maskIndex_ne {i k : Fin qdBitmaskBits} (other : maskIndex i ≠ maskIndex k) : k ≠ i := by
  rintro rfl
  exact other rfl

theorem and_maskOnehot_ne_zero (w : UInt64) (k : Fin qdBitmaskBits) :
    w &&& maskOnehot k ≠ 0 ↔ w.toNat.testBit (k % 64) := by
  rw [maskOnehot, Word.and_onehot_ne_zero, Nat.mod_mod]

@[simp]
theorem and_maskOnehot_eq_zero (w : UInt64) (k : Fin qdBitmaskBits) :
    w &&& maskOnehot k = 0 ↔ w.toNat.testBit (k % 64) = false := by
  rw [maskOnehot, Word.and_onehot_eq_zero, Nat.mod_mod]

/-! ### One lemma for each function -/

theorem qdBitmaskValue_eq (b : QdBitmask) (k : Fin qdBitmaskBits) :
    qdBitmaskValue b k = if b.bit k then 1 else 0 := by
  have tested := and_maskOnehot_ne_zero b.array[maskIndex k] k
  unfold qdBitmaskValue bit
  by_cases set : b.array[maskIndex k].toNat.testBit (k % 64) <;> simp_all [Fin.getElem_fin]

@[simp]
theorem bit_setBit (b : QdBitmask) (i k : Fin qdBitmaskBits) :
    (qdBitmaskSetBit b i).2.bit k = (b.bit k || decide (k = i)) := by
  rw [qdBitmaskSetBit, bit]
  dsimp only
  rw [testBit_set_word]
  by_cases same : maskIndex i = maskIndex k
  · rw [if_pos same, maskOnehot, Word.testBit_or_onehot, Nat.mod_mod]
    simp only [bit, same, eq_of_maskIndex_eq same]
  · rw [if_neg same, decide_eq_false (ne_of_maskIndex_ne same), Bool.or_false]

@[simp]
theorem bit_clearBit (b : QdBitmask) (i k : Fin qdBitmaskBits) :
    (qdBitmaskClearBit b i).2.bit k = (b.bit k && !decide (k = i)) := by
  rw [qdBitmaskClearBit, bit]
  dsimp only
  rw [testBit_set_word]
  by_cases same : maskIndex i = maskIndex k
  · rw [if_pos same, maskOnehot, Word.testBit_and_not_onehot, Nat.mod_mod]
    simp only [bit, same, eq_of_maskIndex_eq same]
  · rw [if_neg same, decide_eq_false (ne_of_maskIndex_ne same), Bool.not_false, Bool.and_true]

@[simp]
theorem bit_setAll (b : QdBitmask) (k : Fin qdBitmaskBits) : (qdBitmaskSetAll b).bit k = true := by
  simp only [bit, qdBitmaskSetAll, Fin.getElem_fin, Vector.getElem_replicate, Word.testBit_allOnes]
  simpa using Nat.mod_lt k.val (by decide : 64 > 0)

@[simp]
theorem bit_clearAll (b : QdBitmask) (k : Fin qdBitmaskBits) : (qdBitmaskClearAll b).bit k = false := by
  simp [bit, qdBitmaskClearAll]

@[simp]
theorem bits_setBit (b : QdBitmask) (i : Fin qdBitmaskBits) : (qdBitmaskSetBit b i).2.bits = insert i b.bits := by
  ext k
  simp [or_comm]

@[simp]
theorem bits_clearBit (b : QdBitmask) (i : Fin qdBitmaskBits) : (qdBitmaskClearBit b i).2.bits = b.bits.erase i := by
  ext k
  simp [and_comm]

@[simp]
theorem bits_setAll (b : QdBitmask) : (qdBitmaskSetAll b).bits = Finset.univ := by
  ext k
  simp

@[simp]
theorem bits_clearAll (b : QdBitmask) : (qdBitmaskClearAll b).bits = ∅ := by
  ext k
  simp

/-- `set_bit` returns the old value of the bit and counts a bit it sets anew. -/
theorem qdBitmaskSetBit_old (b : QdBitmask) (i : Fin qdBitmaskBits) :
    (qdBitmaskSetBit b i).1 = qdBitmaskValue b i ∧
      (qdBitmaskSetBit b i).2.cardinality = if b.bit i then b.cardinality else b.cardinality + 1 := by
  have tested := and_maskOnehot_ne_zero b.array[maskIndex i] i
  rw [qdBitmaskValue_eq]
  unfold qdBitmaskSetBit bit
  by_cases set : b.array[maskIndex i].toNat.testBit (i % 64) <;> simp_all [Fin.getElem_fin]

theorem qdBitmaskSetBit_firstSet (b : QdBitmask) (i : Fin qdBitmaskBits) :
    (qdBitmaskSetBit b i).2.firstSet = if b.firstSet > i ∨ b.firstSet < 0 then (i : Int) else b.firstSet := rfl

/-- `clear_bit` returns the old value of the bit and uncounts a bit it clears. -/
theorem qdBitmaskClearBit_old (b : QdBitmask) (i : Fin qdBitmaskBits) :
    (qdBitmaskClearBit b i).1 = qdBitmaskValue b i ∧
      (qdBitmaskClearBit b i).2.cardinality = if b.bit i then b.cardinality - 1 else b.cardinality := by
  have tested := and_maskOnehot_ne_zero b.array[maskIndex i] i
  rw [qdBitmaskValue_eq]
  unfold qdBitmaskClearBit bit
  by_cases set : b.array[maskIndex i].toNat.testBit (i % 64) <;> simp_all [Fin.getElem_fin]

theorem qdBitmaskClearBit_firstSet (b : QdBitmask) (i : Fin qdBitmaskBits) :
    (qdBitmaskClearBit b i).2.firstSet = if b.firstSet = i then firstUnknown else b.firstSet := rfl

/-! ### The least set bit -/

/-- The position of bit `64 i + j`: word `i`, bit `j` of it. -/
theorem maskIndex_mk {i j : Nat} (small : j < 64) (fits : i * 64 + j < qdBitmaskBits) :
    (maskIndex ⟨i * 64 + j, fits⟩).val = i ∧ (i * 64 + j) % 64 = j := by
  rw [val_maskIndex, Fin.val_mk]
  omega

/-- The search of `first_set` finds the least set bit: first the least word that
is not zero, then the least set bit in it. -/
theorem firstSetRecount_eq (b : QdBitmask) : firstSetRecount b.array = bitOrMinusOne b.leastSet := by
  unfold firstSetRecount
  split
  · rename_i zero
    -- every word is zero, so no bit is set
    rw [Scan.find?_finRange_eq_none] at zero
    have none : b.leastSet = none := by
      rw [leastSet, Scan.find?_finRange_eq_none]
      intro k
      have cleared := (Word.eq_zero_iff _).mp (by simpa using zero (maskIndex k))
      exact cleared _ (Nat.mod_lt _ (by decide))
    rw [none]
    rfl
  · rename_i i nonzero
    obtain ⟨wordSet, before⟩ := (Scan.find?_finRange_eq_some _).mp nonzero
    have wordSet : b.array[i] ≠ 0 := by simpa using wordSet
    split
    · rename_i missing
      -- a word that is not zero has a set bit below 64
      exfalso
      apply wordSet
      rw [Word.eq_zero_iff]
      intro j small
      have := List.find?_range_eq_none.mp missing j small
      simpa [Word.onehot_and_ne_zero, Nat.mod_eq_of_lt small] using this
    · rename_i j found
      obtain ⟨setJ, small, lower⟩ := List.find?_range_eq_some.mp found
      rw [List.mem_range] at small
      have fits : i.val * 64 + j < qdBitmaskBits := by
        have := i.isLt
        unfold qdBitmaskLongs at this
        unfold qdBitmaskBits qdBitmaskLongs
        omega
      obtain ⟨atWord, atBit⟩ := maskIndex_mk small fits
      have least : b.leastSet = some ⟨i.val * 64 + j, fits⟩ := by
        rw [leastSet, Scan.find?_finRange_eq_some]
        constructor
        · have : maskIndex ⟨i.val * 64 + j, fits⟩ = i := Fin.ext atWord
          simp only [bit, this, atBit]
          simpa [Word.onehot_and_ne_zero, Nat.mod_eq_of_lt small] using setJ
        · intro k below
          rw [Fin.lt_def] at below
          by_cases sameWord : k.val / 64 = i.val
          · -- in the word `i`, below bit `j`
            have early := lower (k.val % 64) (by simp only at below; omega)
            have : maskIndex k = i := Fin.ext (by rw [val_maskIndex, sameWord])
            simp only [bit, this]
            simpa [Word.onehot_and_ne_zero, Nat.mod_mod] using early
          · -- in a word before `i`, which is zero
            have earlier : maskIndex k < i := by
              rw [Fin.lt_def, val_maskIndex]
              simp only at below
              omega
            have zero : b.array[maskIndex k] = 0 := by simpa using before _ earlier
            simp [bit, zero]
      rw [least]
      rfl

/-! ### The scan of `_qdbm_next` -/

/-- One step of the scan moves from bit `k` to bit `k + 1`. -/
theorem qdbmAdvance_eq {k next : Fin qdBitmaskBits} (succ : next.val = k.val + 1) :
    qdbmAdvance (maskIndex k) (maskOnehot k) = some (maskIndex next, maskOnehot next) := by
  have bound := next.isLt
  unfold qdBitmaskBits qdBitmaskLongs at bound
  unfold qdbmAdvance
  by_cases top : k.val % 64 = 63
  · -- bit 63 of its word: on to bit 0 of the next word
    have topSet : maskOnehot k &&& Word.topBit ≠ 0 := by
      rw [maskOnehot, Word.onehot_and_topBit_ne_zero, Nat.mod_mod, top]
    have word : (maskIndex k).val + 1 < qdBitmaskLongs := by
      rw [val_maskIndex]
      unfold qdBitmaskLongs
      omega
    rw [if_pos (by simpa using topSet), dif_pos word, Option.some.injEq, Prod.mk.injEq]
    constructor
    · apply Fin.ext
      simp only [val_maskIndex]
      omega
    · rw [maskOnehot, Word.one_eq_onehot_zero, show next.val % 64 = 0 by omega]
  · -- below bit 63: the one-hot word shifts within its word
    have topClear : ¬maskOnehot k &&& Word.topBit ≠ 0 := by
      rw [maskOnehot, Word.onehot_and_topBit_ne_zero, Nat.mod_mod]
      exact top
    rw [if_neg (by simpa using topClear), Option.some.injEq, Prod.mk.injEq]
    constructor
    · apply Fin.ext
      rw [val_maskIndex, val_maskIndex]
      omega
    · rw [maskOnehot, maskOnehot, Word.onehot_shiftLeft_one (by rw [Nat.mod_mod]; omega)]
      congr 1
      omega

/-- After the last bit the scan ends. -/
theorem qdbmAdvance_last {k : Fin qdBitmaskBits} (last : k.val + 1 = qdBitmaskBits) :
    qdbmAdvance (maskIndex k) (maskOnehot k) = none := by
  unfold qdBitmaskBits qdBitmaskLongs at last
  have topSet : maskOnehot k &&& Word.topBit ≠ 0 := by
    rw [maskOnehot, Word.onehot_and_topBit_ne_zero, Nat.mod_mod]
    omega
  have word : ¬(maskIndex k).val + 1 < qdBitmaskLongs := by
    rw [val_maskIndex]
    unfold qdBitmaskLongs
    omega
  unfold qdbmAdvance
  rw [if_pos (by simpa using topSet), dif_neg word]

/-- The next set bit after `k` is `k + 1` when that bit is set, and the next set
bit after `k + 1` otherwise. -/
theorem nextSet_succ (b : QdBitmask) {k next : Fin qdBitmaskBits} (succ : next.val = k.val + 1) :
    b.nextSet k = if b.bit next then some next else b.nextSet next := by
  split
  · rename_i set
    rw [nextSet, Scan.find?_finRange_eq_some]
    refine ⟨by simp [Fin.lt_def, set, succ], fun j below => ?_⟩
    have : ¬k < j := by
      rw [Fin.lt_def] at below ⊢
      omega
    simp [this]
  · rename_i clear
    unfold nextSet
    congr 1
    funext j
    by_cases atNext : j = next
    · subst atNext
      simp [clear]
    · have : k < j ↔ next < j := by
        rw [Fin.lt_def, Fin.lt_def]
        have : j.val ≠ next.val := fun same => atNext (Fin.ext same)
        omega
      simp [this]

theorem nextSet_last (b : QdBitmask) {k : Fin qdBitmaskBits} (last : k.val + 1 = qdBitmaskBits) :
    b.nextSet k = none := by
  rw [nextSet, Scan.find?_finRange_eq_none]
  intro j
  have : ¬k < j := by
    rw [Fin.lt_def]
    have := j.isLt
    omega
  simp [this]

/-- The loop of `_qdbm_next` from bit `k` gives the next set bit after it, when
its fuel reaches past the last bit; by induction on the fuel. -/
theorem qdbmNextLoop_eq (b : QdBitmask) (fuel : Nat) (k : Fin qdBitmaskBits)
    (enough : qdBitmaskBits ≤ k.val + fuel + 1) :
    qdbmNextLoop b fuel (maskIndex k) (maskOnehot k) k = bitOrMinusOne (b.nextSet k) := by
  induction fuel generalizing k with
  | zero =>
      rw [nextSet_last b (by have := k.isLt; omega)]
      rfl
  | succ fuel ih =>
      rw [qdbmNextLoop]
      by_cases last : k.val + 1 = qdBitmaskBits
      · rw [qdbmAdvance_last last, nextSet_last b last]
        rfl
      · let next : Fin qdBitmaskBits := ⟨k.val + 1, by have := k.isLt; omega⟩
        have succ : next.val = k.val + 1 := rfl
        rw [qdbmAdvance_eq succ, nextSet_succ b succ]
        dsimp only
        by_cases set : b.bit next
        · have hit : (b.array[maskIndex next] &&& maskOnehot next != 0) = true := by
            simpa [bit] using set
          rw [if_pos hit, if_pos set]
          rfl
        · have miss : ¬(b.array[maskIndex next] &&& maskOnehot next != 0) = true := by
            simpa [bit] using set
          have later := ih next (by omega)
          rw [if_neg miss, if_neg set, ← later]
          rfl

/-- `_qdbm_next` gives the next set bit after `v`, or -1. -/
theorem qdbmNext_eq (b : QdBitmask) (v : Fin qdBitmaskBits) : qdbmNext b v = bitOrMinusOne (b.nextSet v) := by
  unfold qdbmNext
  split
  · rename_i last
    rw [nextSet_last b (by unfold qdBitmaskBits qdBitmaskLongs at *; omega)]
    rfl
  · exact qdbmNextLoop_eq b qdBitmaskBits v (by omega)

end DispatchRouter.Bitmask
