/-
# The cached fields of the bitmask, over every run

What a `qd_bitmask_t` is for: a finite set of router mask bits, which the
calls change as `Op.onBits` says (`bits_run`). Its two cached fields are kept
as follows.

`cardinality` always counts the set bits, and `first_set` is `FIRST_UNKNOWN`,
or `FIRST_NONE` with no bit set, or a set bit (`Coherent`). Every call keeps
that, so every run from `qd_bitmask` does (`coherent_run`): the count, the
values and the answers of `qd_bitmask_first_set` are sound, and
`QD_BITMASK_EACH` visits, in increasing order and each once, the set bits from
the one `_qdbm_start` gives (`qdBitmaskEach_eq`).

`first_set` need not be the least set bit, though. `Exact` says it is, unless
it is `FIRST_UNKNOWN`; every call keeps that but one:
`qd_bitmask_set_bit` takes the bit it sets as the least one whenever
`first_set` is negative, and after the least set bit was cleared `first_set`
is `FIRST_UNKNOWN` while other bits may be set below the new one
(`setBit_stale`). `qd_bitmask_first_set` then gives a set bit that is not the
least, and `QD_BITMASK_EACH` skips every set bit below it.
-/

import DispatchRouter.Bitmask.Bits

namespace DispatchRouter.Bitmask

open Math QdBitmask

/-- The calls that write a mask; `qd_bitmask_first_set` writes the cache. -/
inductive Op
  | setBit (bitnum : Fin qdBitmaskBits)
  | clearBit (bitnum : Fin qdBitmaskBits)
  | setAll
  | clearAll
  | firstSet
  deriving DecidableEq

/-- The mask after a call. -/
def Op.apply (b : QdBitmask) : Op → QdBitmask
  | .setBit i => (qdBitmaskSetBit b i).2
  | .clearBit i => (qdBitmaskClearBit b i).2
  | .setAll => qdBitmaskSetAll b
  | .clearAll => qdBitmaskClearAll b
  | .firstSet => (qdBitmaskFirstSet b).1

/-- What a call does to the set of bits. -/
def Op.onBits (s : Finset (Fin qdBitmaskBits)) : Op → Finset (Fin qdBitmaskBits)
  | .setBit i => insert i s
  | .clearBit i => s.erase i
  | .setAll => Finset.univ
  | .clearAll => ∅
  | .firstSet => s

variable {b : QdBitmask}

/-! ### The least set bit -/

theorem bit_iff_mem {k : Fin qdBitmaskBits} : b.bit k = true ↔ k ∈ b.bits := mem_bits.symm

/-- The least set bit depends on the set bits alone. -/
theorem leastSet_eq_some_iff {k : Fin qdBitmaskBits} : b.leastSet = some k ↔ k ∈ b.bits ∧ ∀ j ∈ b.bits, k ≤ j := by
  rw [leastSet, Scan.find?_finRange_eq_some]
  constructor
  · rintro ⟨set, least⟩
    refine ⟨mem_bits.mpr set, fun j member => not_lt.mp fun below => ?_⟩
    have := least j below
    rw [mem_bits] at member
    simp_all
  · rintro ⟨member, least⟩
    refine ⟨mem_bits.mp member, fun j below => ?_⟩
    by_contra set
    exact absurd (least j (mem_bits.mpr (by simpa using set))) (not_le.mpr below)

theorem leastSet_eq_none_iff : b.leastSet = none ↔ b.bits = ∅ := by
  rw [leastSet, Scan.find?_finRange_eq_none, Finset.eq_empty_iff_forall_notMem]
  simp

/-! ### The first-set call -/

theorem qdBitmaskFirstSet_array (b : QdBitmask) : (qdBitmaskFirstSet b).1.array = b.array := by
  unfold qdBitmaskFirstSet qdBitmaskRecount
  split <;> rfl

theorem qdBitmaskFirstSet_cardinality (b : QdBitmask) : (qdBitmaskFirstSet b).1.cardinality = b.cardinality := by
  unfold qdBitmaskFirstSet qdBitmaskRecount
  split <;> rfl

@[simp]
theorem bit_qdBitmaskFirstSet (b : QdBitmask) : (qdBitmaskFirstSet b).1.bit = b.bit := by
  funext k
  simp only [bit, qdBitmaskFirstSet_array]

@[simp]
theorem bits_qdBitmaskFirstSet (b : QdBitmask) : (qdBitmaskFirstSet b).1.bits = b.bits := by
  simp [bits]

/-- `qd_bitmask_first_set` looks for the least set bit when the cache is
`FIRST_UNKNOWN`, and answers from the cache. -/
theorem qdBitmaskFirstSet_eq (b : QdBitmask) :
    (qdBitmaskFirstSet b).1.firstSet = (if b.firstSet = firstUnknown then bitOrMinusOne b.leastSet else b.firstSet) ∧
      (qdBitmaskFirstSet b).2 =
        if (qdBitmaskFirstSet b).1.firstSet = firstNone then none else some (qdBitmaskFirstSet b).1.firstSet := by
  refine ⟨?_, rfl⟩
  unfold qdBitmaskFirstSet qdBitmaskRecount
  split
  · exact firstSetRecount_eq b
  · rfl

/-! ### What every call keeps -/

/-- The cache tells the truth: `cardinality` counts the set bits, and a
`first_set` that is not `FIRST_UNKNOWN` is `FIRST_NONE` for no set bit or a set
bit. -/
structure Coherent (b : QdBitmask) : Prop where
  cardinality_eq : b.cardinality = b.bits.card
  none_empty : b.firstSet = firstNone → b.bits = ∅
  cached : 0 ≤ b.firstSet → ∃ k ∈ b.bits, b.firstSet = k

/-- The cache holds the least set bit, unless it is `FIRST_UNKNOWN`. -/
def Exact (b : QdBitmask) : Prop := b.firstSet ≠ firstUnknown → b.firstSet = bitOrMinusOne b.leastSet

theorem coherent_qdBitmask (initial : Bool) (fresh : QdBitmask) :
    Coherent (qdBitmask initial fresh) ∧ Exact (qdBitmask initial fresh) := by
  cases initial with
  | true =>
      show Coherent (qdBitmaskSetAll fresh) ∧ Exact (qdBitmaskSetAll fresh)
      have least : (qdBitmaskSetAll fresh).leastSet = some 0 :=
        leastSet_eq_some_iff.mpr ⟨by simp, fun j _ => Fin.zero_le j⟩
      refine ⟨⟨?_, fun none => ?_, fun _ => ⟨0, by simp, rfl⟩⟩, fun _ => ?_⟩
      · rw [bits_setAll, Finset.card_univ, Fintype.card_fin]
        rfl
      · simp [qdBitmaskSetAll, firstNone] at none
      · rw [least]
        rfl
  | false =>
      show Coherent (qdBitmaskClearAll fresh) ∧ Exact (qdBitmaskClearAll fresh)
      have least : (qdBitmaskClearAll fresh).leastSet = none := leastSet_eq_none_iff.mpr (bits_clearAll fresh)
      refine ⟨⟨?_, fun _ => bits_clearAll fresh, fun nonneg => ?_⟩, fun _ => ?_⟩
      · rw [bits_clearAll, Finset.card_empty]
        rfl
      · simp [qdBitmaskClearAll, firstNone] at nonneg
      · rw [least]
        rfl

theorem Coherent.setBit (coherent : Coherent b) (i : Fin qdBitmaskBits) : Coherent (qdBitmaskSetBit b i).2 := by
  have bound := b.firstSet_ge
  refine ⟨?_, fun none => ?_, fun nonneg => ?_⟩
  · -- a bit set anew is counted
    rw [(qdBitmaskSetBit_old b i).2, bits_setBit, coherent.cardinality_eq]
    split
    · rename_i set
      rw [Finset.insert_eq_of_mem (bit_iff_mem.mp set)]
    · rename_i clear
      rw [Finset.card_insert_of_notMem (fun member => clear (bit_iff_mem.mpr member))]
      push_cast
      rfl
  · -- a negative cache becomes the bit set, so it is never `FIRST_NONE`
    rw [qdBitmaskSetBit_firstSet] at none
    unfold firstNone at none
    split at none <;> omega
  · rw [qdBitmaskSetBit_firstSet] at nonneg ⊢
    split
    · exact ⟨i, by simp, rfl⟩
    · rename_i keep
      rw [if_neg keep] at nonneg
      obtain ⟨k, member, cached⟩ := coherent.cached nonneg
      exact ⟨k, by simp [member], cached⟩

theorem Coherent.clearBit (coherent : Coherent b) (i : Fin qdBitmaskBits) :
    Coherent (qdBitmaskClearBit b i).2 := by
  refine ⟨?_, fun none => ?_, fun nonneg => ?_⟩
  · -- a bit that was set is uncounted
    rw [(qdBitmaskClearBit_old b i).2, bits_clearBit, coherent.cardinality_eq]
    split
    · rename_i set
      have member := bit_iff_mem.mp set
      rw [Finset.card_erase_of_mem member]
      have : 1 ≤ b.bits.card := Finset.card_pos.mpr ⟨i, member⟩
      push_cast [this]
      rfl
    · rename_i clear
      rw [Finset.erase_eq_of_notMem (fun member => clear (bit_iff_mem.mpr member))]
  · -- the cache kept `FIRST_NONE`: nothing was set
    rw [qdBitmaskClearBit_firstSet] at none
    split at none
    · simp [firstUnknown, firstNone] at none
    · rw [bits_clearBit, coherent.none_empty none, Finset.erase_empty]
  · -- the cache kept a set bit other than `i`
    rw [qdBitmaskClearBit_firstSet] at nonneg ⊢
    split
    · rename_i cleared
      rw [if_pos cleared] at nonneg
      simp [firstUnknown] at nonneg
    · rename_i kept
      rw [if_neg kept] at nonneg
      obtain ⟨k, member, cached⟩ := coherent.cached nonneg
      refine ⟨k, ?_, cached⟩
      rw [bits_clearBit, Finset.mem_erase]
      exact ⟨fun same => kept (by rw [cached, same]), member⟩

theorem Coherent.firstSet (coherent : Coherent b) : Coherent (qdBitmaskFirstSet b).1 := by
  obtain ⟨cache, -⟩ := qdBitmaskFirstSet_eq b
  refine ⟨?_, fun none => ?_, fun nonneg => ?_⟩
  · rw [qdBitmaskFirstSet_cardinality, bits_qdBitmaskFirstSet]
    exact coherent.cardinality_eq
  · rw [bits_qdBitmaskFirstSet]
    rw [cache] at none
    split at none
    · -- the search found nothing
      cases least : b.leastSet with
      | none => exact leastSet_eq_none_iff.mp least
      | some k =>
          rw [least] at none
          simp [bitOrMinusOne, firstNone] at none
    · exact coherent.none_empty none
  · rw [bits_qdBitmaskFirstSet]
    rw [cache] at nonneg ⊢
    split
    · cases least : b.leastSet with
      | none =>
          rw [if_pos (by assumption), least] at nonneg
          simp [bitOrMinusOne] at nonneg
      | some k => exact ⟨k, (leastSet_eq_some_iff.mp least).1, rfl⟩
    · rename_i known
      rw [if_neg known] at nonneg
      exact coherent.cached nonneg

theorem Coherent.apply (coherent : Coherent b) : ∀ op : Op, Coherent (op.apply b)
  | .setBit i => coherent.setBit i
  | .clearBit i => coherent.clearBit i
  | .setAll => (coherent_qdBitmask true b).1
  | .clearAll => (coherent_qdBitmask false b).1
  | .firstSet => coherent.firstSet

/-- Every run keeps the cache telling the truth; by induction on the run. -/
theorem coherent_run (coherent : Coherent b) (ops : List Op) : Coherent (ops.foldl Op.apply b) := by
  induction ops generalizing b with
  | nil => exact coherent
  | cons op ops ih => exact ih (coherent.apply op)

theorem bits_apply (b : QdBitmask) : ∀ op : Op, (op.apply b).bits = op.onBits b.bits
  | .setBit i => bits_setBit b i
  | .clearBit i => bits_clearBit b i
  | .setAll => bits_setAll b
  | .clearAll => bits_clearAll b
  | .firstSet => bits_qdBitmaskFirstSet b

/-- A run changes the set of bits as the set operations do; by induction on the
run. -/
theorem bits_run (b : QdBitmask) (ops : List Op) : (ops.foldl Op.apply b).bits = ops.foldl Op.onBits b.bits := by
  induction ops generalizing b with
  | nil => rfl
  | cons op ops ih => rw [List.foldl_cons, List.foldl_cons, ih, bits_apply]

/-! ### The answers of a coherent mask -/

theorem qdBitmaskValue_of_mem (b : QdBitmask) (k : Fin qdBitmaskBits) :
    qdBitmaskValue b k = if k ∈ b.bits then 1 else 0 := by
  simp only [qdBitmaskValue_eq, mem_bits]

/-- After `qd_bitmask_first_set` the cache is never `FIRST_UNKNOWN`. -/
theorem qdBitmaskFirstSet_known (b : QdBitmask) : (qdBitmaskFirstSet b).1.firstSet ≠ firstUnknown := by
  rw [(qdBitmaskFirstSet_eq b).1]
  split
  · cases b.leastSet <;> simp [bitOrMinusOne, firstUnknown]
  · assumption

/-- A cache that tells the truth and is not `FIRST_UNKNOWN` is `FIRST_NONE`
with no bit set, or a set bit. -/
theorem Coherent.firstSet_cases (coherent : Coherent b) (known : b.firstSet ≠ firstUnknown) :
    (b.firstSet = firstNone ∧ b.bits = ∅) ∨ ∃ k ∈ b.bits, b.firstSet = k := by
  by_cases none : b.firstSet = firstNone
  · exact .inl ⟨none, coherent.none_empty none⟩
  · have bound := b.firstSet_ge
    unfold firstNone firstUnknown at *
    exact .inr (coherent.cached (by omega))

/-- `qd_bitmask_first_set` answers nothing exactly when no bit is set, and
otherwise a set bit. -/
theorem Coherent.qdBitmaskFirstSet_sound (coherent : Coherent b) :
    ((qdBitmaskFirstSet b).2 = none ↔ b.bits = ∅) ∧
      ∀ v, (qdBitmaskFirstSet b).2 = some v → ∃ k ∈ b.bits, v = k := by
  have answer := (qdBitmaskFirstSet_eq b).2
  have cases := coherent.firstSet.firstSet_cases (qdBitmaskFirstSet_known b)
  rw [bits_qdBitmaskFirstSet] at cases
  rcases cases with ⟨none, empty⟩ | ⟨k, member, cached⟩
  · rw [answer, if_pos none]
    exact ⟨⟨fun _ => empty, fun _ => rfl⟩, fun v answered => by cases answered⟩
  · have notNone : (qdBitmaskFirstSet b).1.firstSet ≠ firstNone := by
      rw [cached]
      unfold firstNone
      omega
    rw [answer, if_neg notNone]
    refine ⟨⟨fun answered => (by cases answered), fun empty => (by simp [empty] at member)⟩,
      fun v answered => ⟨k, member, ?_⟩⟩
    rw [← cached]
    exact (Option.some.inj answered).symm

/-- With an exact cache, `qd_bitmask_first_set` answers the least set bit. -/
theorem qdBitmaskFirstSet_of_exact (exact : Exact b) :
    (qdBitmaskFirstSet b).2 = b.leastSet.map fun k : Fin qdBitmaskBits => (k.val : Int) := by
  obtain ⟨cache, answer⟩ := qdBitmaskFirstSet_eq b
  have least : (qdBitmaskFirstSet b).1.firstSet = bitOrMinusOne b.leastSet := by
    rw [cache]
    split
    · rfl
    · exact exact (by assumption)
  rw [answer, least]
  cases b.leastSet with
  | none => rfl
  | some k =>
      have : ((k : Nat) : Int) ≠ firstNone := by unfold firstNone; omega
      simp [bitOrMinusOne, this]

/-! ### What the calls do to an exact cache -/

theorem Exact.setBit (exact : Exact b) (i : Fin qdBitmaskBits)
    (known : b.firstSet ≠ firstUnknown ∨ ∀ j ∈ b.bits, i ≤ j) : Exact (qdBitmaskSetBit b i).2 := by
  intro _
  rw [qdBitmaskSetBit_firstSet]
  by_cases unknown : b.firstSet = firstUnknown
  · -- the bit set is below every set bit, and the negative cache takes it
    have lowest := known.resolve_left (not_not.mpr unknown)
    have now : (qdBitmaskSetBit b i).2.leastSet = some i :=
      leastSet_eq_some_iff.mpr ⟨by simp, by simpa using lowest⟩
    rw [now, if_pos (by rw [unknown]; right; decide)]
    rfl
  have cache := exact unknown
  cases least : b.leastSet with
  | none =>
      -- nothing was set: `i` is the least and only set bit
      rw [least] at cache
      have now : (qdBitmaskSetBit b i).2.leastSet = some i :=
        leastSet_eq_some_iff.mpr ⟨by simp, by simp [leastSet_eq_none_iff.mp least]⟩
      rw [now, if_pos (by rw [cache]; right; decide)]
      rfl
  | some k =>
      obtain ⟨member, lowest⟩ := leastSet_eq_some_iff.mp least
      rw [least] at cache
      simp only [bitOrMinusOne] at cache
      by_cases below : i < k
      · -- a new least bit
        have now : (qdBitmaskSetBit b i).2.leastSet = some i :=
          leastSet_eq_some_iff.mpr ⟨by simp, by
            simp only [bits_setBit, Finset.mem_insert, forall_eq_or_imp, le_refl, true_and]
            exact fun j member => le_of_lt (lt_of_lt_of_le below (lowest j member))⟩
        rw [now, if_pos (by rw [cache]; left; exact_mod_cast below)]
        rfl
      · -- the least bit stays
        have now : (qdBitmaskSetBit b i).2.leastSet = some k :=
          leastSet_eq_some_iff.mpr ⟨by simp [member], by
            simp only [bits_setBit, Finset.mem_insert, forall_eq_or_imp]
            exact ⟨not_lt.mp below, lowest⟩⟩
        have keep : ¬(b.firstSet > i ∨ b.firstSet < 0) := by
          rw [cache, not_or, not_lt, not_lt]
          exact ⟨by exact_mod_cast not_lt.mp below, by omega⟩
        rw [now, if_neg keep, cache]
        rfl

theorem leastSet_congr {a : QdBitmask} (same : a.bit = b.bit) : a.leastSet = b.leastSet := by
  rw [leastSet, leastSet, same]

theorem Exact.clearBit (exact : Exact b) (i : Fin qdBitmaskBits) : Exact (qdBitmaskClearBit b i).2 := by
  intro known
  rw [qdBitmaskClearBit_firstSet] at known ⊢
  by_cases cleared : b.firstSet = i
  · rw [if_pos cleared] at known
    exact absurd rfl known
  rw [if_neg cleared] at known ⊢
  have cache := exact known
  cases least : b.leastSet with
  | none =>
      -- nothing was set, and nothing is
      have now : (qdBitmaskClearBit b i).2.leastSet = none := by
        rw [leastSet_eq_none_iff, bits_clearBit, leastSet_eq_none_iff.mp least, Finset.erase_empty]
      rw [now, ← least, cache]
  | some k =>
      -- the least set bit is not the one cleared, and stays the least
      obtain ⟨member, lowest⟩ := leastSet_eq_some_iff.mp least
      rw [least] at cache
      have other : k ≠ i := fun same => cleared (by rw [cache, same]; rfl)
      have now : (qdBitmaskClearBit b i).2.leastSet = some k :=
        leastSet_eq_some_iff.mpr ⟨by simp [other, member], fun j kept => lowest j (Finset.mem_of_mem_erase (by simpa using kept))⟩
      rw [now, cache]

theorem Exact.firstSet (exact : Exact b) : Exact (qdBitmaskFirstSet b).1 := by
  intro _
  rw [(qdBitmaskFirstSet_eq b).1, leastSet_congr (bit_qdBitmaskFirstSet b)]
  split
  · rfl
  · exact exact (by assumption)

/-- Every call but one keeps the cache exact: `qd_bitmask_set_bit` on a
`FIRST_UNKNOWN` cache with a set bit below the bit it sets. -/
theorem Exact.apply (exact : Exact b) (op : Op)
    (guard : ∀ i, op = .setBit i → b.firstSet ≠ firstUnknown ∨ ∀ j ∈ b.bits, i ≤ j) : Exact (op.apply b) := by
  cases op with
  | setBit i => exact exact.setBit i (guard i rfl)
  | clearBit i => exact exact.clearBit i
  | setAll => exact (coherent_qdBitmask true b).2
  | clearAll => exact (coherent_qdBitmask false b).2
  | firstSet => exact exact.firstSet

/-! ### The iteration -/

theorem qdbmStart_eq (b : QdBitmask) : qdbmStart b = ((qdBitmaskFirstSet b).1, ((qdBitmaskFirstSet b).2).getD (-1)) := by
  unfold qdbmStart
  split <;> simp_all

theorem qdBitmaskEachLoop_minusOne (b : QdBitmask) (fuel : Nat) (c : Int) : qdBitmaskEachLoop b fuel (-1) c = [] := by
  cases fuel with
  | zero => rfl
  | succ fuel =>
      rw [qdBitmaskEachLoop, dif_neg]
      omega

/-- A round of the loop at a bit number with the count not spent. -/
theorem qdBitmaskEachLoop_cons (b : QdBitmask) (fuel : Nat) (k : Fin qdBitmaskBits) {c : Int} (left : c ≠ 0) :
    qdBitmaskEachLoop b (fuel + 1) k c = k :: qdBitmaskEachLoop b fuel (qdbmNext b k) (c - 1) := by
  have bound := k.isLt
  have round : 0 ≤ ((k : Nat) : Int) ∧ ((k : Nat) : Int) < qdBitmaskBits ∧ c ≠ 0 := ⟨by omega, by omega, left⟩
  rw [qdBitmaskEachLoop, dif_pos round]
  have same : (⟨((k : Nat) : Int).toNat, by omega⟩ : Fin qdBitmaskBits) = k := Fin.ext (Int.toNat_natCast _)
  rw [same]

/-- From a set bit `k`, with the count and the fuel no less than the set bits
from `k` on, the loop visits exactly those, in increasing order; by induction on
the fuel, each round going on to the next set bit. -/
theorem qdBitmaskEachLoop_eq (b : QdBitmask) (fuel : Nat) (k : Fin qdBitmaskBits) (set : b.bit k) (c : Int)
    (count : ((Scan.fromOn b.bit k).length : Int) ≤ c) (enough : (Scan.fromOn b.bit k).length ≤ fuel) :
    qdBitmaskEachLoop b fuel k c = Scan.fromOn b.bit k := by
  induction fuel generalizing k c with
  | zero =>
      have : k ∈ Scan.fromOn b.bit k := (Scan.mem_fromOn _).mpr ⟨le_refl k, set⟩
      have := List.length_pos_of_mem this
      omega
  | succ fuel ih =>
      have listed := Scan.fromOn_eq_cons b.bit set
      have longer := congrArg List.length listed
      rw [List.length_cons] at longer
      rw [qdBitmaskEachLoop_cons b fuel k (by omega), qdbmNext_eq, listed]
      congr 1
      cases next : b.nextSet k with
      | none =>
          rw [Scan.after_eq_nil b.bit next]
          exact qdBitmaskEachLoop_minusOne b fuel (c - 1)
      | some m =>
          have setM : b.bit m := by
            have := ((Scan.find?_finRange_eq_some _).mp next).1
            simp only [Bool.and_eq_true] at this
            exact this.2
          rw [Scan.after_eq_fromOn b.bit next] at longer ⊢
          exact ih m setM (c - 1) (by omega) (by omega)

/-- `QD_BITMASK_EACH` on a coherent mask visits, in increasing order and each
once, the set bits from the one `_qdbm_start` gives. -/
theorem qdBitmaskEach_eq (coherent : Coherent b) :
    (qdBitmaskEach b).2 =
      (List.finRange qdBitmaskBits).filter fun j : Fin qdBitmaskBits => decide ((qdbmStart b).2 ≤ j.val) && b.bit j := by
  obtain ⟨empty, found⟩ := coherent.qdBitmaskFirstSet_sound
  have start := qdbmStart_eq b
  unfold qdBitmaskEach
  rw [start]
  dsimp only
  cases answer : (qdBitmaskFirstSet b).2 with
  | none =>
      -- no bit is set
      have none := empty.mp answer
      rw [Option.getD_none, qdBitmaskEachLoop_minusOne]
      symm
      rw [List.filter_eq_nil_iff]
      intro j _
      have cleared : j ∉ b.bits := by simp [none]
      have : b.bit j = false := by simpa using cleared
      simp [this]
  | some v =>
      obtain ⟨k, member, rfl⟩ := found v answer
      have fromK : (List.finRange qdBitmaskBits).filter (fun j : Fin qdBitmaskBits => decide ((k.val : Int) ≤ j.val) && b.bit j) =
          Scan.fromOn b.bit k := by
        apply List.filter_congr
        intro j _
        simp only [Int.ofNat_le]
        rfl
      rw [Option.getD_some, fromK]
      -- the count is the number of set bits, no less than those from `k` on
      have counted : ((Scan.fromOn b.bit k).length : Int) ≤ b.cardinality := by
        rw [coherent.cardinality_eq]
        exact_mod_cast Scan.length_fromOn_le_card b.bit k
      have loop := qdBitmaskEachLoop_eq (qdBitmaskFirstSet b).1 qdBitmaskBits k (by simpa using member) b.cardinality
        (by simpa using counted) (by simpa using Scan.length_fromOn_le b.bit k)
      rw [bit_qdBitmaskFirstSet] at loop
      exact loop

/-- With an exact cache, `QD_BITMASK_EACH` visits every set bit, in increasing
order and each once. -/
theorem qdBitmaskEach_of_exact (coherent : Coherent b) (exact : Exact b) :
    (qdBitmaskEach b).2 = (List.finRange qdBitmaskBits).filter b.bit := by
  rw [qdBitmaskEach_eq coherent, qdbmStart_eq, qdBitmaskFirstSet_of_exact exact]
  apply List.filter_congr
  intro j _
  cases least : b.leastSet with
  | none => simp
  | some k =>
      by_cases set : b.bit j
      · -- a set bit is at or above the least one
        have lowest := (leastSet_eq_some_iff.mp least).2 j (mem_bits.mpr set)
        simp only [Option.map_some, Option.getD_some, Int.ofNat_le, set, Bool.and_true, decide_eq_true_eq]
        exact lowest
      · simp [set]

/-- After the least set bit was cleared, so that the cache is `FIRST_UNKNOWN`,
setting a bit `i` above a set bit `j` puts `i` in the cache:
`qd_bitmask_first_set` answers `i`, which is not the least set bit, and
`QD_BITMASK_EACH` skips `j`. -/
theorem setBit_stale (coherent : Coherent b) (unknown : b.firstSet = firstUnknown) {i j : Fin qdBitmaskBits}
    (member : j ∈ b.bits) (below : j < i) :
    (qdBitmaskFirstSet (qdBitmaskSetBit b i).2).2 = some (i.val : Int) ∧ j ∈ (qdBitmaskSetBit b i).2.bits ∧
      j ∉ (qdBitmaskEach (qdBitmaskSetBit b i).2).2 := by
  have cache : (qdBitmaskSetBit b i).2.firstSet = i := by
    rw [qdBitmaskSetBit_firstSet, if_pos (by rw [unknown]; right; decide)]
  have answer : (qdBitmaskFirstSet (qdBitmaskSetBit b i).2).2 = some (i.val : Int) := by
    obtain ⟨kept, answered⟩ := qdBitmaskFirstSet_eq (qdBitmaskSetBit b i).2
    have known : (qdBitmaskSetBit b i).2.firstSet ≠ firstUnknown := by rw [cache]; unfold firstUnknown; omega
    rw [if_neg known, cache] at kept
    rw [answered, kept, if_neg (by unfold firstNone; omega)]
  refine ⟨answer, by simp [member], ?_⟩
  -- the iteration starts at `i`, above `j`
  rw [qdBitmaskEach_eq (coherent.setBit i), qdbmStart_eq, answer, Option.getD_some]
  simp only [List.mem_filter, Bool.and_eq_true, decide_eq_true_eq, Int.ofNat_le, not_and]
  exact fun _ atLeast => absurd below (not_lt.mpr atLeast)

/-- What holds of every run from `qd_bitmask`: the set of bits moves as the
calls say, `qd_bitmask_cardinality` counts it, `qd_bitmask_value` reads it,
`qd_bitmask_first_set` answers nothing exactly for the empty set and otherwise a
member, and `QD_BITMASK_EACH` visits, in increasing order and each once, the
members from the one `_qdbm_start` gives. -/
theorem bitmask_run (initial : Bool) (fresh : QdBitmask) (ops : List Op) :
    let b := ops.foldl Op.apply (qdBitmask initial fresh)
    let bits := ops.foldl Op.onBits (if initial then Finset.univ else ∅)
    b.bits = bits ∧ qdBitmaskCardinality b = bits.card ∧ (∀ k, qdBitmaskValue b k = if k ∈ bits then 1 else 0) ∧
      ((qdBitmaskFirstSet b).2 = none ↔ bits = ∅) ∧ (∀ v, (qdBitmaskFirstSet b).2 = some v → ∃ k ∈ bits, v = k) ∧
      (qdBitmaskEach b).2 =
        (List.finRange qdBitmaskBits).filter fun j : Fin qdBitmaskBits => decide ((qdbmStart b).2 ≤ j.val) && decide (j ∈ bits) := by
  intro b bits
  have start : (qdBitmask initial fresh).bits = if initial then Finset.univ else ∅ := by
    cases initial
    · exact bits_clearAll fresh
    · exact bits_setAll fresh
  have same : b.bits = bits := by rw [bits_run, start]
  have coherent : Coherent b := coherent_run (coherent_qdBitmask initial fresh).1 ops
  obtain ⟨empty, found⟩ := coherent.qdBitmaskFirstSet_sound
  refine ⟨same, ?_, fun k => ?_, ?_, ?_, ?_⟩
  · rw [← same]
    exact coherent.cardinality_eq
  · rw [qdBitmaskValue_of_mem, same]
  · rw [← same]
    exact empty
  · rw [← same]
    exact found
  · rw [qdBitmaskEach_eq coherent, ← same]
    simp only [mem_bits, Bool.decide_eq_true]

/-- From an empty mask: set bits 1 and 5, clear bit 1 (the least, so the cache
becomes `FIRST_UNKNOWN`), set bit 10. Bits 5 and 10 are set, but
`qd_bitmask_first_set` answers 10 and `QD_BITMASK_EACH` visits 10 alone. -/
theorem first_set_stale_after_clearing_least (fresh : QdBitmask) :
    let b := [Op.setBit 1, .setBit 5, .clearBit 1, .setBit 10].foldl Op.apply (qdBitmask false fresh)
    qdBitmaskValue b 5 = 1 ∧ qdBitmaskValue b 10 = 1 ∧ qdBitmaskCardinality b = 2 ∧
      (qdBitmaskFirstSet b).2 = some 10 ∧ (qdBitmaskEach b).2 = [10] := by
  -- the empty mask does not depend on the block it was made from, so the run
  -- is evaluated from any one
  exact (by decide :
    let b := [Op.setBit 1, .setBit 5, .clearBit 1, .setBit 10].foldl Op.apply
      (qdBitmask false default);
    qdBitmaskValue b 5 = 1 ∧ qdBitmaskValue b 10 = 1 ∧ qdBitmaskCardinality b = 2 ∧
      (qdBitmaskFirstSet b).2 = some 10 ∧ (qdBitmaskEach b).2 = [10])

end DispatchRouter.Bitmask
