/-
# Scans over the positions below a bound

A scan looks through the positions `0, 1, …, n - 1` for those with a
property `p`: `find?` over `List.finRange n` gives the least one, and the
positions from `k` on where `p` holds, in increasing order, are a filter of
`List.finRange n`. A scan that goes from one such position to the next one
lists that filter: the position itself comes first, and the rest starts at the
least position after it.

A search that goes down a list in decreasing order and stops at the first
element where a function gives a value finds the greatest such element.
-/

import Mathlib.Data.List.Sort
import Mathlib.Data.Fintype.Card

namespace DispatchRouter.Math.Scan

variable {n : Nat} (p : Fin n → Bool)

/-- The least position where `p` holds. -/
theorem find?_finRange_eq_some {i : Fin n} :
    (List.finRange n).find? p = some i ↔ p i ∧ ∀ j < i, p j = false := by
  rw [List.find?_eq_some_iff_getElem]
  constructor
  · rintro ⟨holds, index, small, at_index, before⟩
    refine ⟨holds, fun j below => ?_⟩
    have atJ := before j.val (by
      have : (List.finRange n)[index] = ⟨index, by simpa using small⟩ := by simp
      rw [at_index] at this
      rw [this] at below
      exact below)
    simpa using atJ
  · rintro ⟨holds, least⟩
    refine ⟨holds, i.val, by simp, by simp, fun j below => ?_⟩
    have := least ⟨j, by omega⟩ below
    simpa using this

theorem find?_finRange_eq_none : (List.finRange n).find? p = none ↔ ∀ i, p i = false := by
  simp [List.find?_eq_none]

/-- The positions from `k` on where `p` holds, in increasing order. -/
def fromOn (k : Fin n) : List (Fin n) := (List.finRange n).filter fun j => decide (k ≤ j) && p j

/-- The positions after `k` where `p` holds, in increasing order. -/
def after (k : Fin n) : List (Fin n) := (List.finRange n).filter fun j => decide (k < j) && p j

theorem pairwise_fromOn (k : Fin n) : (fromOn p k).Pairwise (· < ·) :=
  (List.pairwise_lt_finRange n).filter _

theorem length_fromOn_le (k : Fin n) : (fromOn p k).length ≤ n :=
  (List.length_filter_le _ _).trans_eq (List.length_finRange)

/-- The positions from `k` on are among all positions where `p` holds. -/
theorem length_fromOn_le_card (k : Fin n) : (fromOn p k).length ≤ (Finset.univ.filter fun j => p j).card := by
  rw [← List.toFinset_card_of_nodup (pairwise_fromOn p k).nodup]
  apply Finset.card_le_card
  intro j member
  simp only [List.mem_toFinset, fromOn, List.mem_filter, Bool.and_eq_true] at member
  simpa using member.2.2

@[simp]
theorem mem_fromOn {k j : Fin n} : j ∈ fromOn p k ↔ k ≤ j ∧ p j := by
  simp [fromOn]

@[simp]
theorem mem_after {k j : Fin n} : j ∈ after p k ↔ k < j ∧ p j := by
  simp [after]

/-- A position where `p` holds comes first among those from it on. -/
theorem fromOn_eq_cons {k : Fin n} (holds : p k) : fromOn p k = k :: after p k := by
  apply (pairwise_fromOn p k).eq_of_mem_iff
  · refine List.pairwise_cons.mpr ⟨fun j later => ((mem_after p).mp later).1, ?_⟩
    exact (List.pairwise_lt_finRange n).filter _
  · intro j
    rw [mem_fromOn, List.mem_cons, mem_after]
    constructor
    · rintro ⟨atLeast, holdsJ⟩
      rcases lt_or_eq_of_le atLeast with later | same
      · exact .inr ⟨later, holdsJ⟩
      · exact .inl same.symm
    · rintro (same | ⟨later, holdsJ⟩)
      · exact ⟨same ▸ le_refl k, same ▸ holds⟩
      · exact ⟨le_of_lt later, holdsJ⟩

/-- The positions after `k` start at the least one after it. -/
theorem after_eq_fromOn {k next : Fin n} (found : (List.finRange n).find? (fun j => decide (k < j) && p j) = some next) :
    after p k = fromOn p next := by
  obtain ⟨holds, least⟩ := (find?_finRange_eq_some _).mp found
  simp only [Bool.and_eq_true, decide_eq_true_eq] at holds
  apply List.filter_congr
  intro j _
  by_cases below : j < next
  · have missed := least j below
    simp only [Bool.and_eq_false_iff, decide_eq_false_iff_not] at missed
    have notAfter : ¬(decide (next ≤ j) && p j) = true := by simp [not_le.mpr below]
    rcases missed with early | clear
    · simp [early, notAfter]
    · simp [clear]
  · have later : k < j := lt_of_lt_of_le holds.1 (not_lt.mp below)
    simp [later, not_lt.mp below]

/-- No position after `k` has `p`, so none is listed. -/
theorem after_eq_nil {k : Fin n} (none : (List.finRange n).find? (fun j => decide (k < j) && p j) = none) :
    after p k = [] := by
  rw [find?_finRange_eq_none] at none
  rw [after, List.filter_eq_nil_iff]
  intro j _
  simpa using none j

/-! ### Searching down -/

/-- A search down a decreasing list stops at the greatest element where `f`
gives a value. -/
theorem findSome?_eq_some_of_decreasing {α β : Type} [LinearOrder α] {f : α → Option β} {b : β} :
    ∀ {l : List α}, l.Pairwise (· > ·) →
      (l.findSome? f = some b ↔ ∃ a ∈ l, f a = some b ∧ ∀ a' ∈ l, a < a' → f a' = none)
  | [], _ => by simp
  | a :: l, decreasing => by
      obtain ⟨below, rest⟩ := List.pairwise_cons.mp decreasing
      cases hit : f a with
      | some c =>
          -- the search stops at `a`, above every later element
          simp only [List.findSome?_cons, hit, Option.some.injEq]
          constructor
          · rintro rfl
            refine ⟨a, List.mem_cons_self, hit, fun a' mem above => ?_⟩
            rcases List.mem_cons.mp mem with rfl | later
            · exact absurd above (lt_irrefl a')
            · exact absurd (below a' later) (not_lt.mpr above.le)
          · rintro ⟨a', mem, found, greatest⟩
            rcases List.mem_cons.mp mem with rfl | later
            · exact Option.some.inj (hit.symm.trans found)
            · have missed := greatest a List.mem_cons_self (below a' later)
              rw [hit] at missed
              exact absurd missed (Option.some_ne_none c)
      | none =>
          -- the search goes on below `a`, where `f` gives nothing
          simp only [List.findSome?_cons, hit]
          rw [findSome?_eq_some_of_decreasing rest]
          constructor
          · rintro ⟨a', mem, found, greatest⟩
            refine ⟨a', List.mem_cons_of_mem a mem, found, fun a'' mem'' above => ?_⟩
            rcases List.mem_cons.mp mem'' with rfl | later
            · exact hit
            · exact greatest a'' later above
          · rintro ⟨a', mem, found, greatest⟩
            rcases List.mem_cons.mp mem with rfl | later
            · rw [hit] at found
              exact absurd found.symm (Option.some_ne_none b)
            · exact ⟨a', later, found, fun a'' later'' above => greatest a'' (List.mem_cons_of_mem a later'') above⟩

end DispatchRouter.Math.Scan
