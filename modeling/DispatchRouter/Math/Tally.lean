/-
# Tallies over a table of slots

A table of numbered slots, each empty or holding a value, and a weight for what
a slot holds. The tally below `n` is the sum of the weights of the slots below
`n`. Writing a slot below `n` changes the tally by the new weight less the old,
filling slot `n` adds its weight, and a tally is zero exactly when every slot
below `n` weighs nothing. A weight that splits over parts tallies part by part.
-/

import Mathlib.Algebra.BigOperators.Group.Finset.Piecewise
import Mathlib.Algebra.BigOperators.Group.Finset.Sigma
import Mathlib.Algebra.Order.BigOperators.Group.Finset

namespace DispatchRouter.Math.Tally

variable {β : Type} (weight : Option β → Nat)

/-- The sum of the weights of the slots below `n`. -/
def tally (slots : Nat → Option β) (n : Nat) : Nat :=
  ∑ i ∈ Finset.range n, weight (slots i)

/-- Writing a slot below `n` trades its old weight for the new one. -/
theorem tally_update {slots : Nat → Option β} {n k : Nat} (below : k < n) (v : Option β) :
    tally weight (Function.update slots k v) n + weight (slots k) = tally weight slots n + weight v := by
  have member : k ∈ Finset.range n := Finset.mem_range.mpr below
  have composed : (fun i => weight (Function.update slots k v i)) =
      Function.update (fun i => weight (slots i)) k (weight v) := by
    funext i
    by_cases same : i = k
    · subst same
      simp
    · simp [same]
  unfold tally
  rw [composed, Finset.sum_update_of_mem member, ← Finset.sum_erase_add _ _ member,
    Finset.sdiff_singleton_eq_erase]
  omega

/-- Filling the slot at `n` adds its weight to the tally below `n + 1`. -/
theorem tally_update_succ (slots : Nat → Option β) (n : Nat) (v : Option β) :
    tally weight (Function.update slots n v) (n + 1) = tally weight slots n + weight v := by
  have below : ∀ i ∈ Finset.range n, weight (Function.update slots n v i) = weight (slots i) := by
    intro i member
    rw [Function.update_of_ne (Finset.mem_range.mp member).ne]
  unfold tally
  rw [Finset.sum_range_succ, Finset.sum_congr rfl below, Function.update_self]

theorem tally_eq_zero_iff {slots : Nat → Option β} {n : Nat} :
    tally weight slots n = 0 ↔ ∀ i < n, weight (slots i) = 0 := by
  simp [tally, Finset.sum_eq_zero_iff]

/-- A slot below `n` weighs no more than the tally. -/
theorem weight_le_tally (slots : Nat → Option β) {n k : Nat} (below : k < n) :
    weight (slots k) ≤ tally weight slots n :=
  Finset.single_le_sum (fun i _ => Nat.zero_le (weight (slots i))) (Finset.mem_range.mpr below)

/-- Tallies agree where the weights agree on every slot below `n`. -/
theorem tally_congr {weight' : Option β → Nat} {slots slots' : Nat → Option β} {n : Nat}
    (same : ∀ i < n, weight (slots i) = weight' (slots' i)) : tally weight slots n = tally weight' slots' n :=
  Finset.sum_congr rfl fun i member => same i (Finset.mem_range.mp member)

/-- A weight that splits over a finite set of parts tallies part by part. -/
theorem tally_eq_sum {γ : Type} (parts : Finset γ) (part : γ → Option β → Nat) {slots : Nat → Option β}
    {n : Nat} (split : ∀ i < n, weight (slots i) = ∑ p ∈ parts, part p (slots i)) :
    tally weight slots n = ∑ p ∈ parts, tally (part p) slots n := by
  unfold tally
  rw [Finset.sum_comm]
  exact Finset.sum_congr rfl fun i member => split i (Finset.mem_range.mp member)

end DispatchRouter.Math.Tally
