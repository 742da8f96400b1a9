/-
# Writes to a function

A sequence of writes, each a key and a value, applied in order to a function
with `Function.update`, so that the last write to a key wins. Where every
write gives its key the value a target function has there, the result has the
target's value at each key some write names, and the old value at every other
key.
-/

import Mathlib.Logic.Function.Basic
import Mathlib.Tactic.Push

namespace DispatchRouter.Math

variable {κ β : Type} [DecidableEq κ]

/-- `writes` applied one after another. -/
def writeAll (f : κ → β) : List (κ × β) → κ → β
  | [] => f
  | (key, value) :: writes => writeAll (Function.update f key value) writes

@[simp]
theorem writeAll_nil (f : κ → β) : writeAll f [] = f := rfl

@[simp]
theorem writeAll_cons (f : κ → β) (key : κ) (value : β) (writes : List (κ × β)) :
    writeAll f ((key, value) :: writes) = writeAll (Function.update f key value) writes := rfl

/-- A key no write names keeps its value; by induction on the writes. -/
theorem writeAll_of_not_written (f : κ → β) (writes : List (κ × β)) {key : κ}
    (unwritten : ∀ write ∈ writes, write.1 ≠ key) : writeAll f writes key = f key := by
  induction writes generalizing f with
  | nil => rfl
  | cons write writes ih =>
      obtain ⟨written, value⟩ := write
      rw [writeAll_cons, ih _ fun other mem => unwritten other (List.mem_cons_of_mem _ mem)]
      exact Function.update_of_ne (unwritten _ List.mem_cons_self).symm _ _

/-- Where every write agrees with `target`, a key some write names ends with
the value of `target`: the last write to it does. -/
theorem writeAll_of_written (f : κ → β) (writes : List (κ × β)) {target : κ → β}
    (agree : ∀ write ∈ writes, write.2 = target write.1) {key : κ}
    (written : ∃ write ∈ writes, write.1 = key) : writeAll f writes key = target key := by
  induction writes generalizing f with
  | nil =>
      obtain ⟨_, mem, _⟩ := written
      cases mem
  | cons write writes ih =>
      obtain ⟨writtenKey, value⟩ := write
      rw [writeAll_cons]
      by_cases later : ∃ write ∈ writes, write.1 = key
      · exact ih _ (fun other mem => agree other (List.mem_cons_of_mem _ mem)) later
      · -- the first write is the last one to name the key
        push Not at later
        rw [writeAll_of_not_written _ _ later]
        obtain ⟨write, mem, named⟩ := written
        rcases List.mem_cons.mp mem with rfl | mem
        · subst named
          rw [Function.update_self]
          exact agree _ List.mem_cons_self
        · exact absurd named (later write mem)

end DispatchRouter.Math
