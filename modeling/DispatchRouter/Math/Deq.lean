/-
# Doubly linked lists as lists

A doubly linked list holds its items in order, and `DEQ_NEXT` of an item is
the one after it. Read as a list, that is the item after the first occurrence,
and nothing for the last item or one off the list, whose links a removal left
null.
-/

import Mathlib.Data.List.Basic

namespace DispatchRouter.Math

variable {α : Type} [DecidableEq α]

/-- `DEQ_NEXT`: the item after `item` on the list; none at the end of the
list or off it, where the removal left the link null. -/
def deqNext : List α → α → Option α
  | [], _ => none
  | first :: rest, item => if first = item then rest.head? else deqNext rest item

@[simp] theorem deqNext_cons_self (item : α) (rest : List α) : deqNext (item :: rest) item = rest.head? := by
  simp [deqNext]

/-- On a list where `item` is after `front`, the next item is the head of what
follows it. -/
theorem deqNext_append_cons {front : List α} {item : α} (absent : item ∉ front) (back : List α) :
    deqNext (front ++ item :: back) item = back.head? := by
  induction front with
  | nil => exact deqNext_cons_self item back
  | cons first rest ih =>
      have other : first ≠ item := fun same => absent (same ▸ List.mem_cons_self)
      rw [List.cons_append, deqNext, if_neg other, ih (fun inRest => absent (List.mem_cons_of_mem _ inRest))]

theorem mem_of_deqNext {items : List α} {item next : α} (found : deqNext items item = some next) :
    next ∈ items := by
  induction items with
  | nil => simp [deqNext] at found
  | cons first rest ih =>
      rw [deqNext] at found
      split at found
      · exact List.mem_cons_of_mem _ (List.mem_of_mem_head? found)
      · exact List.mem_cons_of_mem _ (ih found)

/-- On a list with no item twice, the next item is another one. -/
theorem deqNext_ne {items : List α} (nodup : items.Nodup) {item next : α} (found : deqNext items item = some next) :
    next ≠ item := by
  induction items with
  | nil => simp [deqNext] at found
  | cons first rest ih =>
      rw [deqNext] at found
      split at found
      · rename_i isFirst
        intro same
        subst isFirst same
        exact (List.nodup_cons.mp nodup).1 (List.mem_of_mem_head? found)
      · exact ih (List.nodup_cons.mp nodup).2 found

/-! ### A cursor into a list

A cursor is kept as the item at its place: the list is split into what it has
passed and what is left, the cursor on the head of what is left. Removing an
item with the repair `DEQ_REMOVE` callers make (a cursor on the item moves to
the next) and appending an item keep such a split, the items left other than
the one changed staying left. -/

/-- Removing `item`, with a cursor on it moved to the next item. -/
theorem erase_cursor {front rest : List α} (nodup : (front ++ rest).Nodup) (item : α) :
    ∃ front' rest', (front ++ rest).erase item = front' ++ rest' ∧
      (if rest.head? = some item then deqNext (front ++ rest) item else rest.head?) = rest'.head? ∧
      ∀ other, other ≠ item → (other ∈ rest' ↔ other ∈ rest) := by
  by_cases passed : item ∈ front
  · -- an item already passed: what is left does not change
    have notLeft : item ∉ rest := fun left => (List.nodup_append.mp nodup).2.2 item passed item left rfl
    refine ⟨front.erase item, rest, List.erase_append_left rest passed, ?_, fun _ _ => Iff.rfl⟩
    rw [if_neg (show ¬ rest.head? = some item from fun atHead => notLeft (List.mem_of_mem_head? atHead))]
  · rw [List.erase_append_right rest passed]
    cases rest with
    | nil => exact ⟨front, [], by simp, by simp, fun _ _ => Iff.rfl⟩
    | cons first more =>
        by_cases atCursor : first = item
        · -- the item at the cursor: the cursor moves to the next
          subst atCursor
          refine ⟨front, more, by rw [List.erase_cons_head], ?_, ?_⟩
          · rw [List.head?_cons, if_pos rfl, deqNext_append_cons passed]
          · intro other differs
            simp [differs]
        · refine ⟨front, first :: more.erase item, by rw [List.erase_cons_tail (by simpa using atCursor)], ?_, ?_⟩
          · rw [List.head?_cons, if_neg (by simpa using atCursor), List.head?_cons]
          · intro other differs
            simp only [List.mem_cons, List.mem_erase_of_ne differs]

omit [DecidableEq α] in
/-- Appending `item`: a cursor left at the end stays there, having passed
it. -/
theorem append_cursor (front rest : List α) (item : α) :
    ∃ front' rest', front ++ rest ++ [item] = front' ++ rest' ∧ rest.head? = rest'.head? ∧
      ∀ other, other ≠ item → (other ∈ rest' ↔ other ∈ rest) := by
  cases rest with
  | nil => exact ⟨front ++ [item], [], by simp, rfl, fun other differs => by simp⟩
  | cons first more =>
      refine ⟨front, first :: more ++ [item], by simp, rfl, fun other differs => ?_⟩
      simp [differs]

end DispatchRouter.Math
