/-
# C string functions over lists

A C string is the list of its characters before the terminating zero. Three
functions of `<string.h>` on such lists: `strcspn`, the length of the first span
with no character of a reject set; `strstr`, where a needle first occurs; and
`strncmp (a, b, n) == 0`, the first `n` characters agreeing, where a string that
ends first differs. Beside them, the count of Python's `str.count`, which a
program's configuration side uses on the same strings. The lemmas read a span off a list whose delimiter comes
next, an occurrence as a split of the list, and the bounded compare as a prefix
test.
-/

import Mathlib.Data.List.Infix
import Mathlib.Data.List.TakeWhile

namespace DispatchRouter.Math.CString

variable {α : Type} [DecidableEq α]

/-- `strcspn (s, reject)` -/
def strcspn (s reject : List α) : Nat := (s.takeWhile fun c => decide (c ∉ reject)).length

/-- `strstr (hay, needle)`, as the offset of the first occurrence. -/
def strstr (hay needle : List α) : Option Nat :=
  (List.range (hay.length + 1)).find? fun i => needle.isPrefixOf (hay.drop i)

/-- `strncmp (a, b, n) == 0` -/
def strncmpEq : Nat → List α → List α → Bool
  | 0, _, _ => true
  | _ + 1, [], [] => true
  | n + 1, x :: a, y :: b => x == y && strncmpEq n a b
  | _ + 1, _, _ => false

/-- The loop of Python's `hay.count(needle)` for a non-empty `needle`: each
search starts after the last occurrence found, so occurrences do not overlap;
`fuel` bounds the searches. -/
def countLoop (needle : List α) : Nat → List α → Nat
  | 0, _ => 0
  | fuel + 1, hay =>
      match strstr hay needle with
      | none => 0
      | some i => countLoop needle fuel (hay.drop (i + needle.length)) + 1

/-- Python's `hay.count(needle)`: one search for each character and one more. -/
def pyCount (hay needle : List α) : Nat := countLoop needle (hay.length + 1) hay

/-! ### Spans -/

/-- A span with none of the rejected characters is measured whole. -/
theorem strcspn_of_clean {span : List α} {reject : List α} (clean : ∀ x ∈ span, x ∉ reject) :
    strcspn span reject = span.length := by
  rw [strcspn, List.takeWhile_eq_self_iff.mpr (fun x member => by simpa using clean x member)]

/-- A span followed by a rejected character is measured up to it. -/
theorem strcspn_append_cons {span rest : List α} {reject : List α} {c : α}
    (clean : ∀ x ∈ span, x ∉ reject) (stop : c ∈ reject) :
    strcspn (span ++ c :: rest) reject = span.length := by
  rw [strcspn, List.takeWhile_append_of_pos (fun x member => by simpa using clean x member)]
  have cut : (c :: rest).takeWhile (fun x => decide (x ∉ reject)) = [] := by
    simp [stop]
  rw [cut, List.append_nil]

/-! ### Occurrences -/

theorem strstr_eq_some_iff {hay needle : List α} {i : Nat} :
    strstr hay needle = some i ↔
      needle <+: hay.drop i ∧ i ≤ hay.length ∧ ∀ j < i, ¬needle <+: hay.drop j := by
  rw [strstr, List.find?_range_eq_some]
  simp only [List.isPrefixOf_iff_prefix, List.mem_range, Bool.not_eq_true']
  constructor
  · rintro ⟨found, small, earlier⟩
    exact ⟨found, by omega, fun j below => by simpa [← List.isPrefixOf_iff_prefix] using earlier j below⟩
  · rintro ⟨found, small, earlier⟩
    exact ⟨found, by omega, fun j below => by simpa [← List.isPrefixOf_iff_prefix] using earlier j below⟩

theorem strstr_eq_none_iff {hay needle : List α} : strstr hay needle = none ↔ ¬needle <:+: hay := by
  rw [strstr, List.find?_range_eq_none]
  simp only [Bool.not_eq_true']
  constructor
  · rintro absent ⟨front, back, split⟩
    have at_front := absent front.length (by rw [← split]; simp only [List.length_append]; omega)
    rw [← split, List.append_assoc, List.drop_left] at at_front
    have : needle.isPrefixOf (needle ++ back) = true := List.isPrefixOf_iff_prefix.mpr (List.prefix_append needle back)
    rw [this] at at_front
    cases at_front
  · intro absent i _
    by_contra found
    simp only [Bool.not_eq_false] at found
    exact absent ((List.isPrefixOf_iff_prefix.mp found).isInfix.trans (List.drop_suffix i hay).isInfix)

/-- The first occurrence splits the list around the needle. -/
theorem strstr_split {hay needle : List α} {i : Nat} (found : strstr hay needle = some i) :
    hay = hay.take i ++ needle ++ hay.drop (i + needle.length) ∧ i + needle.length ≤ hay.length := by
  obtain ⟨⟨rest, split⟩, small, -⟩ := strstr_eq_some_iff.mp found
  have rest_eq : rest = hay.drop (i + needle.length) := by
    rw [← List.drop_drop, ← split, List.drop_left]
  have fits : i + needle.length ≤ hay.length := by
    have := congrArg List.length split
    simp only [List.length_append, List.length_drop] at this
    omega
  refine ⟨?_, fits⟩
  rw [List.append_assoc, ← rest_eq, split, List.take_append_drop]

/-! ### Counts -/

/-- A string counts no occurrence exactly when the search finds none. -/
theorem pyCount_eq_zero_iff {hay needle : List α} : pyCount hay needle = 0 ↔ strstr hay needle = none := by
  unfold pyCount
  rw [countLoop]
  split <;> simp_all

/-! ### Bounded compares -/

/-- Comparing the first `n` characters of a string no shorter than `n` is a
prefix test. -/
theorem strncmpEq_iff {n : Nat} {a b : List α} (short : n ≤ b.length) :
    strncmpEq n a b = true ↔ b.take n <+: a := by
  induction n generalizing a b with
  | zero => simp [strncmpEq]
  | succ n ih =>
      cases b with
      | nil => simp at short
      | cons y b =>
          cases a with
          | nil => simp [strncmpEq]
          | cons x a =>
              simp only [strncmpEq, Bool.and_eq_true, beq_iff_eq, List.take_succ_cons, List.cons_prefix_cons,
                ih (by simpa using short)]
              exact ⟨fun ⟨same, rest⟩ => ⟨same.symm, rest⟩, fun ⟨same, rest⟩ => ⟨same.symm, rest⟩⟩

end DispatchRouter.Math.CString
