/-
# Chunked sequences

A sequence kept as a list of chunks, as a chain of fixed-capacity buffers keeps
its octets. A cursor is a chunk index and an offset into that chunk; the
sequence it denotes is the flattening of the chunks, and the cursor denotes
one position in it. Writers append to the last chunk and start new chunks;
patchers walk forward from a cursor, stepping over chunks whose end they have
reached, and overwrite the first element they find. A stack kept in chunks
holds the elements before its cursor (`upTo`): stepping the cursor over a chunk
boundary keeps them, and writing a run at the cursor extends them by the run.

Nothing here names a buffer: the lemmas are about `List (List α)`.
-/

import Mathlib.Data.List.Basic

namespace DispatchRouter.Math.ChunkList

universe u
variable {α : Type u}

/-- The position in the flattened sequence denoted by chunk `index`, offset `offset`. -/
def flatPos (chunks : List (List α)) (index offset : Nat) : Nat :=
  (chunks.take index).flatten.length + offset

/-- Overwrite one element at a cursor: while the cursor is at or past the end of its
chunk, move to the start of the next one; write at the first place found. Returns
the new chunks and the cursor one past the written element, relative to the list
given. Running off the end writes nothing. -/
def walkSet (value : α) : List (List α) → Nat → List (List α) × Nat × Nat
  | [], offset => ([], 0, offset)
  | chunk :: rest, offset =>
      if offset < chunk.length then (chunk.set offset value :: rest, 0, offset + 1)
      else
        let tail := walkSet value rest 0
        (chunk :: tail.1, tail.2.1 + 1, tail.2.2)

theorem flatten_set_append_left (chunk : List α) (rest : List (List α)) {offset : Nat}
    (inside : offset < chunk.length) (value : α) :
    (chunk.set offset value ++ rest.flatten) = (chunk ++ rest.flatten).set offset value := by
  rw [List.set_append_left _ _ inside]

/-- The walk overwrites exactly the flat position of its starting cursor. -/
theorem walkSet_flatten (value : α) :
    ∀ (chunks : List (List α)) (offset : Nat), offset ≤ (chunks.headD []).length →
      (walkSet value chunks offset).1.flatten = chunks.flatten.set offset value
  | [], offset, _ => by simp [walkSet]
  | chunk :: rest, offset, valid => by
      simp only [List.headD_cons] at valid
      by_cases inside : offset < chunk.length
      · simp only [walkSet, if_pos inside, List.flatten_cons]
        exact flatten_set_append_left chunk rest inside value
      · obtain rfl : offset = chunk.length := by omega
        have recurse := walkSet_flatten value rest 0 (Nat.zero_le _)
        simp only [walkSet, Nat.lt_irrefl, if_false, List.flatten_cons, recurse]
        rw [List.set_append_right _ _ (Nat.le_refl _), Nat.sub_self]

/-- The walk changes no chunk's length. -/
theorem walkSet_lengths (value : α) :
    ∀ (chunks : List (List α)) (offset : Nat),
      (walkSet value chunks offset).1.map List.length = chunks.map List.length
  | [], _ => rfl
  | chunk :: rest, offset => by
      by_cases inside : offset < chunk.length
      · simp [walkSet, inside]
      · simp [walkSet, inside, walkSet_lengths value rest 0]

/-! ### Cursors into the whole chain -/

/-- A cursor inside the chain denoting flat position `position`. -/
def Denotes (chunks : List (List α)) (index offset position : Nat) : Prop :=
  ∃ chunk, chunks[index]? = some chunk ∧ offset ≤ chunk.length ∧
    flatPos chunks index offset = position

/-- `walkSet` run from a cursor of the whole chain. -/
def setAtCursor (value : α) (chunks : List (List α)) (index offset : Nat) :
    List (List α) × Nat × Nat :=
  let walked := walkSet value (chunks.drop index) offset
  (chunks.take index ++ walked.1, index + walked.2.1, walked.2.2)

/-- A cursor keeps its meaning when chunks are put in front of the chain. -/
theorem Denotes.append_left {chunks : List (List α)} {index offset position : Nat}
    (front : List (List α)) (denotes : Denotes chunks index offset position) :
    Denotes (front ++ chunks) (front.length + index) offset
      (front.flatten.length + position) := by
  obtain ⟨chunk, found, inside, rfl⟩ := denotes
  refine ⟨chunk, ?_, inside, ?_⟩
  · rw [List.getElem?_append_right (Nat.le_add_right _ _), Nat.add_sub_cancel_left, found]
  · simp only [flatPos, List.take_append, List.take_of_length_le (Nat.le_add_right _ _),
      Nat.add_sub_cancel_left, List.flatten_append, List.length_append, Nat.add_assoc]

/-- The cursor after the walk denotes the next flat position. -/
theorem walkSet_cursor (value : α) :
    ∀ (chunks : List (List α)) (offset : Nat), offset ≤ (chunks.headD []).length →
      offset < chunks.flatten.length →
      let result := walkSet value chunks offset
      Denotes result.1 result.2.1 result.2.2 (offset + 1)
  | [], offset, _, inRange => by simp at inRange
  | chunk :: rest, offset, valid, inRange => by
      simp only [List.headD_cons] at valid
      by_cases inside : offset < chunk.length
      · simp only [walkSet, if_pos inside]
        exact ⟨chunk.set offset value, rfl, by simp; omega, by simp [flatPos]⟩
      · obtain rfl : offset = chunk.length := by omega
        have restRange : 0 < rest.flatten.length := by
          simp only [List.flatten_cons, List.length_append] at inRange
          omega
        have next := Denotes.append_left [chunk]
          (walkSet_cursor value rest 0 (Nat.zero_le _) restRange)
        simp only [walkSet, Nat.lt_irrefl, if_false]
        simpa [Nat.add_comm] using next

/-- `flatPos` only reads the lengths of the chunks before the cursor. -/
theorem flatPos_congr_lengths {first second : List (List α)}
    (sameLengths : first.map List.length = second.map List.length) (index offset : Nat) :
    flatPos first index offset = flatPos second index offset := by
  simp only [flatPos, List.length_flatten, List.map_take, sameLengths]

/-- A cursor's meaning survives any change that keeps every chunk's length. -/
theorem Denotes.congr_lengths {first second : List (List α)} {index offset position : Nat}
    (denotes : Denotes first index offset position)
    (sameLengths : first.map List.length = second.map List.length) :
    Denotes second index offset position := by
  obtain ⟨chunk, found, inside, at_⟩ := denotes
  have lengthAt : (second[index]?).map List.length = some chunk.length := by
    rw [← List.getElem?_map, ← sameLengths, List.getElem?_map, found, Option.map_some]
  obtain ⟨chunk', found', sameLength⟩ := Option.map_eq_some_iff.mp lengthAt
  exact ⟨chunk', found', sameLength ▸ inside, flatPos_congr_lengths sameLengths.symm _ _ ▸ at_⟩

theorem flatten_take_append_drop_set (chunks : List (List α)) (index offset : Nat)
    (value : α) {chunk : List α} (found : chunks[index]? = some chunk) (inside : offset ≤ chunk.length) :
    (chunks.take index ++ (walkSet value (chunks.drop index) offset).1).flatten =
      chunks.flatten.set (flatPos chunks index offset) value := by
  have headChunk : ((chunks.drop index).headD []) = chunk := by
    rw [List.headD_eq_head?_getD, List.head?_drop, found, Option.getD_some]
  have walked := walkSet_flatten value (chunks.drop index) offset (headChunk ▸ inside)
  have whole : chunks.flatten = (chunks.take index).flatten ++ (chunks.drop index).flatten := by
    rw [← List.flatten_append, List.take_append_drop]
  rw [List.flatten_append, walked, flatPos, whole,
    List.set_append_right _ _ (Nat.le_add_right _ _), Nat.add_sub_cancel_left]

/-- Overwriting at a cursor sets the flat position it denotes, keeps every length, and
leaves a cursor denoting the next position. -/
theorem setAtCursor_spec (value : α) {chunks : List (List α)} {index offset position : Nat}
    (denotes : Denotes chunks index offset position) (inRange : position < chunks.flatten.length) :
    let result := setAtCursor value chunks index offset
    result.1.flatten = chunks.flatten.set position value ∧
      result.1.map List.length = chunks.map List.length ∧
      Denotes result.1 result.2.1 result.2.2 (position + 1) := by
  obtain ⟨chunk, found, inside, rfl⟩ := denotes
  have headChunk : ((chunks.drop index).headD []) = chunk := by
    rw [List.headD_eq_head?_getD, List.head?_drop, found, Option.getD_some]
  have indexBound : index < chunks.length := by
    by_contra outside
    rw [List.getElem?_eq_none (by omega)] at found
    cases found
  have dropRange : offset < (chunks.drop index).flatten.length := by
    have split := congrArg List.length (congrArg List.flatten (List.take_append_drop index chunks))
    simp only [List.flatten_append, List.length_append] at split
    simp only [flatPos] at inRange
    omega
  have walkedCursor :=
    walkSet_cursor value (chunks.drop index) offset (headChunk ▸ inside) dropRange
  have lengths : (chunks.take index ++ (walkSet value (chunks.drop index) offset).1).map
      List.length = chunks.map List.length := by
    rw [List.map_append, walkSet_lengths, ← List.map_append, List.take_append_drop]
  refine ⟨flatten_take_append_drop_set chunks index offset value found inside, lengths, ?_⟩
  have front := Denotes.append_left (chunks.take index) walkedCursor
  rw [List.length_take_of_le (Nat.le_of_lt indexBound)] at front
  simpa [setAtCursor, flatPos, Nat.add_assoc] using front

/-- Appending chunks keeps every cursor's meaning. -/
theorem Denotes.append_right {chunks : List (List α)} {index offset position : Nat}
    (denotes : Denotes chunks index offset position) (more : List (List α)) :
    Denotes (chunks ++ more) index offset position := by
  obtain ⟨chunk, found, inside, rfl⟩ := denotes
  have indexBound : index < chunks.length := by
    by_contra outside
    rw [List.getElem?_eq_none (by omega)] at found
    cases found
  refine ⟨chunk, ?_, inside, ?_⟩
  · rw [List.getElem?_append_left indexBound, found]
  · simp [flatPos, List.take_append, Nat.sub_eq_zero_of_le (Nat.le_of_lt indexBound)]

/-- Extending the last chunk keeps every cursor's meaning. -/
theorem Denotes.extend_last {front : List (List α)} {last : List α}
    {index offset position : Nat} (denotes : Denotes (front ++ [last]) index offset position)
    (extra : List α) :
    Denotes (front ++ [last ++ extra]) index offset position := by
  obtain ⟨chunk, found, inside, rfl⟩ := denotes
  by_cases isLast : index = front.length
  · subst isLast
    simp only [List.getElem?_append_right (Nat.le_refl _), Nat.sub_self,
      List.getElem?_cons_zero, Option.some.injEq] at found
    subst found
    refine ⟨last ++ extra, ?_, by simp; omega, ?_⟩
    · simp
    · simp [flatPos]
  · have indexBound : index < front.length := by
      have : index < (front ++ [last]).length := by
        by_contra outside
        rw [List.getElem?_eq_none (by omega)] at found
        cases found
      simp at this
      omega
    refine ⟨chunk, ?_, inside, ?_⟩
    · rw [List.getElem?_append_left indexBound] at found ⊢
      exact found
    · simp [flatPos, List.take_append, Nat.sub_eq_zero_of_le (Nat.le_of_lt indexBound)]

/-! ### Runs of writes -/

/-- Set consecutive positions, starting at `position`, to `values`. -/
def setRun : List α → Nat → List α → List α
  | xs, _, [] => xs
  | xs, position, value :: values => setRun (xs.set position value) (position + 1) values

@[simp] theorem setRun_length (xs : List α) (position : Nat) (values : List α) :
    (setRun xs position values).length = xs.length := by
  induction values generalizing xs position with
  | nil => rfl
  | cons value values ih => simp [setRun, ih]

/-- Setting a run over a block of the same length replaces the block. -/
theorem setRun_block (front old back new : List α) (sameLength : old.length = new.length) :
    setRun (front ++ old ++ back) front.length new = front ++ new ++ back := by
  induction new generalizing front old with
  | nil =>
      simp only [List.length_nil, List.length_eq_zero_iff] at sameLength
      simp [setRun, sameLength]
  | cons value values ih =>
      obtain ⟨first, rest, rfl⟩ : ∃ first rest, old = first :: rest := by
        cases old with
        | nil => simp at sameLength
        | cons first rest => exact ⟨first, rest, rfl⟩
      have restLength : rest.length = values.length := by simpa using sameLength
      have shifted := ih (front ++ [value]) rest restLength
      simp only [List.length_append, List.length_singleton, List.append_assoc,
        List.singleton_append] at shifted
      simp only [setRun, List.append_assoc, List.cons_append,
        List.set_append_right _ _ (Nat.le_refl _), Nat.sub_self, List.set_cons_zero]
      simpa only [← List.append_assoc, List.cons_append] using shifted

/-! ### Prefixes up to a cursor -/

/-- The chunk at `index`, empty past the end of the chain. -/
def chunkAt (chunks : List (List α)) (index : Nat) : List α :=
  (chunks[index]?).getD []

/-- The elements before the cursor `(index, offset)`: the chunks before `index`,
then the first `offset` elements of chunk `index`. -/
def upTo (chunks : List (List α)) (index offset : Nat) : List α :=
  (chunks.take index).flatten ++ (chunkAt chunks index).take offset

/-- A cursor at the end of its chunk and one at the start of the next mark the
same prefix. -/
theorem upTo_succ_zero (chunks : List (List α)) (index : Nat) :
    upTo chunks (index + 1) 0 = upTo chunks index (chunkAt chunks index).length := by
  simp only [upTo, chunkAt, List.take_add_one, List.flatten_append, List.take_zero, List.append_nil]
  cases chunks[index]? <;> simp

/-- The prefix up to a cursor, extended by `count` more elements of its chunk. -/
theorem upTo_add (chunks : List (List α)) (index offset count : Nat) :
    upTo chunks index (offset + count) =
      upTo chunks index offset ++ ((chunkAt chunks index).drop offset).take count := by
  simp only [upTo, List.take_add, List.append_assoc]

theorem chunkAt_set_self (chunks : List (List α)) {index : Nat} (indexLt : index < chunks.length)
    (chunk : List α) : chunkAt (chunks.set index chunk) index = chunk := by
  simp [chunkAt, indexLt]

/-- Writing a run at a cursor, inside its chunk, extends the prefix up to the
cursor by the run. -/
theorem upTo_setRun (chunks : List (List α)) (index offset : Nat) (run : List α)
    (inside : offset + run.length ≤ (chunkAt chunks index).length) :
    upTo (chunks.set index (setRun (chunkAt chunks index) offset run)) index (offset + run.length) =
      upTo chunks index offset ++ run := by
  by_cases indexLt : index < chunks.length
  · set chunk := chunkAt chunks index
    have split : chunk = chunk.take offset ++ (chunk.drop offset).take run.length ++ chunk.drop (offset + run.length) := by
      rw [List.append_assoc, ← List.drop_drop, List.take_append_drop, List.take_append_drop]
    have frontLength : (chunk.take offset).length = offset := by simp; omega
    have written := setRun_block (chunk.take offset) ((chunk.drop offset).take run.length)
      (chunk.drop (offset + run.length)) run (by simp; omega)
    rw [← split, frontLength] at written
    have front : (chunks.set index (setRun chunk offset run)).take index = chunks.take index :=
      List.take_set_of_le (Nat.le_refl _)
    have prefix_ : (chunk.take offset ++ run ++ chunk.drop (offset + run.length)).take (offset + run.length) =
        chunk.take offset ++ run := by
      rw [List.append_assoc, List.take_append, frontLength, Nat.add_sub_cancel_left, List.take_left' rfl,
        List.take_of_length_le (by omega)]
    rw [upTo, upTo, front, chunkAt_set_self chunks indexLt, written, prefix_, List.append_assoc]
  · have empty : chunkAt chunks index = [] := by simp [chunkAt, List.getElem?_eq_none (Nat.le_of_not_lt indexLt)]
    rw [empty] at inside ⊢
    obtain ⟨rfl, rfl⟩ : offset = 0 ∧ run = [] := by simp at inside; omega
    simp [setRun, upTo, List.set_eq_of_length_le (Nat.le_of_not_lt indexLt)]

/-- Chunks put after the chain leave the prefix up to a cursor inside it as it is. -/
theorem upTo_append (chunks more : List (List α)) {index : Nat} (indexLt : index < chunks.length)
    (offset : Nat) : upTo (chunks ++ more) index offset = upTo chunks index offset := by
  simp only [upTo, chunkAt, List.take_append_of_le_length (Nat.le_of_lt indexLt),
    List.getElem?_append_left indexLt]

/-- In a chain of chunks of one length, the prefix up to a cursor inside it
counts the chunks before the cursor and the offset. -/
theorem length_upTo {chunks : List (List α)} {size : Nat} (uniform : ∀ chunk ∈ chunks, chunk.length = size)
    {index offset : Nat} (indexLt : index < chunks.length) (offsetLe : offset ≤ size) :
    (upTo chunks index offset).length = index * size + offset := by
  have lengths : (chunks.take index).map List.length = List.replicate index size := by
    rw [List.eq_replicate_iff]
    refine ⟨by simp; omega, fun length mem => ?_⟩
    obtain ⟨chunk, inTake, rfl⟩ := List.mem_map.mp mem
    exact uniform chunk (List.mem_of_mem_take inTake)
  have here : (chunkAt chunks index).length = size := by
    simp only [chunkAt, List.getElem?_eq_getElem indexLt, Option.getD_some]
    exact uniform _ (List.getElem_mem indexLt)
  simp [upTo, List.length_flatten, lengths, here, Nat.min_eq_left offsetLe]

end DispatchRouter.Math.ChunkList
