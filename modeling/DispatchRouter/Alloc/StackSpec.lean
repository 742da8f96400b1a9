/-
# The free stacks hold list stacks

A sound `qd_alloc_linked_stack_t` holds the list of the items in the slots
below its cursor, bottom first (`Holds`): every chunk has `CHUNK_SIZE` slots,
the cursor is in a chunk of the chain, and `size` counts the items. Stepping
the cursor over a chunk boundary keeps the items, a write at the cursor adds a
run on top, and moving the cursor down takes the run below it off: each
operation is one of these, so `push_stack` appends, `pop_stack` takes the last
item off, and `unordered_move_stack` takes the top items of one stack and puts
them on the other, in runs whose order it does not keep.
-/

import DispatchRouter.Alloc.Stack
import DispatchRouter.Math.Mealy

namespace DispatchRouter.Alloc

open Math ChunkList

variable {α : Type}

theorem chunkSize_pos : 0 < chunkSize := by decide

namespace QdAllocLinkedStack

/-- The slots below the cursor. -/
def contents (stack : QdAllocLinkedStack α) : List (Option α) :=
  upTo stack.chunks stack.topChunk stack.top

/-- The stack with `count` slots from its cursor on written with `run`, and its
cursor and size moved past them: the write of `push_stack` and the `memcpy` of
`unordered_move_stack`. -/
def writeRun (stack : QdAllocLinkedStack α) (count : Nat) (run : List (Option α)) : QdAllocLinkedStack α :=
  { stack with
    chunks := stack.chunks.set stack.topChunk (setRun (chunkAt stack.chunks stack.topChunk) stack.top run)
    top := stack.top + count
    size := stack.size + count }

/-- The stack with its cursor and size moved down `count` slots. -/
def dropTop (stack : QdAllocLinkedStack α) (count : Nat) : QdAllocLinkedStack α :=
  { stack with top := stack.top - count, size := stack.size - count }

/-- `stack` holds `items`, bottom first. -/
structure Holds (stack : QdAllocLinkedStack α) (items : List α) : Prop where
  chunk_length : ∀ chunk ∈ stack.chunks, chunk.length = chunkSize
  topChunk_lt : stack.topChunk < stack.chunks.length
  top_le : stack.top ≤ chunkSize
  size_eq : stack.size = items.length
  contents_eq : stack.contents = items.map some

variable {stack : QdAllocLinkedStack α} {items : List α}

theorem Holds.chunkAt_length (holds : stack.Holds items) :
    (chunkAt stack.chunks stack.topChunk).length = chunkSize := by
  simp only [chunkAt, List.getElem?_eq_getElem holds.topChunk_lt, Option.getD_some]
  exact holds.chunk_length _ (List.getElem_mem _)

/-- The size counts the full chunks below the top one and the slots below the
cursor in it. -/
theorem Holds.size_cursor (holds : stack.Holds items) :
    stack.size = stack.topChunk * chunkSize + stack.top := by
  have counted := congrArg List.length holds.contents_eq
  rw [contents, length_upTo holds.chunk_length holds.topChunk_lt holds.top_le, List.length_map] at counted
  rw [holds.size_eq, counted]

theorem holds_initStack : (initStack : QdAllocLinkedStack α).Holds [] where
  chunk_length := by simp [initStack, freshChunk]
  topChunk_lt := by simp [initStack]
  top_le := Nat.zero_le _
  size_eq := rfl
  contents_eq := by simp [contents, initStack, upTo]

/-! ### Writing at the cursor and moving it down -/

/-- A run written at the cursor, inside the top chunk, goes on top of the
items. -/
theorem Holds.write (holds : stack.Holds items) (run : List α) (room : stack.top + run.length ≤ chunkSize) :
    (stack.writeRun run.length (run.map some)).Holds (items ++ run) where
  chunk_length := by
    intro chunk mem
    rcases List.mem_or_eq_of_mem_set mem with old | rfl
    · exact holds.chunk_length chunk old
    · rw [setRun_length, holds.chunkAt_length]
  topChunk_lt := by simpa [writeRun] using holds.topChunk_lt
  top_le := room
  size_eq := by simp [writeRun, holds.size_eq]
  contents_eq := by
    have inside : stack.top + (run.map some).length ≤ (chunkAt stack.chunks stack.topChunk).length := by
      rw [holds.chunkAt_length, List.length_map]
      exact room
    have written := upTo_setRun stack.chunks stack.topChunk stack.top (run.map some) inside
    rw [List.length_map] at written
    simp only [contents, writeRun, written, List.map_append]
    rw [← holds.contents_eq, contents]

/-- Moving the cursor down `count` slots of the top chunk takes the last
`count` items off; the slots passed hold them. -/
theorem Holds.dropTop (holds : stack.Holds items) {count : Nat} (le : count ≤ stack.top) :
    (stack.dropTop count).Holds (items.take (items.length - count)) ∧
      ((chunkAt stack.chunks stack.topChunk).drop (stack.top - count)).take count =
        (items.drop (items.length - count)).map some := by
  have split := upTo_add stack.chunks stack.topChunk (stack.top - count) count
  rw [Nat.sub_add_cancel le, ← contents, holds.contents_eq] at split
  have belowLength : (upTo stack.chunks stack.topChunk (stack.top - count)).length = items.length - count := by
    rw [length_upTo holds.chunk_length holds.topChunk_lt (by have := holds.top_le; omega)]
    have := holds.size_cursor
    rw [holds.size_eq] at this
    omega
  have below : upTo stack.chunks stack.topChunk (stack.top - count) = (items.take (items.length - count)).map some := by
    rw [List.map_take, split, List.take_left' belowLength]
  have passed : ((chunkAt stack.chunks stack.topChunk).drop (stack.top - count)).take count =
      (items.drop (items.length - count)).map some := by
    rw [List.map_drop, split, List.drop_left' belowLength]
  refine ⟨⟨holds.chunk_length, holds.topChunk_lt, ?_, ?_, ?_⟩, passed⟩
  · exact Nat.le_trans (Nat.sub_le _ _) holds.top_le
  · have := holds.size_cursor
    simp only [QdAllocLinkedStack.dropTop, List.length_take, holds.size_eq]
    omega
  · exact below

/-! ### Stepping the cursor over a chunk boundary -/

/-- Before taking items off, `pop_stack` and `unordered_move_stack` step a
cursor at the bottom of its chunk back to the top of the chunk before; a stack
with items is then above the bottom of its chunk. -/
theorem Holds.fromReady (holds : stack.Holds items) (nonempty : items ≠ []) :
    ∃ ready, (if stack.top = 0 then prevChunkStack stack else some stack) = some ready ∧
      ready.Holds items ∧ 0 < ready.top := by
  by_cases atBottom : stack.top = 0
  · have sized := holds.size_cursor
    have positive : 0 < stack.size := by
      rw [holds.size_eq]
      exact List.length_pos_iff.mpr nonempty
    obtain ⟨below, chunkIs⟩ : ∃ below, stack.topChunk = below + 1 :=
      Nat.exists_eq_add_one.mpr (by rw [atBottom] at sized; exact Nat.pos_of_mul_pos_right (sized ▸ positive))
    refine ⟨{ stack with topChunk := below, top := chunkSize }, ?_, ⟨holds.chunk_length, ?_, Nat.le_refl _,
      holds.size_eq, ?_⟩, chunkSize_pos⟩
    · simp only [if_pos atBottom, prevChunkStack, chunkIs]
      rw [if_pos ⟨atBottom, by omega, by omega⟩]
      rfl
    · have := holds.topChunk_lt
      simp only
      omega
    · have belowLt : below < stack.chunks.length := by have := holds.topChunk_lt; omega
      have full : (chunkAt stack.chunks below).length = chunkSize := by
        simp only [chunkAt, List.getElem?_eq_getElem belowLt, Option.getD_some]
        exact holds.chunk_length _ (List.getElem_mem _)
      have same := upTo_succ_zero stack.chunks below
      rw [full, ← chunkIs, ← atBottom] at same
      simp only [contents]
      rw [← same, ← contents, holds.contents_eq]
  · exact ⟨stack, if_neg atBottom, holds, Nat.pos_of_ne_zero atBottom⟩

/-- Before writing, `push_stack` and `unordered_move_stack` step a cursor at
the top of a full chunk on to the bottom of the next, made if there is none;
there is then room above the cursor. -/
theorem Holds.toReady (holds : stack.Holds items) :
    ∃ ready, (if stack.top = chunkSize then nextChunkStack stack else some stack) = some ready ∧
      ready.Holds items ∧ ready.top < chunkSize := by
  by_cases full : stack.top = chunkSize
  · set chunks := if stack.topChunk + 1 < stack.chunks.length then stack.chunks else stack.chunks ++ [freshChunk]
      with chunksIs
    have sameUpTo : ∀ offset, upTo chunks stack.topChunk offset = upTo stack.chunks stack.topChunk offset := by
      intro offset
      split_ifs at chunksIs with hasNext
      · rw [chunksIs]
      · rw [chunksIs, upTo_append _ _ holds.topChunk_lt]
    have sameChunk : chunkAt chunks stack.topChunk = chunkAt stack.chunks stack.topChunk := by
      split_ifs at chunksIs with hasNext
      · rw [chunksIs]
      · simp [chunksIs, chunkAt, List.getElem?_append_left holds.topChunk_lt]
    refine ⟨{ stack with chunks, topChunk := stack.topChunk + 1, top := 0 }, ?_, ⟨?_, ?_, Nat.zero_le _,
      holds.size_eq, ?_⟩, chunkSize_pos⟩
    · simp only [if_pos full, nextChunkStack, chunksIs]
    · intro chunk mem
      split_ifs at chunksIs with hasNext
      · exact holds.chunk_length chunk (chunksIs ▸ mem)
      · rw [chunksIs, List.mem_append, List.mem_singleton] at mem
        rcases mem with old | rfl
        · exact holds.chunk_length chunk old
        · simp [freshChunk]
    · have := holds.topChunk_lt
      split_ifs at chunksIs with hasNext
      · simpa [chunksIs] using hasNext
      · simp [chunksIs]
        omega
    · simp only [contents]
      rw [upTo_succ_zero, sameChunk, holds.chunkAt_length, ← full, sameUpTo, ← contents, holds.contents_eq]
  · exact ⟨stack, if_neg full, holds, Nat.lt_of_le_of_ne holds.top_le full⟩

/-! ### The operations -/

/-- `pop_stack` through a cursor above the bottom of its chunk. -/
theorem popStack_eq_bind (nonempty : stack.size ≠ 0) :
    popStack stack = (if stack.top = 0 then prevChunkStack stack else some stack).bind popTop := by
  unfold popStack
  split_ifs <;> rfl

/-- The end of `pop_stack` above the bottom of a chunk takes the last item. -/
theorem Holds.popTop (holds : stack.Holds items) (above : 0 < stack.top) :
    ∃ last, items.getLast? = some last ∧
      popTop stack = some (some last, stack.dropTop 1) ∧ (stack.dropTop 1).Holds items.dropLast := by
  have sized := holds.size_cursor
  have nonempty : items ≠ [] := by
    intro empty
    rw [holds.size_eq, empty] at sized
    simp at sized
    omega
  obtain ⟨dropped, slots⟩ := holds.dropTop (show 1 ≤ stack.top from above)
  have isLast := List.getLast?_eq_some_getLast nonempty
  have slot : (chunkAt stack.chunks stack.topChunk)[stack.top - 1]? = some (some (items.getLast nonempty)) := by
    have := congrArg List.head? slots
    rwa [List.head?_take, if_neg Nat.one_ne_zero, List.head?_drop, List.head?_map, List.head?_drop,
      ← List.getLast?_eq_getElem?, isLast, Option.map_some] at this
  refine ⟨items.getLast nonempty, isLast, ?_, ?_⟩
  · have := holds.top_le
    rw [Alloc.popTop, if_pos ⟨above, by omega, by omega⟩]
    simp [QdAllocLinkedStack.itemAt, QdAllocLinkedStack.dropTop, slot]
  · rwa [List.dropLast_eq_take]

/-- `pop_stack` returns the last item, NULL exactly on the empty stack, and
takes it off. -/
theorem Holds.pop (holds : stack.Holds items) :
    ∃ popped, popStack stack = some (items.getLast?, popped) ∧ popped.Holds items.dropLast := by
  by_cases empty : items = []
  · subst empty
    have sized := holds.size_cursor
    have size : stack.size = 0 := holds.size_eq
    have chunkZero : stack.topChunk = 0 := by
      rcases Nat.eq_zero_or_pos stack.topChunk with zero | pos
      · exact zero
      · have := Nat.mul_le_mul_right chunkSize pos
        have := chunkSize_pos
        omega
    refine ⟨stack, ?_, holds⟩
    simp [popStack, size, chunkZero, show stack.top = 0 by omega]
  · obtain ⟨ready, readied, readyHolds, above⟩ := holds.fromReady empty
    obtain ⟨last, isLast, popped, poppedHolds⟩ := readyHolds.popTop above
    refine ⟨ready.dropTop 1, ?_, poppedHolds⟩
    have sizePos : stack.size ≠ 0 := by rw [holds.size_eq]; simpa using empty
    rw [popStack_eq_bind sizePos, readied, Option.bind_some, popped, isLast]

/-- `push_stack` once the cursor has room writes the item there. -/
theorem pushStack_eq {ready : QdAllocLinkedStack α} (item : α)
    (readied : (if stack.top = chunkSize then nextChunkStack stack else some stack) = some ready)
    (room : ready.top < chunkSize) :
    pushStack stack item = some (ready.writeRun 1 [some item]) := by
  simp only [pushStack, readied, Option.bind_some, if_pos room]
  rfl

/-- `push_stack` puts the item on top. -/
theorem Holds.push (holds : stack.Holds items) (item : α) :
    ∃ pushed, pushStack stack item = some pushed ∧ pushed.Holds (items ++ [item]) := by
  obtain ⟨ready, readied, readyHolds, room⟩ := holds.toReady
  exact ⟨_, pushStack_eq item readied room, readyHolds.write [item] room⟩

/-- A round of the loop of `unordered_move_stack`, once both cursors are
ready. -/
theorem moveLoop_succ {fromStack toStack fromReady toReady : QdAllocLinkedStack α} (fuel : Nat) {remaining : Nat}
    (positive : 0 < remaining)
    (fromReadied : (if fromStack.top = 0 then prevChunkStack fromStack else some fromStack) = some fromReady)
    (toReadied : (if toStack.top = chunkSize then nextChunkStack toStack else some toStack) = some toReady) :
    moveLoop (fuel + 1) remaining fromStack toStack =
      moveLoop fuel (remaining - min (chunkSize - toReady.top) (min fromReady.top remaining))
        (fromReady.dropTop (min (chunkSize - toReady.top) (min fromReady.top remaining)))
        (toReady.writeRun (min (chunkSize - toReady.top) (min fromReady.top remaining))
          (((chunkAt fromReady.chunks fromReady.topChunk).drop
            (fromReady.top - min (chunkSize - toReady.top) (min fromReady.top remaining))).take
              (min (chunkSize - toReady.top) (min fromReady.top remaining)))) := by
  rw [moveLoop, if_pos positive]
  simp only [fromReadied, toReadied, Option.bind_some]
  rfl

/-- A round moves at least one of the items remaining, and no more, from the
top of one stack onto the other, in their order. -/
theorem Holds.moveRound {fromStack toStack : QdAllocLinkedStack α} {fromItems toItems : List α}
    (fromHolds : fromStack.Holds fromItems) (toHolds : toStack.Holds toItems) (fuel : Nat) {remaining : Nat}
    (positive : 0 < remaining) (enough : remaining ≤ fromItems.length) :
    ∃ toCopy fromNext toNext, 0 < toCopy ∧ toCopy ≤ remaining ∧
      moveLoop (fuel + 1) remaining fromStack toStack = moveLoop fuel (remaining - toCopy) fromNext toNext ∧
      fromNext.Holds (fromItems.take (fromItems.length - toCopy)) ∧
      toNext.Holds (toItems ++ fromItems.drop (fromItems.length - toCopy)) := by
  obtain ⟨fromReady, fromReadied, fromReadyHolds, above⟩ :=
    fromHolds.fromReady (List.ne_nil_of_length_pos (Nat.lt_of_lt_of_le positive enough))
  obtain ⟨toReady, toReadied, toReadyHolds, room⟩ := toHolds.toReady
  have round := moveLoop_succ fuel positive fromReadied toReadied
  set toCopy := min (chunkSize - toReady.top) (min fromReady.top remaining)
  obtain ⟨dropped, slots⟩ := fromReadyHolds.dropTop (show toCopy ≤ fromReady.top by omega)
  have runLength : (fromItems.drop (fromItems.length - toCopy)).length = toCopy := by
    simp only [List.length_drop]
    omega
  have written := toReadyHolds.write (fromItems.drop (fromItems.length - toCopy)) (by omega)
  rw [runLength, ← slots] at written
  exact ⟨toCopy, _, _, by omega, by omega, round, dropped, written⟩

/-- The items the earlier rounds of a move took, then those the later ones
take, are the top items of the stack the move started from, in another
order. -/
theorem perm_drop_append {items later : List α} {taken remaining : Nat} (takenLe : taken ≤ remaining)
    (enough : remaining ≤ items.length)
    (laterPerm : later.Perm ((items.take (items.length - taken)).drop (items.length - remaining))) :
    (items.drop (items.length - taken) ++ later).Perm (items.drop (items.length - remaining)) := by
  have split : items.drop (items.length - remaining) =
      (items.take (items.length - taken)).drop (items.length - remaining) ++ items.drop (items.length - taken) := by
    have whole := congrArg (List.drop (items.length - remaining)) (List.take_append_drop (items.length - taken) items)
    rw [List.drop_append_of_le_length (by simp only [List.length_take]; omega)] at whole
    exact whole.symm
  rw [split]
  exact (laterPerm.append_left _).trans List.perm_append_comm

/-- The loop of `unordered_move_stack`, with a round of fuel for each item
remaining, moves them all, in another order; by induction on the fuel, a
round at a time. -/
theorem Holds.moveLoop :
    ∀ (fuel remaining : Nat) {fromStack toStack : QdAllocLinkedStack α} {fromItems toItems : List α},
      fromStack.Holds fromItems → toStack.Holds toItems → remaining ≤ fuel → remaining ≤ fromItems.length →
      ∃ moved fromFinal toFinal, Alloc.moveLoop fuel remaining fromStack toStack = some (fromFinal, toFinal) ∧
        moved.Perm (fromItems.drop (fromItems.length - remaining)) ∧
        fromFinal.Holds (fromItems.take (fromItems.length - remaining)) ∧ toFinal.Holds (toItems ++ moved)
  | fuel, 0, fromStack, toStack, fromItems, toItems, fromHolds, toHolds, _, _ => by
      refine ⟨[], fromStack, toStack, ?_, ?_, ?_, ?_⟩
      · rw [Alloc.moveLoop.eq_def, if_neg (Nat.lt_irrefl 0)]
      · simp
      · simpa using fromHolds
      · simpa using toHolds
  | 0, remaining + 1, _, _, _, _, _, _, withinFuel, _ => absurd withinFuel (by omega)
  | fuel + 1, remaining + 1, fromStack, toStack, fromItems, toItems, fromHolds, toHolds, withinFuel, enough => by
      obtain ⟨toCopy, fromNext, toNext, positive, atMost, round, fromNextHolds, toNextHolds⟩ :=
        fromHolds.moveRound toHolds fuel (Nat.succ_pos remaining) enough
      obtain ⟨later, fromFinal, toFinal, ran, laterPerm, fromFinalHolds, toFinalHolds⟩ :=
        Holds.moveLoop fuel (remaining + 1 - toCopy) fromNextHolds toNextHolds (by omega)
          (by simp only [List.length_take]; omega)
      have shorter : (fromItems.take (fromItems.length - toCopy)).length = fromItems.length - toCopy := by
        simp only [List.length_take]
        omega
      rw [shorter, show fromItems.length - toCopy - (remaining + 1 - toCopy) = fromItems.length - (remaining + 1)
        by omega] at laterPerm fromFinalHolds
      rw [List.take_take, Nat.min_eq_left (by omega)] at fromFinalHolds
      refine ⟨fromItems.drop (fromItems.length - toCopy) ++ later, fromFinal, toFinal, round ▸ ran,
        perm_drop_append atMost enough laterPerm, fromFinalHolds, ?_⟩
      rwa [List.append_assoc] at toFinalHolds

/-- `unordered_move_stack` moves the top `min size length` items, in another
order, and returns their number. -/
theorem Holds.unorderedMove {fromStack toStack : QdAllocLinkedStack α} {fromItems toItems : List α}
    (fromHolds : fromStack.Holds fromItems) (toHolds : toStack.Holds toItems) (length : Nat) :
    ∃ moved fromFinal toFinal,
      unorderedMoveStack fromStack toStack length = some (min fromItems.length length, fromFinal, toFinal) ∧
      moved.Perm (fromItems.drop (fromItems.length - min fromItems.length length)) ∧
      fromFinal.Holds (fromItems.take (fromItems.length - min fromItems.length length)) ∧
      toFinal.Holds (toItems ++ moved) := by
  by_cases nothing : min fromItems.length length = 0
  · refine ⟨[], fromStack, toStack, ?_, ?_, ?_, ?_⟩
    · simp [unorderedMoveStack, fromHolds.size_eq, nothing]
    · simp [nothing]
    · simpa [nothing] using fromHolds
    · simpa using toHolds
  · obtain ⟨moved, fromFinal, toFinal, ran, movedPerm, fromFinalHolds, toFinalHolds⟩ :=
      fromHolds.moveLoop (min fromItems.length length) (min fromItems.length length) toHolds (Nat.le_refl _)
        (Nat.min_le_left _ _)
    refine ⟨moved, fromFinal, toFinal, ?_, movedPerm, fromFinalHolds, toFinalHolds⟩
    simp only [unorderedMoveStack, fromHolds.size_eq, if_neg nothing, ran, Option.map_some]

end QdAllocLinkedStack

/-! ### Runs of calls on stacks kept as lists -/

section Family

variable {κ : Type} [DecidableEq κ]

/-- A move is between two stacks, never from a stack onto itself. -/
def StackCall.Distinct : StackCall κ α → Prop
  | .unorderedMoveStack fromName toName _ => fromName ≠ toName
  | _ => True

/-- A call on stacks kept as lists, bottom first: a push appends the item, a
pop takes the last item off and returns it, none on the empty list, and a move
takes the top `min size length` items off one list and puts them, in an order
it chooses, on the other, returning their number. -/
def ListStackStep (lists : κ → List α) : StackCall κ α → StackAnswer α → (κ → List α) → Prop
  | .pushStack name item, answer, next =>
      answer = .pushed ∧ next = Function.update lists name (lists name ++ [item])
  | .popStack name, answer, next =>
      answer = .popped (lists name).getLast? ∧ next = Function.update lists name (lists name).dropLast
  | .unorderedMoveStack fromName toName length, answer, next =>
      answer = .moved (min (lists fromName).length length) ∧
        ∃ moved, moved.Perm ((lists fromName).drop ((lists fromName).length - min (lists fromName).length length)) ∧
          next = Function.update
            (Function.update lists fromName
              ((lists fromName).take ((lists fromName).length - min (lists fromName).length length)))
            toName (lists toName ++ moved)

/-- A stack that holds its list put in place of one of a family keeps the
family holding theirs. -/
theorem holds_update {family : κ → QdAllocLinkedStack α} {lists : κ → List α}
    (holds : ∀ name, (family name).Holds (lists name)) (name : κ) {stack : QdAllocLinkedStack α} {items : List α}
    (updated : stack.Holds items) :
    ∀ other, (Function.update family name stack other).Holds (Function.update lists name items other) := by
  intro other
  by_cases same : other = name
  · subst same
    simpa using updated
  · simpa [Function.update_of_ne same] using holds other

/-- A call on stacks that hold lists takes one step of the list stacks, and
leaves stacks that hold the lists after it. -/
theorem stackStep_listStackStep {family : κ → QdAllocLinkedStack α} {lists : κ → List α}
    (holds : ∀ name, (family name).Holds (lists name)) (call : StackCall κ α) (distinct : call.Distinct) :
    ∃ answer next nextLists, stackStep family call = some (answer, next) ∧
      ListStackStep lists call answer nextLists ∧ ∀ name, (next name).Holds (nextLists name) := by
  cases call with
  | pushStack name item =>
      obtain ⟨pushed, pushedEq, pushedHolds⟩ := (holds name).push item
      exact ⟨_, _, _, by simp [stackStep, pushedEq], ⟨rfl, rfl⟩, holds_update holds name pushedHolds⟩
  | popStack name =>
      obtain ⟨popped, poppedEq, poppedHolds⟩ := (holds name).pop
      exact ⟨_, _, _, by simp [stackStep, poppedEq], ⟨rfl, rfl⟩, holds_update holds name poppedHolds⟩
  | unorderedMoveStack fromName toName length =>
      obtain ⟨moved, fromFinal, toFinal, movedEq, movedPerm, fromHolds, toHolds⟩ :=
        (holds fromName).unorderedMove (holds toName) length
      have toStays : Function.update lists fromName
          ((lists fromName).take ((lists fromName).length - min (lists fromName).length length)) toName =
          lists toName := Function.update_of_ne (Ne.symm distinct) _ _
      refine ⟨_, Function.update (Function.update family fromName fromFinal) toName toFinal, _,
        by simp [stackStep, movedEq], ⟨rfl, moved, movedPerm, rfl⟩, ?_⟩
      exact holds_update (holds_update holds fromName fromHolds) toName (toStays ▸ toHolds)

/-- Every run of calls, moves between distinct stacks, on stacks that hold
lists does not fail: it answers as the list stacks may, and leaves stacks that
hold the lists those end with; by induction on the run. -/
theorem stackStep_runs {family : κ → QdAllocLinkedStack α} {lists : κ → List α}
    (holds : ∀ name, (family name).Holds (lists name)) (calls : List (StackCall κ α))
    (distinct : ∀ call ∈ calls, call.Distinct) :
    ∃ answers final finalLists, Mealy.runPartial stackStep family calls = some (answers, final) ∧
      Mealy.Runs ListStackStep lists calls answers finalLists ∧ ∀ name, (final name).Holds (finalLists name) :=
  Mealy.runPartial_runs stackStep (fun _ _ call holds distinct => stackStep_listStackStep holds call distinct)
    calls holds distinct

end Family

end DispatchRouter.Alloc
