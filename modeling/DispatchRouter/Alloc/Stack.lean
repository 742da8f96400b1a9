/-
# The allocator's free stacks

`alloc_pool.c`: a free list is a `qd_alloc_linked_stack_t`, a stack kept in
chunks of `CHUNK_SIZE` item pointers: the base chunk inside the stack, then
chunks allocated after it when a push finds the top chunk full. A pop only
moves the cursor `(top_chunk, top)` down, stepping back a chunk from `top = 0`;
chunks stay allocated for later pushes, and a popped slot keeps its pointer.
`unordered_move_stack` moves items from the top of one stack onto another in
runs, each as long as both cursors' chunks allow, the topmost run first.

The chunk allocation of `next_chunk_stack` is taken to succeed here, so
`push_stack` never returns false.
-/

import Mathlib.Logic.Function.Basic
import DispatchRouter.Math.ChunkList

namespace DispatchRouter.Alloc

open Math

variable {α : Type}

/-- `CHUNK_SIZE`: the item pointers in 128 octets, with pointers of 8 octets. -/
def chunkSize : Nat := 128 / 8

/-- A `qd_alloc_linked_stack_t`: its chunks from `base_chunk` on along `next`,
each the `CHUNK_SIZE` slots of its `items` (none for a NULL or unwritten slot),
the index of `top_chunk` among them, `top` and `size`. -/
structure QdAllocLinkedStack (α : Type) where
  chunks : List (List (Option α))
  topChunk : Nat
  top : Nat
  size : Nat
  deriving DecidableEq, Repr

/-- The item in a slot of the top chunk; none for a NULL slot. -/
def QdAllocLinkedStack.itemAt (stack : QdAllocLinkedStack α) (slot : Nat) : Option α :=
  ((ChunkList.chunkAt stack.chunks stack.topChunk)[slot]?).join

/-- A chunk as `NEW` leaves it: no slot written. -/
def freshChunk : List (Option α) := List.replicate chunkSize none

/-- `init_stack`. -/
def initStack : QdAllocLinkedStack α := ⟨[freshChunk], 0, 0, 0⟩

/-- `prev_chunk_stack`: from the bottom of the top chunk to the top of the one
before; none where it asserts. -/
def prevChunkStack (stack : QdAllocLinkedStack α) : Option (QdAllocLinkedStack α) :=
  if stack.top = 0 ∧ stack.size ≠ 0 ∧ stack.topChunk ≠ 0 then
    some { stack with topChunk := stack.topChunk - 1, top := chunkSize }
  else none

/-- The end of `pop_stack`: the cursor and the size down one and the slot
under the cursor read; none where it asserts, a NULL slot among them. -/
def popTop (stack : QdAllocLinkedStack α) : Option (Option α × QdAllocLinkedStack α) :=
  if stack.top > 0 ∧ stack.top - 1 < chunkSize ∧ stack.size > 0 then
    let stack := { stack with top := stack.top - 1, size := stack.size - 1 }
    (stack.itemAt stack.top).map fun item => (some item, stack)
  else none

/-- `pop_stack`: the top item and the stack below it, or NULL from an empty
stack; none where it asserts. -/
def popStack (stack : QdAllocLinkedStack α) : Option (Option α × QdAllocLinkedStack α) :=
  if stack.top = 0 then
    if stack.size = 0 then
      if stack.topChunk = 0 then some (none, stack) else none
    else (prevChunkStack stack).bind popTop
  else popTop stack

/-- `next_chunk_stack`, `NEW` taken to succeed: from the top of a full top
chunk to the bottom of the next, a fresh chunk put after the last when there
is none; none where it asserts. -/
def nextChunkStack (stack : QdAllocLinkedStack α) : Option (QdAllocLinkedStack α) :=
  if stack.top = chunkSize then
    let chunks :=
      if stack.topChunk + 1 < stack.chunks.length then stack.chunks else stack.chunks ++ [freshChunk]
    some { stack with chunks, topChunk := stack.topChunk + 1, top := 0 }
  else none

/-- `push_stack`: the item written in the slot at the cursor, the cursor moved
on to the next chunk first if the top one is full; none where it asserts. -/
def pushStack (stack : QdAllocLinkedStack α) (item : α) : Option (QdAllocLinkedStack α) :=
  (if stack.top = chunkSize then nextChunkStack stack else some stack).bind fun stack =>
    if stack.top < chunkSize then
      some { stack with
        size := stack.size + 1
        chunks := stack.chunks.set stack.topChunk
          ((ChunkList.chunkAt stack.chunks stack.topChunk).set stack.top (some item))
        top := stack.top + 1 }
    else none

/-- The loop of `unordered_move_stack`, `remaining` items still to move. A
round steps `from` back a chunk from the bottom of its top chunk and `to` on a
chunk from the top of a full one, then copies (the `memcpy`) as many items as
`from` holds below its cursor and `to` has room for above its own, at most
those remaining. Each round takes one unit of `fuel`. -/
def moveLoop (fuel remaining : Nat) (fromStack toStack : QdAllocLinkedStack α) :
    Option (QdAllocLinkedStack α × QdAllocLinkedStack α) :=
  if remaining > 0 then
    match fuel with
    | 0 => none
    | fuel + 1 =>
        (if fromStack.top = 0 then prevChunkStack fromStack else some fromStack).bind fun fromStack =>
          (if toStack.top = chunkSize then nextChunkStack toStack else some toStack).bind fun toStack =>
            let toCopy := min (chunkSize - toStack.top) (min fromStack.top remaining)
            let fromTop := fromStack.top - toCopy
            let run := ((ChunkList.chunkAt fromStack.chunks fromStack.topChunk).drop fromTop).take toCopy
            moveLoop fuel (remaining - toCopy)
              { fromStack with top := fromTop, size := fromStack.size - toCopy }
              { toStack with
                  chunks := toStack.chunks.set toStack.topChunk
                    (ChunkList.setRun (ChunkList.chunkAt toStack.chunks toStack.topChunk) toStack.top run)
                  top := toStack.top + toCopy
                  size := toStack.size + toCopy }
  else some (fromStack, toStack)

/-- `unordered_move_stack`: at most `length` items moved from the top of
`from` onto `to`, and their number; none where it asserts. A round moves at
least one item, so a round for each is enough. -/
def unorderedMoveStack (fromStack toStack : QdAllocLinkedStack α) (length : Nat) :
    Option (Nat × QdAllocLinkedStack α × QdAllocLinkedStack α) :=
  let length := min fromStack.size length
  if length = 0 then some (0, fromStack, toStack)
  else (moveLoop length length fromStack toStack).map fun moved => (length, moved.1, moved.2)

/-! ### Calls on a family of stacks -/

/-- A call on the stacks a program keeps, each named by a `κ`. -/
inductive StackCall (κ α : Type) where
  | pushStack (stack : κ) (item : α)
  | popStack (stack : κ)
  | unorderedMoveStack (fromStack toStack : κ) (length : Nat)
  deriving DecidableEq, Repr

/-- What a call returns: that `push_stack` succeeded, the item `pop_stack`
returns, or the number `unordered_move_stack` returns. -/
inductive StackAnswer (α : Type) where
  | pushed
  | popped (item : Option α)
  | moved (count : Nat)
  deriving DecidableEq, Repr

/-- A call made on the stacks. -/
def stackStep {κ : Type} [DecidableEq κ] (family : κ → QdAllocLinkedStack α) :
    StackCall κ α → Option (StackAnswer α × (κ → QdAllocLinkedStack α))
  | .pushStack name item => (pushStack (family name) item).map fun stack => (.pushed, Function.update family name stack)
  | .popStack name => (popStack (family name)).map fun popped =>
      (.popped popped.1, Function.update family name popped.2)
  | .unorderedMoveStack fromName toName length =>
      (unorderedMoveStack (family fromName) (family toName) length).map fun moved =>
        (.moved moved.1, Function.update (Function.update family fromName moved.2.1) toName moved.2.2)

end DispatchRouter.Alloc
