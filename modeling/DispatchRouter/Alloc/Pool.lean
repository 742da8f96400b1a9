/-
# The allocation pools

`alloc_pool.c`: each allocated type keeps a global free list, and each thread
a free list of its own for the type, in its pool (`tpool`). `qd_alloc` takes
an item off the thread's list; on an empty list it first moves a batch of
`transfer_batch_size` items from the global list, or, if the global list holds
fewer, takes up to a batch from the heap. `qd_dealloc` puts the item on the
thread's list, and a list that reaches `local_free_list_max` gives a batch back
to the global list, which is then cut down to `global_free_list_max` items
unless that is zero. The statistics count the items the threads hold, on their
lists or handed out, and those taken from and given back to the heap.

The debug build (`QD_MEMORY_DEBUG`) keeps the list of the items handed out and
asserts that a freed item is on it; the model keeps that list. A thread's pool
is made empty on its first call; here every thread starts with an empty one.
-/

import DispatchRouter.Alloc.Stack

namespace DispatchRouter.Alloc

variable {τ α : Type} [DecidableEq τ] [DecidableEq α]

/-- `qd_alloc_config_t`. -/
structure QdAllocConfig where
  transferBatchSize : Nat
  localFreeListMax : Nat
  globalFreeListMax : Nat
  deriving DecidableEq, Repr

/-- `qd_alloc_default_config_big`. -/
def qdAllocDefaultConfigBig : QdAllocConfig := ⟨16, 32, 0⟩

/-- `qd_alloc_default_config_small`. -/
def qdAllocDefaultConfigSmall : QdAllocConfig := ⟨64, 128, 0⟩

/-- `BIG_THRESHOLD`. -/
def bigThreshold : Nat := 2000

/-- `qd_alloc_stats_t`. -/
structure QdAllocStats where
  totalAllocFromHeap : Nat
  totalFreeToHeap : Nat
  heldByThreads : Nat
  batchesRebalancedToThreads : Nat
  batchesRebalancedToGlobal : Nat
  deriving DecidableEq, Repr

/-- A `qd_alloc_type_desc_t` once initialized: the free list of its global
pool, the free list of each thread's pool, its statistics, and the items handed
out, which the debug build keeps in `allocated`. -/
structure QdAllocType (τ α : Type) where
  globalFreeList : QdAllocLinkedStack α
  tpools : τ → QdAllocLinkedStack α
  stats : QdAllocStats
  allocated : List α

/-- `qd_alloc_init` for a type whose items take `totalSize` octets, with the
configuration it declares, if any, and otherwise the default one for its size;
none where it asserts. -/
def qdAllocInit (totalSize : Nat) (declared : Option QdAllocConfig) :
    Option (QdAllocConfig × QdAllocType τ α) :=
  let config := declared.getD
    (if totalSize > bigThreshold then qdAllocDefaultConfigBig else qdAllocDefaultConfigSmall)
  if config.localFreeListMax ≥ config.transferBatchSize then
    some (config, ⟨initStack, fun _ => initStack, ⟨0, 0, 0, 0, 0⟩, []⟩)
  else none

/-- The end of both paths of `qd_alloc`: the thread's list after its pop, and
the item popped, if any, handed out. -/
def handOut (desc : QdAllocType τ α) (thread : τ) (popped : Option α × QdAllocLinkedStack α) :
    Option α × QdAllocType τ α :=
  let desc := { desc with tpools := Function.update desc.tpools thread popped.2 }
  match popped.1 with
  | some item => (some item, { desc with allocated := desc.allocated ++ [item] })
  | none => (none, desc)

/-- One round of the heap loop of `qd_alloc`: an item from the heap pushed on
the thread's list. -/
def pushFromHeap (thread : τ) (desc : QdAllocType τ α) (item : α) : Option (QdAllocType τ α) :=
  (pushStack (desc.tpools thread) item).map fun pool =>
    { desc with
      tpools := Function.update desc.tpools thread pool
      stats := { desc.stats with
        heldByThreads := desc.stats.heldByThreads + 1
        totalAllocFromHeap := desc.stats.totalAllocFromHeap + 1 } }

/-- The middle of `qd_alloc`, under the type's lock, for a thread whose list is
empty: a batch from the global list if it holds one, else an item from the
heap for each of `heap` up to a batch, `heap` the items the heap gives before
it fails; none where it asserts. -/
def qdAllocRefill (config : QdAllocConfig) (desc : QdAllocType τ α) (thread : τ) (heap : List α) :
    Option (QdAllocType τ α) :=
  if desc.globalFreeList.size ≥ config.transferBatchSize then
    (unorderedMoveStack desc.globalFreeList (desc.tpools thread) config.transferBatchSize).bind fun moved =>
      if moved.1 = config.transferBatchSize then
        some { desc with
          globalFreeList := moved.2.1
          tpools := Function.update desc.tpools thread moved.2.2
          stats := { desc.stats with
            batchesRebalancedToThreads := desc.stats.batchesRebalancedToThreads + 1
            heldByThreads := desc.stats.heldByThreads + moved.1 } }
      else none
  else (heap.take config.transferBatchSize).foldlM (pushFromHeap thread) desc

/-- `qd_alloc` by `thread`: the item handed out, or NULL if the heap gave
none; none where it asserts. -/
def qdAlloc (config : QdAllocConfig) (desc : QdAllocType τ α) (thread : τ) (heap : List α) :
    Option (Option α × QdAllocType τ α) :=
  (popStack (desc.tpools thread)).bind fun popped =>
    let (item, desc) := handOut desc thread popped
    if item.isSome then some (item, desc)
    else
      (qdAllocRefill config desc thread heap).bind fun desc =>
        (popStack (desc.tpools thread)).map (handOut desc thread)

/-- The end of `qd_dealloc` once a batch has gone to the global list, with a
`global_free_list_max`: items popped off the global list and freed to the heap
while it holds more. Each round takes one unit of `fuel`. -/
def trimGlobalLoop (globalFreeListMax fuel : Nat) (desc : QdAllocType τ α) : Option (QdAllocType τ α) :=
  if desc.globalFreeList.size > globalFreeListMax then
    match fuel with
    | 0 => none
    | fuel + 1 =>
        (popStack desc.globalFreeList).bind fun popped =>
          trimGlobalLoop globalFreeListMax fuel
            { desc with
              globalFreeList := popped.2
              stats := { desc.stats with totalFreeToHeap := desc.stats.totalFreeToHeap + 1 } }
  else some desc

/-- The batch `qd_dealloc` gives back from a full thread list to the global
list, under the type's lock; none where it asserts. -/
def rebalanceToGlobal (config : QdAllocConfig) (desc : QdAllocType τ α) (thread : τ) :
    Option (QdAllocType τ α) :=
  (unorderedMoveStack (desc.tpools thread) desc.globalFreeList config.transferBatchSize).bind fun moved =>
    if moved.1 = config.transferBatchSize then
      let desc := { desc with
        tpools := Function.update desc.tpools thread moved.2.1
        globalFreeList := moved.2.2
        stats := { desc.stats with
          batchesRebalancedToGlobal := desc.stats.batchesRebalancedToGlobal + 1
          heldByThreads := desc.stats.heldByThreads - moved.1 } }
      if config.globalFreeListMax ≠ 0 then
        trimGlobalLoop config.globalFreeListMax desc.globalFreeList.size desc
      else some desc
    else none

/-- `qd_dealloc` of the pointer `p` by `thread`; none where it asserts, on an
item that is not handed out among them. -/
def qdDealloc (config : QdAllocConfig) (desc : QdAllocType τ α) (thread : τ) :
    Option α → Option (QdAllocType τ α)
  | none => some desc
  | some item =>
      if item ∈ desc.allocated then
        let desc := { desc with allocated := desc.allocated.erase item }
        (pushStack (desc.tpools thread) item).bind fun pool =>
          let desc := { desc with tpools := Function.update desc.tpools thread pool }
          if pool.size < config.localFreeListMax then some desc
          else rebalanceToGlobal config desc thread
      else none

/-- A call on a type's pools, by a thread: `qd_alloc`, with the items the heap
gives, or `qd_dealloc` of a pointer. -/
inductive AllocCall (τ α : Type) where
  | qdAlloc (thread : τ) (heap : List α)
  | qdDealloc (thread : τ) (p : Option α)
  deriving DecidableEq, Repr

/-- A call, and the pointer it returns: the item handed out by `qd_alloc`, none
from `qd_dealloc`. -/
def allocStep (config : QdAllocConfig) (desc : QdAllocType τ α) :
    AllocCall τ α → Option (Option α × QdAllocType τ α)
  | .qdAlloc thread heap => qdAlloc config desc thread heap
  | .qdDealloc thread p => (qdDealloc config desc thread p).map fun desc => (none, desc)

end DispatchRouter.Alloc
