/-
# What the pools keep

Over every run of `qd_alloc` and `qd_dealloc` from `qd_alloc_init`, with a
batch of at least one item and frees only of items handed out, no call
asserts, so each batch moved is a whole batch; each thread's list stays below
`local_free_list_max`; `held_by_threads` counts the items on the threads' lists
and those handed out; and the heap has given out the items the threads hold,
those on the global list and those given back. Every free list holds a list
(`Holds`), so each operation on one is the list operation of
`Alloc.StackSpec`, and each path of `qd_alloc` and `qd_dealloc` keeps the
counters (`Counted`) by one lemma.
-/

import Mathlib.Algebra.BigOperators.Group.Finset.Piecewise
import Mathlib.Algebra.Order.BigOperators.Group.Finset
import DispatchRouter.Alloc.Pool
import DispatchRouter.Alloc.StackSpec

namespace DispatchRouter.Alloc

open Math QdAllocLinkedStack

variable {τ α : Type} [Fintype τ] [DecidableEq τ]

/-! ### The items the threads' lists hold -/

/-- Putting one thread's list in place of another changes the items on the
threads' lists by the change of its size. -/
theorem sum_size_update (pools : τ → QdAllocLinkedStack α) (thread : τ) (pool : QdAllocLinkedStack α) :
    (∑ other, (Function.update pools thread pool other).size) + (pools thread).size =
      (∑ other, (pools other).size) + pool.size := by
  simp only [Function.apply_update (fun _ stack => QdAllocLinkedStack.size stack)]
  rw [Finset.sum_update_of_mem (Finset.mem_univ thread), ← Finset.add_sum_erase _ _ (Finset.mem_univ thread),
    Finset.sdiff_singleton_eq_erase]
  omega

omit [DecidableEq τ] in
theorem size_le_sum (pools : τ → QdAllocLinkedStack α) (thread : τ) :
    (pools thread).size ≤ ∑ other, (pools other).size :=
  Finset.single_le_sum (fun other _ => Nat.zero_le (pools other).size) (Finset.mem_univ thread)

omit [Fintype τ] in
/-- Each thread's list holds a list after one is replaced by a stack that
holds one. -/
theorem tpoolsHold_update {pools : τ → QdAllocLinkedStack α} (hold : ∀ thread, ∃ items, (pools thread).Holds items)
    (thread : τ) {pool : QdAllocLinkedStack α} {items : List α} (poolHolds : pool.Holds items) :
    ∀ other, ∃ items, (Function.update pools thread pool other).Holds items := by
  intro other
  by_cases same : other = thread
  · subst same
    exact ⟨items, by simpa using poolHolds⟩
  · rw [Function.update_of_ne same]
    exact hold other

/-! ### The counters -/

/-- What the pools of a type keep over every run: each free list holds a list,
`held_by_threads` counts the items on the threads' lists and those handed out,
and the heap has given out those and the items on the global list, beside
those given back. -/
structure QdAllocType.Counted (desc : QdAllocType τ α) : Prop where
  global_holds : ∃ items, desc.globalFreeList.Holds items
  tpools_hold : ∀ thread, ∃ items, (desc.tpools thread).Holds items
  held_eq : desc.stats.heldByThreads = (∑ thread, (desc.tpools thread).size) + desc.allocated.length
  heap_eq : desc.stats.totalAllocFromHeap =
    desc.stats.heldByThreads + desc.globalFreeList.size + desc.stats.totalFreeToHeap

/-- The counters, and every thread's list below `local_free_list_max`. -/
structure QdAllocType.Sound (config : QdAllocConfig) (desc : QdAllocType τ α) : Prop
    extends QdAllocType.Counted desc where
  below_max : ∀ thread, (desc.tpools thread).size < config.localFreeListMax

variable {desc : QdAllocType τ α}

omit [Fintype τ] in
@[simp] theorem handOut_fst (thread : τ) (popped : Option α × QdAllocLinkedStack α) :
    (handOut desc thread popped).1 = popped.1 := by
  cases found : popped.1 <;> simp [handOut, found]

/-- Handing out the item a pop took off the thread's list keeps the counters:
it leaves the list and goes on `allocated`. -/
theorem QdAllocType.Counted.handOut (counted : desc.Counted) {thread : τ} {items : List α}
    (holds : (desc.tpools thread).Holds items) {popped : QdAllocLinkedStack α}
    (poppedHolds : popped.Holds items.dropLast) :
    (Alloc.handOut desc thread (items.getLast?, popped)).2.Counted ∧
      ((Alloc.handOut desc thread (items.getLast?, popped)).2.tpools thread).size = items.length - 1 ∧
      ∀ other, other ≠ thread → (Alloc.handOut desc thread (items.getLast?, popped)).2.tpools other = desc.tpools other := by
  have sizes := sum_size_update desc.tpools thread popped
  rw [holds.size_eq, poppedHolds.size_eq, List.length_dropLast] at sizes
  have hold := tpoolsHold_update counted.tpools_hold thread poppedHolds
  have held := counted.held_eq
  rcases List.eq_nil_or_concat' items with empty | ⟨front, last, rfl⟩
  · subst empty
    simp only [Alloc.handOut, List.getLast?_nil]
    refine ⟨⟨counted.global_holds, hold, ?_, counted.heap_eq⟩, by simp [poppedHolds.size_eq], fun other ne => ?_⟩
    · simp only [List.length_nil] at sizes
      simp only
      omega
    · simp [Function.update_of_ne ne]
  · simp only [Alloc.handOut, List.getLast?_concat]
    refine ⟨⟨counted.global_holds, hold, ?_, counted.heap_eq⟩, ?_, fun other ne => ?_⟩
    · simp only [List.length_append, List.length_singleton, Nat.add_sub_cancel] at sizes
      simp only [List.length_append, List.length_singleton]
      omega
    · simp [poppedHolds.size_eq]
    · simp [Function.update_of_ne ne]

/-- A round of the heap loop of `qd_alloc` keeps the counters: the item is
taken from the heap and held by the thread. -/
theorem QdAllocType.Counted.pushFromHeap (counted : desc.Counted) (thread : τ) (item : α) :
    ∃ next, Alloc.pushFromHeap thread desc item = some next ∧ next.Counted ∧
      (next.tpools thread).size = (desc.tpools thread).size + 1 ∧
      ∀ other, other ≠ thread → next.tpools other = desc.tpools other := by
  obtain ⟨items, holds⟩ := counted.tpools_hold thread
  obtain ⟨pushed, pushedEq, pushedHolds⟩ := holds.push item
  have sizes := sum_size_update desc.tpools thread pushed
  rw [holds.size_eq, pushedHolds.size_eq, List.length_append, List.length_singleton] at sizes
  have held := counted.held_eq
  have heapCount := counted.heap_eq
  refine ⟨{ desc with
      tpools := Function.update desc.tpools thread pushed
      stats := { desc.stats with
        heldByThreads := desc.stats.heldByThreads + 1
        totalAllocFromHeap := desc.stats.totalAllocFromHeap + 1 } },
    by simp only [Alloc.pushFromHeap, pushedEq, Option.map_some],
    ⟨counted.global_holds, tpoolsHold_update counted.tpools_hold thread pushedHolds, by simp only; omega,
      by simp only; omega⟩,
    by simp [pushedHolds.size_eq, holds.size_eq], fun other ne => Function.update_of_ne ne _ _⟩

/-- The heap loop of `qd_alloc` keeps the counters and puts one item on the
thread's list for each the heap gives; by induction on those items. -/
theorem QdAllocType.Counted.foldlM_pushFromHeap (thread : τ) :
    ∀ (items : List α) {desc : QdAllocType τ α}, desc.Counted →
      ∃ next, items.foldlM (Alloc.pushFromHeap thread) desc = some next ∧ next.Counted ∧
        (next.tpools thread).size = (desc.tpools thread).size + items.length ∧
        ∀ other, other ≠ thread → next.tpools other = desc.tpools other
  | [], desc, counted => ⟨desc, rfl, counted, rfl, fun _ _ => rfl⟩
  | item :: items, desc, counted => by
      obtain ⟨next, pushed, nextCounted, nextSize, nextOthers⟩ := counted.pushFromHeap thread item
      obtain ⟨final, ran, finalCounted, finalSize, finalOthers⟩ :=
        QdAllocType.Counted.foldlM_pushFromHeap thread items nextCounted
      refine ⟨final, by rw [List.foldlM_cons, pushed, Option.bind_eq_bind, Option.bind_some, ran], finalCounted,
        by rw [finalSize, nextSize, List.length_cons]; omega, fun other ne => ?_⟩
      rw [finalOthers other ne, nextOthers other ne]

/-- The refill of `qd_alloc` for a thread whose list is empty keeps the
counters and leaves at most a batch on the list: a whole batch from the global
list when it holds one. -/
theorem QdAllocType.Counted.refill (config : QdAllocConfig) (counted : desc.Counted) {thread : τ}
    (empty : (desc.tpools thread).size = 0) (heap : List α) :
    ∃ next, qdAllocRefill config desc thread heap = some next ∧ next.Counted ∧
      (next.tpools thread).size ≤ config.transferBatchSize ∧
      ∀ other, other ≠ thread → next.tpools other = desc.tpools other := by
  by_cases enough : desc.globalFreeList.size ≥ config.transferBatchSize
  · obtain ⟨globalItems, globalHolds⟩ := counted.global_holds
    obtain ⟨items, holds⟩ := counted.tpools_hold thread
    obtain ⟨moved, global, pool, movedEq, movedPerm, globalHolds', poolHolds⟩ :=
      globalHolds.unorderedMove holds config.transferBatchSize
    have whole : min globalItems.length config.transferBatchSize = config.transferBatchSize :=
      Nat.min_eq_right (globalHolds.size_eq ▸ enough)
    rw [whole] at movedEq movedPerm globalHolds'
    have movedLength : moved.length = config.transferBatchSize := by
      rw [movedPerm.length_eq, List.length_drop]
      have := globalHolds.size_eq
      omega
    have sizes := sum_size_update desc.tpools thread pool
    rw [poolHolds.size_eq, List.length_append, movedLength, empty] at sizes
    have noItems : items.length = 0 := holds.size_eq ▸ empty
    have globalSize : global.size = desc.globalFreeList.size - config.transferBatchSize := by
      rw [globalHolds'.size_eq, globalHolds.size_eq, List.length_take]
      omega
    have held := counted.held_eq
    have heapCount := counted.heap_eq
    refine ⟨{ desc with
        globalFreeList := global
        tpools := Function.update desc.tpools thread pool
        stats := { desc.stats with
          batchesRebalancedToThreads := desc.stats.batchesRebalancedToThreads + 1
          heldByThreads := desc.stats.heldByThreads + config.transferBatchSize } },
      by simp [qdAllocRefill, enough, movedEq],
      ⟨⟨_, globalHolds'⟩, tpoolsHold_update counted.tpools_hold thread poolHolds, ?_, ?_⟩, ?_,
      fun other ne => Function.update_of_ne ne _ _⟩
    · simp only
      omega
    · simp only [globalSize]
      omega
    · simp [poolHolds.size_eq, movedLength, noItems]
  · obtain ⟨next, ran, nextCounted, nextSize, nextOthers⟩ :=
      counted.foldlM_pushFromHeap thread (heap.take config.transferBatchSize)
    refine ⟨next, by rw [qdAllocRefill, if_neg enough, ran], nextCounted, ?_, nextOthers⟩
    rw [nextSize, empty, List.length_take]
    omega

omit [DecidableEq τ] in
/-- Cutting the global list down keeps the counters: each item popped is
given back to the heap; by induction on the fuel, an item a round. -/
theorem QdAllocType.Counted.trimGlobalLoop (globalFreeListMax : Nat) :
    ∀ (fuel : Nat) {desc : QdAllocType τ α}, desc.Counted → desc.globalFreeList.size ≤ fuel →
      ∃ next, Alloc.trimGlobalLoop globalFreeListMax fuel desc = some next ∧ next.Counted ∧
        next.tpools = desc.tpools
  | fuel, desc, counted, withinFuel => by
      by_cases tooMany : desc.globalFreeList.size > globalFreeListMax
      · obtain ⟨globalItems, globalHolds⟩ := counted.global_holds
        obtain ⟨popped, poppedEq, poppedHolds⟩ := globalHolds.pop
        have nonempty : globalItems ≠ [] := by
          intro empty
          rw [globalHolds.size_eq, empty] at tooMany
          simp at tooMany
        have poppedSize : popped.size = desc.globalFreeList.size - 1 := by
          rw [poppedHolds.size_eq, globalHolds.size_eq, List.length_dropLast]
        obtain ⟨fuel, rfl⟩ : ∃ rest, fuel = rest + 1 := Nat.exists_eq_add_one.mpr (by omega)
        have heapCount := counted.heap_eq
        have nextCounted : QdAllocType.Counted { desc with
            globalFreeList := popped
            stats := { desc.stats with totalFreeToHeap := desc.stats.totalFreeToHeap + 1 } } :=
          ⟨⟨_, poppedHolds⟩, counted.tpools_hold, counted.held_eq, by simp only [poppedSize]; omega⟩
        obtain ⟨next, ran, nextCounted', sameTpools⟩ :=
          QdAllocType.Counted.trimGlobalLoop globalFreeListMax fuel nextCounted (by simp only [poppedSize]; omega)
        refine ⟨next, ?_, nextCounted', sameTpools⟩
        rw [Alloc.trimGlobalLoop, if_pos tooMany]
        simp only [poppedEq, Option.bind_some]
        exact ran
      · exact ⟨desc, by rw [Alloc.trimGlobalLoop.eq_def, if_neg tooMany], counted, rfl⟩

/-- The batch `qd_dealloc` gives back from a thread's list that holds one keeps
the counters, is a whole batch, and leaves the rest of the list. -/
theorem QdAllocType.Counted.rebalanceToGlobal (config : QdAllocConfig) (counted : desc.Counted) (thread : τ)
    (full : config.transferBatchSize ≤ (desc.tpools thread).size) :
    ∃ next, Alloc.rebalanceToGlobal config desc thread = some next ∧ next.Counted ∧
      (next.tpools thread).size = (desc.tpools thread).size - config.transferBatchSize ∧
      ∀ other, other ≠ thread → next.tpools other = desc.tpools other := by
  obtain ⟨globalItems, globalHolds⟩ := counted.global_holds
  obtain ⟨items, holds⟩ := counted.tpools_hold thread
  obtain ⟨moved, pool, global, movedEq, movedPerm, poolHolds, globalHolds'⟩ :=
    holds.unorderedMove globalHolds config.transferBatchSize
  have whole : min items.length config.transferBatchSize = config.transferBatchSize :=
    Nat.min_eq_right (holds.size_eq ▸ full)
  rw [whole] at movedEq movedPerm poolHolds
  have movedLength : moved.length = config.transferBatchSize := by
    rw [movedPerm.length_eq, List.length_drop]
    have := holds.size_eq
    omega
  have poolSize : pool.size = (desc.tpools thread).size - config.transferBatchSize := by
    rw [poolHolds.size_eq, holds.size_eq, List.length_take]
    omega
  have globalSize : global.size = desc.globalFreeList.size + config.transferBatchSize := by
    rw [globalHolds'.size_eq, globalHolds.size_eq, List.length_append, movedLength]
  have sizes := sum_size_update desc.tpools thread pool
  have within := size_le_sum desc.tpools thread
  have held := counted.held_eq
  have heapCount := counted.heap_eq
  have balanced : QdAllocType.Counted { desc with
      tpools := Function.update desc.tpools thread pool
      globalFreeList := global
      stats := { desc.stats with
        batchesRebalancedToGlobal := desc.stats.batchesRebalancedToGlobal + 1
        heldByThreads := desc.stats.heldByThreads - config.transferBatchSize } } :=
    ⟨⟨_, globalHolds'⟩, tpoolsHold_update counted.tpools_hold thread poolHolds, by simp only; omega,
      by simp only [globalSize]; omega⟩
  have poolAfter : (Function.update desc.tpools thread pool thread).size =
      (desc.tpools thread).size - config.transferBatchSize := by
    simp [poolSize]
  by_cases bounded : config.globalFreeListMax ≠ 0
  · obtain ⟨next, trimmed, nextCounted, sameTpools⟩ :=
      balanced.trimGlobalLoop config.globalFreeListMax global.size (Nat.le_refl _)
    refine ⟨next, ?_, nextCounted, by rw [sameTpools, poolAfter], fun other ne => ?_⟩
    · simpa [Alloc.rebalanceToGlobal, movedEq, bounded] using trimmed
    · rw [sameTpools]
      exact Function.update_of_ne ne _ _
  · refine ⟨_, ?_, balanced, poolAfter, fun other ne => Function.update_of_ne ne _ _⟩
    simp [Alloc.rebalanceToGlobal, movedEq, bounded]

/-! ### `qd_alloc` and `qd_dealloc` -/

/-- A call a thread may make: `qd_dealloc` only of an item handed out, as the
debug build asserts. -/
def AllocCall.Allowed (desc : QdAllocType τ α) : AllocCall τ α → Prop
  | .qdDealloc _ (some item) => item ∈ desc.allocated
  | _ => True

instance AllocCall.decidableAllowed [DecidableEq α] (desc : QdAllocType τ α) : ∀ call : AllocCall τ α, Decidable (call.Allowed desc)
  | .qdAlloc _ _ => isTrue trivial
  | .qdDealloc _ none => isTrue trivial
  | .qdDealloc _ (some item) => inferInstanceAs (Decidable (item ∈ desc.allocated))

omit [Fintype τ] in
/-- `qd_alloc` after the pop of the thread's list. -/
theorem qdAlloc_eq (config : QdAllocConfig) (thread : τ) (heap : List α) {popped : Option α × QdAllocLinkedStack α}
    (poppedEq : popStack (desc.tpools thread) = some popped) :
    qdAlloc config desc thread heap =
      if popped.1.isSome then some (handOut desc thread popped)
      else (qdAllocRefill config (handOut desc thread popped).2 thread heap).bind fun desc =>
        (popStack (desc.tpools thread)).map (handOut desc thread) := by
  simp only [qdAlloc, poppedEq, Option.bind_some]
  rcases handedEq : handOut desc thread popped with ⟨item, handed⟩
  obtain rfl : item = popped.1 := by rw [← handOut_fst thread popped, handedEq]
  rfl

section Calls

variable [DecidableEq α] {config : QdAllocConfig} (valid : 0 < config.transferBatchSize ∧ config.transferBatchSize ≤ config.localFreeListMax)
include valid

omit [DecidableEq α] in
/-- `qd_alloc` keeps the pools sound: an item comes off the thread's list, which
is refilled first if it is empty, with at most a batch. -/
theorem QdAllocType.Sound.qdAlloc (sound : desc.Sound config) (thread : τ) (heap : List α) :
    ∃ item next, Alloc.qdAlloc config desc thread heap = some (item, next) ∧ next.Sound config := by
  obtain ⟨items, holds⟩ := sound.tpools_hold thread
  obtain ⟨popped, poppedEq, poppedHolds⟩ := holds.pop
  obtain ⟨handed, handedSize, handedOthers⟩ := sound.toCounted.handOut holds poppedHolds
  have belowHere := sound.below_max thread
  rw [holds.size_eq] at belowHere
  rw [qdAlloc_eq config thread heap poppedEq]
  set first := handOut desc thread (items.getLast?, popped) with firstIs
  by_cases found : items.getLast?.isSome
  · -- the thread's list had an item
    refine ⟨first.1, first.2, by rw [if_pos found], handed, fun other => ?_⟩
    by_cases same : other = thread
    · subst same
      rw [handedSize]
      omega
    · rw [handedOthers other same]
      exact sound.below_max other
  · -- an empty list: refilled with at most a batch, then popped
    have empty : items = [] := by simpa using found
    obtain ⟨refilled, refillEq, refilledCounted, refilledSize, refilledOthers⟩ :=
      handed.refill config (by rw [handedSize, empty]; rfl) heap
    obtain ⟨items', holds'⟩ := refilledCounted.tpools_hold thread
    obtain ⟨popped', poppedEq', poppedHolds'⟩ := holds'.pop
    obtain ⟨handed', handedSize', handedOthers'⟩ := refilledCounted.handOut holds' poppedHolds'
    set second := handOut refilled thread (items'.getLast?, popped') with secondIs
    refine ⟨second.1, second.2, by rw [if_neg found, refillEq, Option.bind_some, poppedEq', Option.map_some], handed',
      fun other => ?_⟩
    by_cases same : other = thread
    · subst same
      have := holds'.size_eq
      rw [handedSize']
      omega
    · rw [handedOthers' other same, refilledOthers other same, handedOthers other same]
      exact sound.below_max other

/-- `qd_dealloc` of an item handed out keeps the pools sound: the item goes on
the thread's list, and a list that reaches `local_free_list_max` gives a whole
batch back. -/
theorem QdAllocType.Sound.qdDealloc (sound : desc.Sound config) (thread : τ) {p : Option α}
    (allowed : (AllocCall.qdDealloc thread p).Allowed desc) :
    ∃ next, Alloc.qdDealloc config desc thread p = some next ∧ next.Sound config := by
  cases p with
  | none => exact ⟨desc, rfl, sound⟩
  | some item =>
      obtain ⟨items, holds⟩ := sound.tpools_hold thread
      obtain ⟨pushed, pushedEq, pushedHolds⟩ := holds.push item
      have sizes := sum_size_update desc.tpools thread pushed
      rw [holds.size_eq, pushedHolds.size_eq, List.length_append, List.length_singleton] at sizes
      have erased := List.length_erase_of_mem (show item ∈ desc.allocated from allowed)
      have handedOut := List.length_pos_of_mem (show item ∈ desc.allocated from allowed)
      have held := sound.held_eq
      -- the item leaves `allocated` and goes on the thread's list
      have freedCounted : QdAllocType.Counted { desc with
          allocated := desc.allocated.erase item
          tpools := Function.update desc.tpools thread pushed } :=
        ⟨sound.global_holds, tpoolsHold_update sound.tpools_hold thread pushedHolds, by simp only; omega,
          sound.heap_eq⟩
      have pushedSize : pushed.size = (desc.tpools thread).size + 1 := by
        rw [pushedHolds.size_eq, holds.size_eq, List.length_append, List.length_singleton]
      have belowHere := sound.below_max thread
      by_cases below : pushed.size < config.localFreeListMax
      · refine ⟨_, by simp [Alloc.qdDealloc, show item ∈ desc.allocated from allowed, pushedEq, below],
          freedCounted, fun other => ?_⟩
        by_cases same : other = thread
        · subst same
          simpa using below
        · simpa [Function.update_of_ne same] using sound.below_max other
      · -- the list reached `local_free_list_max`: a whole batch goes back
        obtain ⟨next, balanced, nextCounted, nextSize, nextOthers⟩ :=
          freedCounted.rebalanceToGlobal config thread (by simp only [Function.update_self]; omega)
        refine ⟨next, ?_, nextCounted, fun other => ?_⟩
        · simpa [Alloc.qdDealloc, show item ∈ desc.allocated from allowed, pushedEq, below] using balanced
        · by_cases same : other = thread
          · subst same
            rw [nextSize]
            simp only [Function.update_self]
            omega
          · rw [nextOthers other same]
            simpa [Function.update_of_ne same] using sound.below_max other

/-- Every allowed call keeps the pools sound and does not assert. -/
theorem QdAllocType.Sound.step (sound : desc.Sound config) (call : AllocCall τ α) (allowed : call.Allowed desc) :
    ∃ answer next, allocStep config desc call = some (answer, next) ∧ next.Sound config := by
  cases call with
  | qdAlloc thread heap => exact sound.qdAlloc valid thread heap
  | qdDealloc thread p =>
      obtain ⟨next, dealloced, nextSound⟩ := sound.qdDealloc valid thread allowed
      exact ⟨none, next, by simp [allocStep, dealloced], nextSound⟩

/-- Every run of allowed calls from sound pools does not assert and ends with
sound pools. -/
theorem QdAllocType.Sound.run :
    ∀ (calls : List (AllocCall τ α)) {desc : QdAllocType τ α}, desc.Sound config →
      Mealy.AllowedRun (allocStep config) (fun desc call => call.Allowed desc) desc calls →
      ∃ answers final, Mealy.runPartial (allocStep config) desc calls = some (answers, final) ∧ final.Sound config :=
  Mealy.runPartial_invariant (allocStep config) fun _ call sound allowed => sound.step valid call allowed

end Calls

omit [DecidableEq τ] in
/-- `qd_alloc_init` with a batch of at least one item leaves sound pools, its
assertion met. -/
theorem sound_qdAllocInit {totalSize : Nat} {declared : Option QdAllocConfig} {config : QdAllocConfig}
    (init : qdAllocInit totalSize declared = some (config, desc)) (positive : 0 < config.transferBatchSize) :
    desc.Sound config ∧ config.transferBatchSize ≤ config.localFreeListMax := by
  dsimp only [qdAllocInit] at init
  set chosen := declared.getD
    (if totalSize > bigThreshold then qdAllocDefaultConfigBig else qdAllocDefaultConfigSmall)
  split_ifs at init with fits
  obtain ⟨rfl, rfl⟩ := Prod.mk.inj (Option.some.inj init)
  refine ⟨⟨⟨⟨[], holds_initStack⟩, fun _ => ⟨[], holds_initStack⟩, ?_, rfl⟩, fun _ => ?_⟩, fits⟩
  · simp [initStack]
  · simp only [initStack]
    omega

/-! ### The free stacks and the pools -/

/-- On every run of calls on free stacks that hold lists, moves between two
stacks, no call asserts: each answers as a list stack may, a move putting the
items it takes on in an order of its own, and each stack holds the list it
ends with, its size that list's length and its cursor inside its chunk. Over
every run of `qd_alloc` and `qd_dealloc` from `qd_alloc_init`, with a batch of
at least one item and frees only of items handed out, no call asserts, so each
batch moved is a whole batch; every thread's list stays below
`local_free_list_max`, `held_by_threads` counts the items on the threads'
lists and those handed out, and the items the threads hold and those on the
global list are those the heap gave less those given back. -/
theorem free_stacks_refine_list_stacks :
    (∀ {κ α : Type} [DecidableEq κ] (family : κ → QdAllocLinkedStack α) (lists : κ → List α),
      (∀ name, (family name).Holds (lists name)) →
      ∀ calls : List (StackCall κ α), (∀ call ∈ calls, call.Distinct) →
        ∃ answers final finalLists, Mealy.runPartial stackStep family calls = some (answers, final) ∧
          Mealy.Runs ListStackStep lists calls answers finalLists ∧
          ∀ name, (final name).size = (finalLists name).length ∧ (final name).top ≤ chunkSize ∧
            (final name).Holds (finalLists name)) ∧
    (∀ {τ α : Type} [Fintype τ] [DecidableEq τ] [DecidableEq α] (totalSize : Nat)
      (declared : Option QdAllocConfig) (config : QdAllocConfig) (desc : QdAllocType τ α),
      qdAllocInit totalSize declared = some (config, desc) → 0 < config.transferBatchSize →
      ∀ calls : List (AllocCall τ α),
        Mealy.AllowedRun (allocStep config) (fun desc call => call.Allowed desc) desc calls →
        ∃ answers final, Mealy.runPartial (allocStep config) desc calls = some (answers, final) ∧
          (∀ thread, (final.tpools thread).size < config.localFreeListMax) ∧
          final.stats.heldByThreads = (∑ thread, (final.tpools thread).size) + final.allocated.length ∧
          final.stats.heldByThreads + final.globalFreeList.size =
            final.stats.totalAllocFromHeap - final.stats.totalFreeToHeap) := by
  refine ⟨fun family lists holds calls distinct => ?_,
    fun totalSize declared config desc init positive calls allowed => ?_⟩
  · obtain ⟨answers, final, finalLists, ran, listRun, finalHolds⟩ := stackStep_runs holds calls distinct
    exact ⟨answers, final, finalLists, ran, listRun,
      fun name => ⟨(finalHolds name).size_eq, (finalHolds name).top_le, finalHolds name⟩⟩
  · obtain ⟨sound, fits⟩ := sound_qdAllocInit init positive
    obtain ⟨answers, final, ran, finalSound⟩ := QdAllocType.Sound.run ⟨positive, fits⟩ calls sound allowed
    refine ⟨answers, final, ran, finalSound.below_max, finalSound.held_eq, ?_⟩
    have heapCount := finalSound.heap_eq
    omega

/-- Two pushes and a move of one item between two stacks, then a pop; and a
type with a batch of one item whose thread takes an item from the heap, frees
it and takes it again. -/
theorem free_stacks_refine_list_stacks_run :
    (∃ answers final finalLists, Mealy.runPartial stackStep (fun _ : Bool => (initStack : QdAllocLinkedStack Nat))
        [.pushStack false 1, .pushStack false 2, .unorderedMoveStack false true 1, .popStack true] =
          some (answers, final) ∧
      Mealy.Runs ListStackStep (fun _ => [])
        [.pushStack false 1, .pushStack false 2, .unorderedMoveStack false true 1, .popStack true] answers finalLists ∧
      ∀ name, (final name).size = (finalLists name).length ∧ (final name).top ≤ chunkSize ∧
        (final name).Holds (finalLists name)) ∧
    (∃ answers final, Mealy.runPartial (allocStep ⟨1, 2, 0⟩)
        (⟨initStack, fun _ => initStack, ⟨0, 0, 0, 0, 0⟩, []⟩ : QdAllocType Bool Nat)
        [.qdAlloc false [5], .qdDealloc false (some 5), .qdAlloc false []] = some (answers, final) ∧
      (∀ thread, (final.tpools thread).size < 2) ∧
      final.stats.heldByThreads = (∑ thread, (final.tpools thread).size) + final.allocated.length ∧
      final.stats.heldByThreads + final.globalFreeList.size =
        final.stats.totalAllocFromHeap - final.stats.totalFreeToHeap) := by
  have allowed : Mealy.AllowedRun (allocStep ⟨1, 2, 0⟩) (fun desc call => call.Allowed desc)
      (⟨initStack, fun _ => initStack, ⟨0, 0, 0, 0, 0⟩, []⟩ : QdAllocType Bool Nat)
      [.qdAlloc false [5], .qdDealloc false (some 5), .qdAlloc false []] := by
    rw [Mealy.allowedRun_cons_of_step _ rfl, Mealy.allowedRun_cons_of_step _ rfl,
      Mealy.allowedRun_cons_of_step _ rfl]
    exact ⟨trivial, by decide, trivial, trivial⟩
  exact ⟨free_stacks_refine_list_stacks.1 _ _ (fun _ => holds_initStack) _ (by simp [StackCall.Distinct]),
    free_stacks_refine_list_stacks.2 100 (some ⟨1, 2, 0⟩) _ _ rfl (by decide) _ allowed⟩

/-- Seventeen items pushed on a stack fill its base chunk and put one in the
next; a move of the top two copies `17` from the second chunk, then `16` from
the first, so the other stack gets them in that order and pops `16` first. -/
theorem unordered_move_reverses_runs :
    (Mealy.runPartial stackStep (fun _ : Bool => (initStack : QdAllocLinkedStack Nat))
      ((List.range 17).map (fun item => StackCall.pushStack false (item + 1)) ++
        [.unorderedMoveStack false true 2, .popStack true, .popStack true])).map (·.1.drop 17) =
      some [.moved 2, .popped (some 16), .popped (some 17)] := by
  decide +kernel

end DispatchRouter.Alloc
