/-
# Separate chaining

A table of buckets indexed by `Nat`, each a list of items, where an item's key
selects its bucket. While every item sits in the bucket its key selects and no
bucket holds a key twice, looking a key up in its own bucket finds the one item
stored under it. Adding an item with a new key at the end of its bucket, or
taking the items of one key out of theirs, changes the lookup of that key only
and keeps both properties.
-/

import Mathlib.Data.List.Nodup
import Mathlib.Logic.Function.Basic

namespace DispatchRouter.Math.Chaining

variable {ι κ : Type} [DecidableEq κ] (key : ι → κ) (slot : κ → Nat)

/-- Every item sits in the bucket its key selects, and no bucket holds a key twice. -/
structure Chained (buckets : Nat → List ι) : Prop where
  placed : ∀ b, ∀ item ∈ buckets b, slot (key item) = b
  distinct : ∀ b, ((buckets b).map key).Nodup

/-- The item stored under `k`: the first of its bucket with that key. -/
def lookup (buckets : Nat → List ι) (k : κ) : Option ι :=
  (buckets (slot k)).find? (fun item => key item = k)

/-- `item` added at the end of the bucket its key selects. -/
def append (buckets : Nat → List ι) (item : ι) : Nat → List ι :=
  Function.update buckets (slot (key item)) (buckets (slot (key item)) ++ [item])

/-- The items `drop` selects taken out of bucket `b`. -/
def removeIf (buckets : Nat → List ι) (b : Nat) (drop : ι → Bool) : Nat → List ι :=
  Function.update buckets b ((buckets b).filter (fun item => !drop item))

/-- Each item of bucket `b` changed by `f`, in place. -/
def mapBucket (buckets : Nat → List ι) (b : Nat) (f : ι → ι) : Nat → List ι :=
  Function.update buckets b ((buckets b).map f)

variable {key slot}

theorem lookup_eq_none {buckets : Nat → List ι} {k : κ} :
    lookup key slot buckets k = none ↔ ∀ item ∈ buckets (slot k), key item ≠ k := by
  simp [lookup, List.find?_eq_none]

theorem lookup_eq_some {buckets : Nat → List ι} {k : κ} {item : ι}
    (found : lookup key slot buckets k = some item) :
    item ∈ buckets (slot k) ∧ key item = k := by
  unfold lookup at found
  exact ⟨List.mem_of_find?_eq_some found, by simpa using List.find?_some found⟩

/-- In a chained table an item is what the lookup of its own key finds. -/
theorem Chained.lookup_of_mem {buckets : Nat → List ι} (chained : Chained key slot buckets)
    {b : Nat} {item : ι} (stored : item ∈ buckets b) : lookup key slot buckets (key item) = some item := by
  have home := chained.placed b item stored
  subst home
  cases found : lookup key slot buckets (key item) with
  | none => exact absurd rfl ((lookup_eq_none.mp found) item stored)
  | some other =>
      obtain ⟨mem, same⟩ := lookup_eq_some found
      -- two items of one bucket with one key are the same item
      exact congrArg some ((List.inj_on_of_nodup_map (chained.distinct _)) mem stored same)

omit [DecidableEq κ] in
theorem mem_append {buckets : Nat → List ι} {item other : ι} {b : Nat} :
    other ∈ append key slot buckets item b ↔
      other ∈ buckets b ∨ (b = slot (key item) ∧ other = item) := by
  unfold append
  by_cases home : b = slot (key item)
  · subst home
    simp
  · simp [home]

omit [DecidableEq κ] in
theorem mem_removeIf {buckets : Nat → List ι} {drop : ι → Bool} {b b' : Nat} {other : ι} :
    other ∈ removeIf buckets b drop b' ↔ other ∈ buckets b' ∧ (b' = b → drop other = false) := by
  unfold removeIf
  by_cases same : b' = b
  · subst same
    simp
  · simp [same]

/-- Adding an item whose key is new: that key finds it, every other key what it found. -/
theorem lookup_append {buckets : Nat → List ι} {item : ι}
    (fresh : lookup key slot buckets (key item) = none) (k : κ) :
    lookup key slot (append key slot buckets item) k =
      if k = key item then some item else lookup key slot buckets k := by
  unfold lookup append
  by_cases same : k = key item
  · subst same
    have none := lookup_eq_none.mp fresh
    simp only [Function.update_self, List.find?_append, if_true]
    rw [List.find?_eq_none.mpr (by simpa using none)]
    simp
  · rw [if_neg same]
    by_cases home : slot k = slot (key item)
    · rw [home, Function.update_self, List.find?_append]
      simp [Ne.symm same]
    · rw [Function.update_of_ne home]

omit [DecidableEq κ] in
/-- Adding an item keeps every bucket free of repeats of a projection `f`, if
the item's differs from those of the bucket it joins. -/
theorem nodup_map_append {β : Type} {buckets : Nat → List ι} {item : ι} (f : ι → β)
    (nodup : ∀ b, ((buckets b).map f).Nodup) (new : ∀ other ∈ buckets (slot (key item)), f other ≠ f item)
    (b : Nat) : ((append key slot buckets item b).map f).Nodup := by
  unfold append
  by_cases home : b = slot (key item)
  · subst home
    rw [Function.update_self, List.map_append, List.nodup_append]
    refine ⟨nodup _, List.nodup_singleton _, ?_⟩
    intro y old z added
    simp only [List.map_cons, List.map_nil, List.mem_singleton] at added
    obtain ⟨other, stored, rfl⟩ := List.mem_map.mp old
    subst added
    exact new other stored
  · rw [Function.update_of_ne home]
    exact nodup b

theorem Chained.append {buckets : Nat → List ι} {item : ι} (chained : Chained key slot buckets)
    (fresh : lookup key slot buckets (key item) = none) :
    Chained key slot (append key slot buckets item) where
  placed b other stored := by
    rcases mem_append.mp stored with old | ⟨home, rfl⟩
    · exact chained.placed b other old
    · exact home.symm
  distinct := nodup_map_append key chained.distinct (lookup_eq_none.mp fresh)

omit [DecidableEq κ] in
/-- A search for items that the filter keeps finds the same in the filtered list. -/
theorem find?_filter_of_kept {l : List ι} {keep found : ι → Bool}
    (kept : ∀ x ∈ l, found x = true → keep x = true) :
    (l.filter keep).find? found = l.find? found := by
  induction l with
  | nil => rfl
  | cons x rest ih =>
      have restKept : ∀ y ∈ rest, found y = true → keep y = true :=
        fun y mem => kept y (List.mem_cons_of_mem x mem)
      by_cases hit : found x = true
      · rw [List.filter_cons_of_pos (kept x List.mem_cons_self hit), List.find?_cons_of_pos hit,
          List.find?_cons_of_pos hit]
      · rw [List.find?_cons_of_neg hit, ← ih restKept]
        by_cases keepX : keep x = true
        · rw [List.filter_cons_of_pos keepX, List.find?_cons_of_neg hit]
        · rw [List.filter_cons_of_neg keepX]

/-- Taking out the items of key `k` from its bucket: `k` finds nothing, every
other key what it found. -/
theorem lookup_removeIf {buckets : Nat → List ι} {drop : ι → Bool} {k : κ}
    (selects : ∀ item ∈ buckets (slot k), drop item = true ↔ key item = k) (k' : κ) :
    lookup key slot (removeIf buckets (slot k) drop) k' =
      if k' = k then none else lookup key slot buckets k' := by
  unfold lookup removeIf
  by_cases same : k' = k
  · subst same
    rw [if_pos rfl, Function.update_self, List.find?_eq_none]
    intro item kept
    rw [List.mem_filter] at kept
    have keep : drop item = false := by simpa using kept.2
    intro found
    rw [(selects item kept.1).mpr (by simpa using found)] at keep
    cases keep
  · rw [if_neg same]
    by_cases home : slot k' = slot k
    · rw [home, Function.update_self]
      -- an item of key `k'` is not one of key `k`, so the filter keeps it
      apply find?_filter_of_kept
      intro item stored found
      have notDropped : drop item ≠ true := fun dropped =>
        same ((decide_eq_true_eq.mp found).symm.trans ((selects item stored).mp dropped))
      simpa using notDropped
    · rw [Function.update_of_ne home]

omit [DecidableEq κ] in
theorem removeIf_sublist (buckets : Nat → List ι) (b : Nat) (drop : ι → Bool) (b' : Nat) :
    (removeIf buckets b drop b').Sublist (buckets b') := by
  unfold removeIf
  by_cases same : b' = b
  · subst same
    rw [Function.update_self]
    exact List.filter_sublist
  · rw [Function.update_of_ne same]

omit [DecidableEq κ] in
theorem Chained.removeIf {buckets : Nat → List ι} (chained : Chained key slot buckets) (b : Nat)
    (drop : ι → Bool) : Chained key slot (removeIf buckets b drop) where
  placed b' other kept := chained.placed b' other (mem_removeIf.mp kept).1
  distinct b' := by
    exact (chained.distinct b').sublist ((removeIf_sublist buckets b drop b').map key)

omit [DecidableEq κ] in
theorem mem_mapBucket {buckets : Nat → List ι} {f : ι → ι} {b b' : Nat} {other : ι} :
    other ∈ mapBucket buckets b f b' ↔
      if b' = b then ∃ item ∈ buckets b', f item = other else other ∈ buckets b' := by
  unfold mapBucket
  by_cases same : b' = b
  · subst same
    simp
  · simp [same]

/-- Changing items in place, keeping their keys, changes what each lookup finds
in the same way. -/
theorem lookup_mapBucket {buckets : Nat → List ι} {f : ι → ι} (keeps : ∀ item, key (f item) = key item)
    (b : Nat) (k : κ) :
    lookup key slot (mapBucket buckets b f) k =
      if slot k = b then (lookup key slot buckets k).map f else lookup key slot buckets k := by
  unfold lookup mapBucket
  by_cases home : slot k = b
  · rw [if_pos home, home, Function.update_self, List.find?_map]
    congr 2
    funext item
    simp [keeps]
  · rw [if_neg home, Function.update_of_ne home]

omit [DecidableEq κ] in
/-- Changing items in place, keeping a projection `g`, keeps every bucket free of
repeats of it. -/
theorem nodup_map_mapBucket {β : Type} {buckets : Nat → List ι} {f : ι → ι} (g : ι → β)
    (keeps : ∀ item, g (f item) = g item) (nodup : ∀ b, ((buckets b).map g).Nodup) (b b' : Nat) :
    ((mapBucket buckets b f b').map g).Nodup := by
  unfold mapBucket
  by_cases same : b' = b
  · subst same
    rw [Function.update_self, List.map_map]
    have unchanged : g ∘ f = g := funext keeps
    rw [unchanged]
    exact nodup b'
  · rw [Function.update_of_ne same]
    exact nodup b'

omit [DecidableEq κ] in
theorem Chained.mapBucket {buckets : Nat → List ι} (chained : Chained key slot buckets) (b : Nat)
    {f : ι → ι} (keeps : ∀ item, key (f item) = key item) :
    Chained key slot (mapBucket buckets b f) where
  placed b' other stored := by
    rw [mem_mapBucket] at stored
    split at stored
    · obtain ⟨item, mem, rfl⟩ := stored
      rw [keeps]
      exact chained.placed b' item mem
    · exact chained.placed b' other stored
  distinct := nodup_map_mapBucket key keeps chained.distinct b

end DispatchRouter.Math.Chaining
