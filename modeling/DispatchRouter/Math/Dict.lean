/-
# Insertion-ordered dictionaries

A dictionary as Python keeps one: its entries in the order their keys were
first set, no key twice. Setting a key that is there changes its value in
place; setting a new key adds its entry at the end; popping a key takes its
entry out. Iteration goes through the entries in that order.
-/

import Mathlib.Data.List.Nodup

namespace DispatchRouter.Math

/-- Entries in insertion order; the keys are distinct. -/
structure Dict (κ ν : Type) where
  entries : List (κ × ν)
  distinct : (entries.map (·.1)).Nodup

namespace Dict

variable {κ ν : Type} [DecidableEq κ]

instance [DecidableEq ν] : DecidableEq (Dict κ ν) := fun a b =>
  decidable_of_iff (a.entries = b.entries) (by cases a; cases b; simp)

/-- `{}`. -/
def empty : Dict κ ν := ⟨[], List.nodup_nil⟩

/-- The keys, in order: `list(d)`. -/
def keys (d : Dict κ ν) : List κ :=
  d.entries.map (·.1)

/-- `d.get(k)`: the value of `k`, or nothing. -/
def get? (d : Dict κ ν) (k : κ) : Option ν :=
  (d.entries.find? (·.1 = k)).map (·.2)

/-- `k in d`. -/
def contains (d : Dict κ ν) (k : κ) : Bool :=
  decide (k ∈ d.keys)

/-- `len(d)`. -/
def size (d : Dict κ ν) : Nat :=
  d.entries.length

theorem keys_update (entries : List (κ × ν)) (k : κ) (v : ν) :
    (entries.map (fun entry => if entry.1 = k then (k, v) else entry)).map (·.1) =
      entries.map (·.1) := by
  rw [List.map_map]
  congr 1
  funext entry
  by_cases same : entry.1 = k <;> simp [same]

omit [DecidableEq κ] in
theorem nodup_append_new {entries : List (κ × ν)} {k : κ} (nodup : (entries.map (·.1)).Nodup)
    (fresh : k ∉ entries.map (·.1)) (v : ν) : ((entries ++ [(k, v)]).map (·.1)).Nodup := by
  rw [List.map_append, List.nodup_append]
  refine ⟨nodup, List.nodup_singleton _, ?_⟩
  intro a old b added same
  simp only [List.map_cons, List.map_nil, List.mem_singleton] at added
  subst added same
  exact fresh old

/-- `d[k] = v`: in place if `k` is there, at the end otherwise. -/
def set (d : Dict κ ν) (k : κ) (v : ν) : Dict κ ν :=
  if there : k ∈ d.keys then
    ⟨d.entries.map (fun entry => if entry.1 = k then (k, v) else entry), by
      rw [keys_update]
      exact d.distinct⟩
  else ⟨d.entries ++ [(k, v)], nodup_append_new d.distinct there v⟩

/-- `d.pop(k)`, the value dropped: the entry of `k` taken out. -/
def erase (d : Dict κ ν) (k : κ) : Dict κ ν :=
  ⟨d.entries.filter (fun entry => entry.1 ≠ k),
    d.distinct.sublist (List.filter_sublist.map _)⟩

/-- A dictionary of the given entries, the first entry of a key winning;
for writing dictionaries down. -/
def ofList (entries : List (κ × ν)) : Dict κ ν :=
  entries.foldl (fun d entry => if d.contains entry.1 then d else d.set entry.1 entry.2) empty

@[simp]
theorem get?_empty (k : κ) : (empty : Dict κ ν).get? k = none := rfl

theorem mem_keys_iff {d : Dict κ ν} {k : κ} : k ∈ d.keys ↔ d.get? k ≠ none := by
  simp [keys, get?, List.find?_eq_none]

theorem get?_set (d : Dict κ ν) (k : κ) (v : ν) (k' : κ) :
    (d.set k v).get? k' = if k' = k then some v else d.get? k' := by
  unfold set get?
  split
  · rw [List.find?_map]
    by_cases same : k' = k
    · subst same
      rename_i there
      obtain ⟨entry, stored, key⟩ := List.mem_map.mp there
      have found : ∃ e, d.entries.find? (·.1 = k') = some e := by
        cases hit : d.entries.find? (·.1 = k') with
        | some e => exact ⟨e, rfl⟩
        | none => exact absurd key (by simpa using List.find?_eq_none.mp hit entry stored)
      obtain ⟨e, hit⟩ := found
      have ek : e.1 = k' := by simpa using List.find?_some hit
      have compose : ((fun entry : κ × ν => decide (entry.1 = k')) ∘
          fun entry => if entry.1 = k' then (k', v) else entry) =
            fun entry => decide (entry.1 = k') := by
        funext entry
        by_cases same : entry.1 = k' <;> simp [same]
      rw [compose, hit]
      simp [ek]
    · have compose : ((fun entry : κ × ν => decide (entry.1 = k')) ∘
          fun entry => if entry.1 = k then (k, v) else entry) =
            fun entry => decide (entry.1 = k') := by
        funext entry
        by_cases hit : entry.1 = k
        · simp [hit, Ne.symm same]
        · simp [hit]
      rw [compose, if_neg same]
      cases hit : d.entries.find? (·.1 = k') with
      | none => rfl
      | some e =>
          have ek : e.1 = k' := by simpa using List.find?_some hit
          have other : e.1 ≠ k := fun eq => same (ek.symm.trans eq)
          simp [other]
  · rename_i absent
    rw [List.find?_append]
    by_cases same : k' = k
    · subst same
      have none : d.entries.find? (·.1 = k') = none := by
        rw [List.find?_eq_none]
        intro entry stored key
        exact absent (List.mem_map.mpr ⟨entry, stored, by simpa using key⟩)
      simp [none]
    · cases hit : d.entries.find? (·.1 = k') with
      | none => simp [Ne.symm same, same]
      | some e => simp [same]

theorem keys_set_of_mem {d : Dict κ ν} {k : κ} (there : k ∈ d.keys) (v : ν) :
    (d.set k v).keys = d.keys := by
  unfold set
  rw [dif_pos there]
  exact keys_update d.entries k v

theorem mem_entries_of_get? {d : Dict κ ν} {k : κ} {v : ν} (found : d.get? k = some v) :
    (k, v) ∈ d.entries := by
  obtain ⟨entry, hit, rfl⟩ := Option.map_eq_some_iff.mp found
  have key : entry.1 = k := by simpa using List.find?_some hit
  rw [← key]
  exact List.mem_of_find?_eq_some hit

theorem get?_erase (d : Dict κ ν) (k k' : κ) :
    (d.erase k).get? k' = if k' = k then none else d.get? k' := by
  unfold erase get?
  rw [List.find?_filter]
  by_cases same : k' = k
  · subst same
    rw [if_pos rfl, Option.map_eq_none_iff, List.find?_eq_none]
    intro entry _
    simp only [decide_eq_true_eq, not_and]
    exact fun differ equal => differ equal
  · rw [if_neg same]
    congr 2
    funext entry
    by_cases hit : entry.1 = k'
    · simp [hit, same]
    · simp [hit]

theorem keys_erase (d : Dict κ ν) (k : κ) : (d.erase k).keys = d.keys.filter (· ≠ k) := by
  simp [erase, keys, List.filter_map, Function.comp_def]

end Dict

end DispatchRouter.Math
