/-
# Association lists as finite maps

A list of key-value pairs read as a finite map: a key's value is that of its
first entry. While no key occurs twice, adding an entry for a new key at the
end or filtering out the entries of one key changes the value of that key only,
and the number of entries is the number of keys.
-/

import Mathlib.Data.List.Nodup

namespace DispatchRouter.Math.AssocList

variable {κ α : Type} [DecidableEq κ]

/-- The value stored under `k`: that of the first entry with key `k`. -/
def lookup (entries : List (κ × α)) (k : κ) : Option α :=
  (entries.find? (fun entry => entry.1 = k)).map (·.2)

/-- The keys, in order. -/
def keys (entries : List (κ × α)) : List κ :=
  entries.map (·.1)

/-- The entries of every key but `k`. -/
def erase (entries : List (κ × α)) (k : κ) : List (κ × α) :=
  entries.filter (fun entry => entry.1 ≠ k)

theorem lookup_eq_none {entries : List (κ × α)} {k : κ} :
    lookup entries k = none ↔ k ∉ keys entries := by
  simp only [lookup, keys, Option.map_eq_none_iff, List.find?_eq_none, decide_eq_true_eq,
    List.mem_map, not_exists, not_and]

theorem lookup_append_of_none {entries : List (κ × α)} {k : κ}
    (absent : lookup entries k = none) (value : α) (k' : κ) :
    lookup (entries ++ [(k, value)]) k' = if k' = k then some value else lookup entries k' := by
  unfold lookup
  rw [List.find?_append]
  by_cases same : k' = k
  · subst same
    have none : entries.find? (fun entry => entry.1 = k') = none :=
      Option.map_eq_none_iff.mp absent
    simp [none]
  · cases found : entries.find? (fun entry => entry.1 = k') with
    | none => simp [Ne.symm same, same]
    | some entry => simp [same]

theorem lookup_erase (entries : List (κ × α)) (k k' : κ) :
    lookup (erase entries k) k' = if k' = k then none else lookup entries k' := by
  unfold lookup erase
  rw [List.find?_filter]
  by_cases same : k' = k
  · subst same
    rw [if_pos rfl, Option.map_eq_none_iff, List.find?_eq_none]
    intro entry _
    simp only [decide_eq_true_eq, not_and]
    exact fun differ equal => differ equal
  · rw [if_neg same]
    congr 2
    funext entry
    by_cases hit : entry.1 = k'
    · simp [hit, same]
    · simp [hit]

omit [DecidableEq κ] in
theorem keys_append (entries : List (κ × α)) (k : κ) (value : α) :
    keys (entries ++ [(k, value)]) = keys entries ++ [k] := by
  simp [keys]

theorem nodup_append {entries : List (κ × α)} {k : κ} (nodup : (keys entries).Nodup)
    (absent : lookup entries k = none) (value : α) :
    (keys (entries ++ [(k, value)])).Nodup := by
  rw [keys_append, List.nodup_append]
  refine ⟨nodup, List.nodup_singleton k, ?_⟩
  intro old stored new added
  rw [List.mem_singleton] at added
  subst added
  intro same
  subst same
  exact lookup_eq_none.mp absent stored

theorem mem_keys_erase {entries : List (κ × α)} {k k' : κ} :
    k' ∈ keys (erase entries k) ↔ k' ∈ keys entries ∧ k' ≠ k := by
  simp only [keys, erase, List.mem_map, List.mem_filter, decide_eq_true_eq]
  constructor
  · rintro ⟨entry, ⟨stored, differ⟩, rfl⟩
    exact ⟨⟨entry, stored, rfl⟩, differ⟩
  · rintro ⟨⟨entry, stored, rfl⟩, differ⟩
    exact ⟨entry, ⟨stored, differ⟩, rfl⟩

theorem nodup_erase {entries : List (κ × α)} (nodup : (keys entries).Nodup) (k : κ) :
    (keys (erase entries k)).Nodup :=
  nodup.sublist ((List.filter_sublist).map _)

theorem erase_cons_of_eq {entry : κ × α} {k : κ} (rest : List (κ × α)) (same : entry.1 = k) :
    erase (entry :: rest) k = erase rest k := by
  simp [erase, same]

theorem erase_cons_of_ne {entry : κ × α} {k : κ} (rest : List (κ × α)) (differ : entry.1 ≠ k) :
    erase (entry :: rest) k = entry :: erase rest k := by
  simp [erase, differ]

theorem erase_of_not_mem {entries : List (κ × α)} {k : κ} (absent : k ∉ keys entries) :
    erase entries k = entries := by
  unfold erase
  rw [List.filter_eq_self]
  intro entry stored
  have differ : entry.1 ≠ k := fun same => absent (same ▸ List.mem_map_of_mem stored)
  simpa using differ

theorem lookup_cons (entry : κ × α) (rest : List (κ × α)) (k : κ) :
    lookup (entry :: rest) k = if entry.1 = k then some entry.2 else lookup rest k := by
  unfold lookup
  by_cases same : entry.1 = k <;> simp [same]

/-- While no key occurs twice, a key's value is that of its entry. -/
theorem lookup_eq_some_iff {entries : List (κ × α)} (nodup : (keys entries).Nodup) {k : κ} {a : α} :
    lookup entries k = some a ↔ (k, a) ∈ entries := by
  induction entries with
  | nil => simp [lookup]
  | cons entry rest ih =>
      obtain ⟨absent, restNodup⟩ := List.nodup_cons.mp nodup
      rw [lookup_cons, List.mem_cons]
      by_cases same : entry.1 = k
      · -- the head is the entry of `k`, and no other entry has that key
        have notInRest : (k, a) ∉ rest := fun inRest => absent (by
          show entry.1 ∈ keys rest
          rw [same]
          exact List.mem_map_of_mem inRest)
        rw [if_pos same, Option.some.injEq]
        obtain ⟨key, value⟩ := entry
        simp only at same
        subst same
        simp [notInRest, eq_comm]
      · rw [if_neg same, ih restNodup]
        exact ⟨Or.inr, fun found => found.resolve_left fun isHead => same (by rw [← isHead])⟩

omit [DecidableEq κ] in
/-- Where a value names its key, distinct keys hold distinct values. -/
theorem nodup_values {entries : List (κ × α)} (nodup : (keys entries).Nodup)
    (named : ∀ entry ∈ entries, ∀ other ∈ entries, entry.2 = other.2 → entry.1 = other.1) :
    (entries.map (·.2)).Nodup :=
  List.Nodup.map_on (fun entry inEntries other inOther sameValue =>
    Prod.ext (named entry inEntries other inOther sameValue) sameValue) (List.Nodup.of_map _ nodup)

/-- Erasing a key that is there, once, takes out one entry. -/
theorem length_erase {entries : List (κ × α)} {k : κ} (nodup : (keys entries).Nodup)
    (present : k ∈ keys entries) : (erase entries k).length + 1 = entries.length := by
  induction entries with
  | nil => simp [keys] at present
  | cons entry rest ih =>
      have restNodup : (keys rest).Nodup := (List.nodup_cons.mp nodup).2
      by_cases head : entry.1 = k
      · -- the head is the entry of `k`, and no other entry has that key
        have absent : k ∉ keys rest := head ▸ (List.nodup_cons.mp nodup).1
        rw [erase_cons_of_eq rest head, erase_of_not_mem absent, List.length_cons]
      · have there : k ∈ keys rest := by
          rcases List.mem_cons.mp present with same | later
          · exact absurd same.symm head
          · exact later
        rw [erase_cons_of_ne rest head, List.length_cons, List.length_cons, ih restNodup there]

end DispatchRouter.Math.AssocList
