/-
# The table is a finite map

What `hash.c` is for: a finite map from octet strings to values, whose keys a
caller may also reach through a handle until the key is removed. A handle is
not used once it is freed: its memory is back in its pool. `KeyMap` is that map, over association lists; `hashStep` makes one call
of the public interface of `hash.c` on a table. `Refines` relates a table to the
map it holds, and every call keeps it and answers as the map does, so from
`qd_hash` every run of calls gets the map's answers.

The one condition is on iterator keys that are inserted: `qd_iterator_copy`
stores the view only up to its first zero octet, while the bucket is chosen by
the hash of the whole view. Such a key is stored under a shorter string, in a
bucket that may not be that string's, and is not found again.
-/

import DispatchRouter.Hash.Sound
import DispatchRouter.Math.AssocList
import DispatchRouter.Math.Mealy

namespace DispatchRouter.Hash

open Amqp (CString)
open Math

variable {α : Type}

/-! ### Calls -/

/-- A call of the public interface of `hash.c`. An iterator key is the octets of
its view; a handle is its number, or none for a null handle. -/
inductive HashOp (α : Type)
  | insert (key : List UInt8) (value : α) (wantHandle : Bool)
  | insertStr (key : CString) (value : α) (wantHandle : Bool)
  | retrieve (key : List UInt8)
  | retrieveStr (key : CString)
  | remove (key : List UInt8)
  | removeStr (key : CString)
  | removeByHandle (handle : Option Nat)
  | removeByHandle2 (handle : Option Nat)
  | keyByHandle (handle : Option Nat)
  | handleFree (handle : Option Nat)
  | size

/-- What a call returns. -/
inductive HashReply (α : Type)
  | inserted (error : QdError) (handle : Option Nat)
  | retrieved (value : Option α)
  | removed (error : QdError)
  | removedKey (error : QdError) (key : Option (List UInt8))
  | key (key : Option (List UInt8))
  | freed
  | size (count : Nat)
  deriving DecidableEq

/-- Whether `qd_iterator_copy` keeps the whole key of the call: no iterator key
that is inserted holds a zero octet. -/
def HashOp.copiesWhole : HashOp α → Bool
  | .insert key _ _ => decide (0 ∉ key)
  | _ => true

/-- The handle a call passes, if any. -/
def HashOp.handle? : HashOp α → Option Nat
  | .removeByHandle handle | .removeByHandle2 handle | .keyByHandle handle | .handleFree handle => handle
  | _ => none

/-- No call passes a handle after `qd_hash_handle_free` has freed it. The freed
handle's memory goes back to its pool (`alloc_pool.c`), where the next
allocation of a handle may take it, and it still points at its item, so a later
use of it is a use after free; the runs below leave that out. -/
def FreedUnused : List (HashOp α) → Prop
  | [] => True
  | op :: ops => (∀ number, op = .handleFree (some number) → ∀ later ∈ ops, later.handle? ≠ some number) ∧
      FreedUnused ops

/-- One call on the table. -/
def hashStep (table : HashTable α) : HashOp α → HashReply α × HashTable α
  | .insert key value wantHandle =>
      let inserted := qdHashInsert table key value wantHandle
      (.inserted inserted.1.1 inserted.1.2, inserted.2)
  | .insertStr key value wantHandle =>
      let inserted := qdHashInsertStr table key value wantHandle
      (.inserted inserted.1.1 inserted.1.2, inserted.2)
  | .retrieve key => (.retrieved (qdHashRetrieve table key), table)
  | .retrieveStr key => (.retrieved (qdHashRetrieveStr table key), table)
  | .remove key =>
      let removed := qdHashRemove table key
      (.removed removed.1, removed.2)
  | .removeStr key =>
      let removed := qdHashRemoveStr table key
      (.removed removed.1, removed.2)
  | .removeByHandle handle =>
      let removed := qdHashRemoveByHandle table handle
      (.removed removed.1, removed.2)
  | .removeByHandle2 handle =>
      let removed := qdHashRemoveByHandle2 table handle
      (.removedKey removed.1.1 removed.1.2, removed.2)
  | .keyByHandle handle => (.key (qdHashKeyByHandle table handle), table)
  | .handleFree handle => (.freed, qdHashHandleFree table handle)
  | .size => (.size (qdHashSize table), table)

/-! ### What the table is for -/

/-- A finite map from octet strings to values. A handle names the key it was
made for until that key is removed; handles are numbered in the order they are
made. -/
structure KeyMap (α : Type) where
  entries : List (List UInt8 × α)
  handleKey : Nat → Option (List UInt8)
  nextHandle : Nat

namespace KeyMap

/-- The empty map, with no handle made yet. -/
def empty : KeyMap α := ⟨[], fun _ => none, 0⟩

/-- Add a key that is not there, with a handle for it if one is asked for; a
key that is there keeps its value. -/
def insert (map : KeyMap α) (key : List UInt8) (value : α) (wantHandle : Bool) :
    (QdError × Option Nat) × KeyMap α :=
  match AssocList.lookup map.entries key with
  | some _ => ((.alreadyExists, none), map)
  | none =>
      if wantHandle then
        ((.none, some map.nextHandle),
          ⟨map.entries ++ [(key, value)], Function.update map.handleKey map.nextHandle (some key),
            map.nextHandle + 1⟩)
      else ((.none, none), { map with entries := map.entries ++ [(key, value)] })

/-- Take a key out, and out of every handle that names it. -/
def remove (map : KeyMap α) (key : List UInt8) : QdError × KeyMap α :=
  match AssocList.lookup map.entries key with
  | none => (.notFound, map)
  | some _ =>
      (.none,
        { map with
          entries := AssocList.erase map.entries key
          handleKey := fun handle => if map.handleKey handle = some key then none else map.handleKey handle })

/-- Take out the key a handle names, and say which it was. -/
def removeByHandle2 (map : KeyMap α) (handle : Option Nat) :
    (QdError × Option (List UInt8)) × KeyMap α :=
  match handle.bind map.handleKey with
  | none => ((.notFound, none), map)
  | some key => ((.none, some key), (map.remove key).2)

/-- The map forgets a freed handle; the runs over which it stands for the table
use no handle after freeing it (`FreedUnused`). -/
def handleFree (map : KeyMap α) (handle : Option Nat) : KeyMap α :=
  match handle with
  | none => map
  | some number => { map with handleKey := Function.update map.handleKey number none }

/-- One call on the map. -/
def step (map : KeyMap α) : HashOp α → HashReply α × KeyMap α
  | .insert key value wantHandle =>
      let inserted := map.insert key value wantHandle
      (.inserted inserted.1.1 inserted.1.2, inserted.2)
  | .insertStr key value wantHandle =>
      let inserted := map.insert key.octets value wantHandle
      (.inserted inserted.1.1 inserted.1.2, inserted.2)
  | .retrieve key => (.retrieved (AssocList.lookup map.entries key), map)
  | .retrieveStr key => (.retrieved (AssocList.lookup map.entries key.octets), map)
  | .remove key =>
      let removed := map.remove key
      (.removed removed.1, removed.2)
  | .removeStr key =>
      let removed := map.remove key.octets
      (.removed removed.1, removed.2)
  | .removeByHandle handle =>
      match handle with
      | none => (.removed .none, map)
      | some _ =>
          let removed := map.removeByHandle2 handle
          (.removed removed.1.1, removed.2)
  | .removeByHandle2 handle =>
      let removed := map.removeByHandle2 handle
      (.removedKey removed.1.1 removed.1.2, removed.2)
  | .keyByHandle handle => (.key (handle.bind map.handleKey), map)
  | .handleFree handle => (.freed, map.handleFree handle)
  | .size => (.size map.entries.length, map)

theorem insert_of_absent {map : KeyMap α} {key : List UInt8}
    (absent : AssocList.lookup map.entries key = none) (value : α) (wantHandle : Bool) :
    map.insert key value wantHandle =
      ((.none, if wantHandle then some map.nextHandle else none),
        ⟨map.entries ++ [(key, value)],
          if wantHandle then Function.update map.handleKey map.nextHandle (some key) else map.handleKey,
          if wantHandle then map.nextHandle + 1 else map.nextHandle⟩) := by
  rw [insert, absent]
  cases wantHandle <;> rfl

theorem remove_of_absent {map : KeyMap α} {key : List UInt8}
    (absent : AssocList.lookup map.entries key = none) : map.remove key = (.notFound, map) := by
  rw [remove, absent]

theorem remove_of_present {map : KeyMap α} {key : List UInt8} {value : α}
    (present : AssocList.lookup map.entries key = some value) :
    map.remove key =
      (.none,
        { map with
          entries := AssocList.erase map.entries key
          handleKey := fun handle =>
            if map.handleKey handle = some key then none else map.handleKey handle }) := by
  rw [remove, present]

end KeyMap

/-! ### Refinement -/

/-- The table holds the map: it is sound, finds under each key the map's value,
counts the map's keys, and its handles name the map's keys and are numbered as
the map's. -/
structure Refines (table : HashTable α) (map : KeyMap α) : Prop where
  sound : Sound table
  values : ∀ k, (table.find k).map (·.value) = AssocList.lookup map.entries k
  distinct : (AssocList.keys map.entries).Nodup
  size : table.size = map.entries.length
  handles : ∀ handle, qdHashKeyByHandle table (some handle) = map.handleKey handle
  nextHandle : table.nextHandle = map.nextHandle

theorem refines_empty (bucketExponent : Nat) (exponent_lt : bucketExponent < 32) :
    Refines (qdHash bucketExponent exponent_lt : HashTable α) KeyMap.empty where
  sound := sound_qdHash bucketExponent exponent_lt
  values _ := rfl
  distinct := List.nodup_nil
  size := rfl
  handles _ := rfl
  nextHandle := rfl

namespace Refines

variable {table : HashTable α} {map : KeyMap α}

theorem lookup_eq_none (refines : Refines table map) {k : List UInt8} :
    AssocList.lookup map.entries k = none ↔ table.find k = none := by
  rw [← refines.values, Option.map_eq_none_iff]

theorem keyByHandle (refines : Refines table map) (handle : Option Nat) :
    qdHashKeyByHandle table handle = handle.bind map.handleKey := by
  cases handle with
  | none => rfl
  | some number => exact refines.handles number

/-- Inserting a C string key into its own bucket gives the error and handle
the map gives, and a table that holds the map's result. -/
theorem insert (refines : Refines table map) (key : CString) (value : α) (wantHandle : Bool) :
    (insertError (qdHashInternalInsert table (table.slot key.octets) key value wantHandle),
        (qdHashInternalInsert table (table.slot key.octets) key value wantHandle).handle) =
      (map.insert key.octets value wantHandle).1 ∧
    Refines (qdHashInternalInsert table (table.slot key.octets) key value wantHandle).table
      (map.insert key.octets value wantHandle).2 := by
  cases found : table.find key.octets with
  | some item =>
      -- the key is there: the table and the map both stay as they are
      have present : AssocList.lookup map.entries key.octets = some item.value := by
        rw [← refines.values, found, Option.map_some]
      rw [qdHashInternalInsert_found found, KeyMap.insert, present]
      exact ⟨rfl, refines⟩
  | none =>
      have absent : AssocList.lookup map.entries key.octets = none :=
        refines.lookup_eq_none.mpr found
      rw [KeyMap.insert_of_absent absent]
      refine ⟨?answer, refines.sound.insert found, ?values,
        AssocList.nodup_append refines.distinct absent value, ?size, ?handles, ?nextHandle⟩
      case answer =>
        rw [qdHashInternalInsert_fresh found, refines.nextHandle]
        rfl
      case values =>
        intro k
        rw [find_insert found, AssocList.lookup_append_of_none absent]
        split_ifs
        · rfl
        · exact refines.values k
      case size =>
        rw [size_insert found, refines.size, List.length_append, List.length_singleton]
      case handles =>
        intro handle
        rw [keyByHandle_insert refines.sound found, refines.nextHandle, refines.handles]
        cases wantHandle with
        | false => simp
        | true =>
            by_cases made : handle = map.nextHandle
            · simp [made]
            · simp [made]
      case nextHandle =>
        rw [nextHandle_insert found, refines.nextHandle]

/-- `qd_hash_insert_str`: the map's answer, and a table that holds the map's
result. -/
theorem insertStr (refines : Refines table map) (key : CString) (value : α) (wantHandle : Bool) :
    (qdHashInsertStr table key value wantHandle).1 = (map.insert key.octets value wantHandle).1 ∧
      Refines (qdHashInsertStr table key value wantHandle).2 (map.insert key.octets value wantHandle).2 :=
  refines.insert key value wantHandle

/-- Removing the item found for a key gives the map's error, and a table that
holds the map's result. -/
theorem removeItem (refines : Refines table map) {k : List UInt8} {x : Item α}
    (found : table.find k = some x) :
    (map.remove k).1 = .none ∧
      Refines (qdHashInternalRemoveItem table (table.slot k) x) (map.remove k).2 := by
  have present : AssocList.lookup map.entries k = some x.value := by
    rw [← refines.values, found, Option.map_some]
  have stored : k ∈ AssocList.keys map.entries := by
    by_contra absent
    rw [AssocList.lookup_eq_none.mpr absent] at present
    cases present
  rw [KeyMap.remove_of_present present]
  refine ⟨rfl, refines.sound.removeItem (Sound.mem_of_find found).1, ?values,
    AssocList.nodup_erase refines.distinct k, ?size, ?handles, ?nextHandle⟩
  case values =>
    intro k'
    rw [find_removeItem refines.sound found, AssocList.lookup_erase]
    split_ifs
    · rfl
    · exact refines.values k'
  case size =>
    have shorter := AssocList.length_erase refines.distinct stored
    rw [size_removeItem, refines.size]
    dsimp only
    omega
  case handles =>
    intro handle
    rw [keyByHandle_removeItem refines.sound found, refines.handles]
  case nextHandle =>
    rw [nextHandle_removeItem]
    exact refines.nextHandle

/-- Removing a key the table does not find: nothing changes, as in the map. -/
theorem remove_of_absent (refines : Refines table map) {k : List UInt8} (absent : table.find k = none) :
    map.remove k = (.notFound, map) :=
  KeyMap.remove_of_absent (refines.lookup_eq_none.mpr absent)

theorem removeByHandle2 (refines : Refines table map) (handle : Option Nat) :
    (qdHashRemoveByHandle2 table handle).1 = (map.removeByHandle2 handle).1 ∧
      Refines (qdHashRemoveByHandle2 table handle).2 (map.removeByHandle2 handle).2 := by
  cases handle with
  | none => exact ⟨rfl, refines⟩
  | some number =>
      cases named : qdHashKeyByHandle table (some number) with
      | none =>
          have unnamed : map.handleKey number = none := by rw [← refines.handles, named]
          rw [qdHashRemoveByHandle2_of_unnamed named, KeyMap.removeByHandle2, Option.bind_some,
            unnamed]
          exact ⟨rfl, refines⟩
      | some k =>
          obtain ⟨x, found, removed⟩ := qdHashRemoveByHandle2_of_named refines.sound named
          have key : map.handleKey number = some k := by rw [← refines.handles, named]
          obtain ⟨_, refines'⟩ := refines.removeItem found
          rw [removed, KeyMap.removeByHandle2, Option.bind_some, key]
          exact ⟨rfl, refines'⟩

theorem handleFree (refines : Refines table map) (handle : Option Nat) :
    Refines (qdHashHandleFree table handle) (map.handleFree handle) := by
  cases handle with
  | none => exact refines
  | some number =>
      refine ⟨refines.sound.handleFree (some number), ?values, refines.distinct, ?size, ?handles,
        ?nextHandle⟩
      case values =>
        intro k
        rw [find_handleFree]
        exact refines.values k
      case size =>
        rw [size_handleFree]
        exact refines.size
      case handles =>
        intro other
        rw [keyByHandle_handleFree refines.sound, refines.handles]
        by_cases freed : other = number
        · simp [KeyMap.handleFree, freed]
        · simp [KeyMap.handleFree, freed]
      case nextHandle =>
        rw [nextHandle_handleFree]
        exact refines.nextHandle

/-- Removing through `qd_hash_remove` or `qd_hash_remove_str`, after the lookup
of the key's octets. -/
theorem remove (refines : Refines table map) (k : List UInt8) :
    (table.removeKey k).1 = (map.remove k).1 ∧ Refines (table.removeKey k).2 (map.remove k).2 := by
  unfold HashTable.removeKey
  cases found : table.find k with
  | none =>
      rw [refines.remove_of_absent found]
      exact ⟨rfl, refines⟩
  | some x =>
      obtain ⟨error, refines'⟩ := refines.removeItem found
      exact ⟨error.symm, refines'⟩

/-- One call: the table answers as the map does and still holds the map's result. -/
theorem step (refines : Refines table map) (op : HashOp α) (whole : op.copiesWhole = true) :
    (hashStep table op).1 = (map.step op).1 ∧ Refines (hashStep table op).2 (map.step op).2 := by
  cases op with
  | insert view value wantHandle =>
      -- the copy of a view without a zero octet is the view
      have copied : (qdIteratorCopy view).octets = view :=
        qdIteratorCopy_octets (of_decide_eq_true whole)
      obtain ⟨answer, refines'⟩ := refines.insert (qdIteratorCopy view) value wantHandle
      rw [copied, ← qdHashGetBucketIter_eq] at answer refines'
      exact ⟨congrArg (fun (inserted : QdError × Option Nat) =>
        (HashReply.inserted inserted.1 inserted.2 : HashReply α)) answer, refines'⟩
  | insertStr key value wantHandle =>
      obtain ⟨answer, refines'⟩ := refines.insert key value wantHandle
      exact ⟨congrArg (fun (inserted : QdError × Option Nat) =>
        (HashReply.inserted inserted.1 inserted.2 : HashReply α)) answer, refines'⟩
  | retrieve view =>
      refine ⟨?_, refines⟩
      simp only [hashStep, KeyMap.step, qdHashRetrieve_eq, refines.values]
  | retrieveStr key =>
      refine ⟨?_, refines⟩
      simp only [hashStep, KeyMap.step, qdHashRetrieveStr_eq, refines.values]
  | remove view =>
      obtain ⟨error, refines'⟩ := refines.remove view
      rw [← qdHashRemove_eq] at error refines'
      exact ⟨congrArg (fun (error : QdError) => (HashReply.removed error : HashReply α)) error, refines'⟩
  | removeStr key =>
      obtain ⟨error, refines'⟩ := refines.remove key.octets
      rw [← qdHashRemoveStr_eq] at error refines'
      exact ⟨congrArg (fun (error : QdError) => (HashReply.removed error : HashReply α)) error, refines'⟩
  | removeByHandle handle =>
      cases handle with
      | none => exact ⟨rfl, refines⟩
      | some number =>
          obtain ⟨answer, refines'⟩ := refines.removeByHandle2 (some number)
          exact ⟨congrArg (fun (removed : QdError × Option (List UInt8)) =>
            (HashReply.removed removed.1 : HashReply α)) answer, refines'⟩
  | removeByHandle2 handle =>
      obtain ⟨answer, refines'⟩ := refines.removeByHandle2 handle
      exact ⟨congrArg (fun (removed : QdError × Option (List UInt8)) =>
        (HashReply.removedKey removed.1 removed.2 : HashReply α)) answer, refines'⟩
  | keyByHandle handle =>
      refine ⟨?_, refines⟩
      simp only [hashStep, KeyMap.step, refines.keyByHandle]
  | handleFree handle => exact ⟨rfl, refines.handleFree handle⟩
  | size =>
      refine ⟨?_, refines⟩
      simp only [hashStep, KeyMap.step, qdHashSize, refines.size]

end Refines

/-- `Refines` is a forward simulation of the map by the table, for calls whose
keys `qd_iterator_copy` keeps whole. -/
theorem refines_simulation :
    Mealy.Simulation (hashStep : HashTable α → HashOp α → HashReply α × HashTable α) KeyMap.step
      (fun op => op.copiesWhole = true) Refines where
  answer _ _ op refines whole := (refines.step op whole).1
  keep _ _ op refines whole := (refines.step op whole).2

/-! ### Runs -/

/-- From `qd_hash`, every run of calls whose inserted iterator keys hold no zero
octet and that uses no freed handle gets the answers of the finite map. At its
end every item sits in the bucket that both ways of hashing its key select, and
the size is the number of keys, none twice. The model numbers handles in the
order they are made and forgets a freed one; over such a run the code's reuse
of a freed handle's memory and its stale pointer are never seen. -/
theorem hash_table_finite_map (bucketExponent : Nat) (exponent_lt : bucketExponent < 32)
    (ops : List (HashOp α)) (whole : ∀ op ∈ ops, op.copiesWhole = true) (_freedUnused : FreedUnused ops) :
    (Mealy.run hashStep (qdHash bucketExponent exponent_lt) ops).1 =
        (Mealy.run KeyMap.step KeyMap.empty ops).1 ∧
      (∀ b, ∀ item ∈ (Mealy.run hashStep (qdHash bucketExponent exponent_lt) ops).2.buckets b,
        b = qdHashGetBucketStr (Mealy.run hashStep (qdHash bucketExponent exponent_lt) ops).2
            item.key ∧
          b = qdHashGetBucketIter (Mealy.run hashStep (qdHash bucketExponent exponent_lt) ops).2
            item.key.octets) ∧
      qdHashSize (Mealy.run hashStep (qdHash bucketExponent exponent_lt) ops).2 =
        (AssocList.keys (Mealy.run KeyMap.step KeyMap.empty ops).2.entries).length ∧
      (AssocList.keys (Mealy.run KeyMap.step KeyMap.empty ops).2.entries).Nodup := by
  obtain ⟨answers, refines⟩ :=
    refines_simulation.run (refines_empty bucketExponent exponent_lt) ops whole
  refine ⟨answers, ?placed, ?size, refines.distinct⟩
  case placed =>
    intro b item mem
    have home := refines.sound.chained.placed b item mem
    rw [qdHashGetBucketStr_eq, qdHashGetBucketIter_eq]
    exact ⟨home.symm, home.symm⟩
  case size =>
    rw [qdHashSize, refines.size, AssocList.keys, List.length_map]

/-- A handle whose key was removed removes nothing and names nothing; a key
inserted through an iterator is found through its C string. -/
theorem hash_table_finite_map_handles :
    (Mealy.run hashStep (qdHash 4 (by decide))
        [.insert [97] (1 : Nat) true, .insertStr ⟨[98], by decide⟩ 2 false,
          .retrieveStr ⟨[97], by decide⟩, .remove [97], .removeByHandle2 (some 0),
          .keyByHandle (some 0), .size]).1 =
      [.inserted .none (some 0), .inserted .none none, .retrieved (some 1), .removed .none,
        .removedKey .notFound none, .key none, .size 1] := by
  rw [(hash_table_finite_map 4 (by decide) _ (by decide) (by simp [FreedUnused])).1]
  decide

/-- An iterator key with a zero octet is stored cut short at it, and the table
no longer finds the key it was given, which the map does. -/
theorem hash_table_loses_nul_key :
    (Mealy.run hashStep (qdHash 4 (by decide)) [.insert [97, 0] (1 : Nat) false, .retrieve [97, 0]]).1 =
        [.inserted .none none, .retrieved none] ∧
      (Mealy.run KeyMap.step KeyMap.empty [.insert [97, 0] (1 : Nat) false, .retrieve [97, 0]]).1 =
        [.inserted .none none, .retrieved (some 1)] := by
  constructor
  · simp only [Mealy.run_cons, Mealy.run_nil, hashStep, qdHashInsert, qdHashGetBucketIter_eq,
      qdHashRetrieve_eq]
    decide
  · decide

end DispatchRouter.Hash
