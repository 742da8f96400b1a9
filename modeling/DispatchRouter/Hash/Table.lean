/-
# The hash table

`hash.c`: separate chaining over `1 << bucket_exponent` buckets, each a list of
items. Keys are C strings: an iterator key is copied with `qd_iterator_copy`
and a string key with `strdup`, and keys are compared with `qd_iterator_equal`
or `strcmp`. An iterator is modelled by the octets of its view. An item may
have one handle; removing the item clears the handle's pointer to it, so the
handle can later be asked whether its item is still there. Allocation is
assumed to succeed, so `QD_ERROR_ALLOC` never arises; an item's `id` and a
handle's number name the allocation. Numbers are never reused: the pool may give
a freed handle's memory to a later one, which only a use of the freed handle,
a use after free, could tell apart.
-/

import Mathlib.Data.List.TakeWhile
import DispatchRouter.Amqp.Value
import DispatchRouter.Math.Chaining

namespace DispatchRouter.Hash

open Amqp (CString)
open Math (Chaining.removeIf Chaining.mapBucket)

/-! ### Hashing -/

/-- `HASH_INIT`. -/
def hashInit : UInt32 := 5381

/-- `HASH_COMPUTE`: `hash * 33 + octet`, in 32 bits. -/
def hashCompute (hash : UInt32) (octet : UInt8) : UInt32 :=
  (hash <<< 5) + hash + octet.toUInt32

/-- The hash of a string of octets, one octet after another. -/
def hashOctets (octets : List UInt8) : UInt32 :=
  octets.foldl hashCompute hashInit

-- `empty` is read only by the termination proof
set_option linter.unusedVariables false in
/-- The loop of `qd_iterator_hash_view`: the view is copied out 64 octets at a
time and each copy folded into the hash. -/
def hashViewChunks (hash : UInt32) (view : List UInt8) : UInt32 :=
  if empty : view = [] then hash
  else hashViewChunks ((view.take 64).foldl hashCompute hash) (view.drop 64)
termination_by view.length
decreasing_by
  have nonempty : 0 < view.length := List.length_pos_iff.mpr empty
  rw [List.length_drop]
  omega

/-- `qd_iterator_hash_view`. -/
def qdIteratorHashView (view : List UInt8) : UInt32 :=
  hashViewChunks hashInit view

/-! ### Keys -/

theorem zero_not_mem_takeWhile (view : List UInt8) : 0 ∉ view.takeWhile (· ≠ 0) := by
  intro mem
  simpa using List.mem_takeWhile_imp mem

/-- `qd_iterator_copy`: the view as a C string, which ends at its first zero octet. -/
def qdIteratorCopy (view : List UInt8) : CString :=
  ⟨view.takeWhile (· ≠ 0), zero_not_mem_takeWhile view⟩

/-- `qd_iterator_equal`: whether the view holds exactly the octets of the C string. -/
def qdIteratorEqual (view : List UInt8) (string : CString) : Bool :=
  view == string.octets

/-! ### The table -/

/-- `qd_hash_item_t`: the key, the value and the handle that points to the item. -/
structure Item (α : Type) where
  id : Nat
  key : CString
  value : α
  handle : Option Nat

/-- The octets of an item's key. -/
def Item.keyOctets {α : Type} (item : Item α) : List UInt8 :=
  item.key.octets

/-- `qd_hash_handle_t`: the bucket of its item, and the item, cleared when the
item is removed. -/
structure Handle where
  bucket : Nat
  item : Option Nat
  deriving DecidableEq, Repr

/-- `qd_hash_t`. `handles` holds the handles not yet freed; `nextItem` and
`nextHandle` give the addresses of the next item and handle allocated. -/
structure HashTable (α : Type) where
  bucketExponent : Nat
  exponent_lt : bucketExponent < 32
  buckets : Nat → List (Item α)
  size : Nat
  handles : Nat → Option Handle
  nextItem : Nat
  nextHandle : Nat

variable {α : Type}

/-- `bucket_mask`: one less than `bucket_count = 1 << bucket_exponent`. -/
def HashTable.bucketMask (table : HashTable α) : UInt32 :=
  (1 <<< table.bucketExponent.toUInt32) - 1

/-- The bucket a hash selects. -/
def HashTable.bucketOf (table : HashTable α) (hash : UInt32) : Nat :=
  (hash &&& table.bucketMask).toNat

/-- `qd_hash`: empty buckets. The batch size and whether values are constant
change nothing modelled here. -/
def qdHash (bucketExponent : Nat) (exponent_lt : bucketExponent < 32) : HashTable α :=
  ⟨bucketExponent, exponent_lt, fun _ => [], 0, fun _ => none, 0, 0⟩

/-- `qd_hash_get_bucket_iter`. -/
def qdHashGetBucketIter (table : HashTable α) (key : List UInt8) : Nat :=
  table.bucketOf (qdIteratorHashView key)

/-- `qd_hash_get_bucket_str`: the hash of the octets before the terminating zero. -/
def qdHashGetBucketStr (table : HashTable α) (key : CString) : Nat :=
  table.bucketOf (hashOctets key.octets)

/-- `qd_error_t`, as far as the hash table and the parse tree return it. -/
inductive QdError
  | none
  | notFound
  | alreadyExists
  | alloc
  | value
  deriving DecidableEq, Repr

/-- What `qd_hash_internal_insert` leaves: the table, whether the key was there
already, and the new item's handle when one was asked for. -/
structure Inserted (α : Type) where
  table : HashTable α
  existed : Bool
  handle : Option Nat

/-- `qd_hash_internal_insert`: an item with `key` already in `bucket` stays as it
is; otherwise a new item goes at the end of the bucket, with a handle if one is
asked for. The caller's value is stored in the new item, as the callers do
after this returns. -/
def qdHashInternalInsert (table : HashTable α) (bucket : Nat) (key : CString) (value : α)
    (wantHandle : Bool) : Inserted α :=
  match (table.buckets bucket).find? (fun item => item.key == key) with
  | some _ => ⟨table, true, none⟩
  | none =>
      let item : Item α :=
        ⟨table.nextItem, key, value, if wantHandle then some table.nextHandle else none⟩
      let added : HashTable α :=
        { table with
          buckets := Function.update table.buckets bucket (table.buckets bucket ++ [item])
          size := table.size + 1
          nextItem := table.nextItem + 1 }
      if wantHandle then
        ⟨{ added with
            handles := Function.update table.handles table.nextHandle (some ⟨bucket, some item.id⟩)
            nextHandle := table.nextHandle + 1 }, false, some table.nextHandle⟩
      else ⟨added, false, none⟩

/-- The error a public insert returns for what `qd_hash_internal_insert` did. -/
def insertError (inserted : Inserted α) : QdError :=
  if inserted.existed then .alreadyExists else .none

/-- `qd_hash_insert` (and `qd_hash_insert_const`): the key is the iterator's view. -/
def qdHashInsert (table : HashTable α) (key : List UInt8) (value : α) (wantHandle : Bool) :
    (QdError × Option Nat) × HashTable α :=
  let inserted :=
    qdHashInternalInsert table (qdHashGetBucketIter table key) (qdIteratorCopy key) value wantHandle
  ((insertError inserted, inserted.handle), inserted.table)

/-- `qd_hash_insert_str`. -/
def qdHashInsertStr (table : HashTable α) (key : CString) (value : α) (wantHandle : Bool) :
    (QdError × Option Nat) × HashTable α :=
  let inserted := qdHashInternalInsert table (qdHashGetBucketStr table key) key value wantHandle
  ((insertError inserted, inserted.handle), inserted.table)

/-- `qd_hash_internal_retrieve_with_hash`. -/
def qdHashInternalRetrieveWithHash (table : HashTable α) (hash : UInt32) (key : List UInt8) :
    Option (Item α) :=
  (table.buckets (table.bucketOf hash)).find? (fun item => qdIteratorEqual key item.key)

/-- `qd_hash_retrieve` (and `qd_hash_retrieve_const`): the value, or nothing. -/
def qdHashRetrieve (table : HashTable α) (key : List UInt8) : Option α :=
  (qdHashInternalRetrieveWithHash table (qdIteratorHashView key) key).map (·.value)

/-- `qd_hash_internal_get_item_str`. -/
def qdHashInternalGetItemStr (table : HashTable α) (bucket : Nat) (key : CString) :
    Option (Item α) :=
  (table.buckets bucket).find? (fun item => item.key == key)

/-- `qd_hash_retrieve_str`. -/
def qdHashRetrieveStr (table : HashTable α) (key : CString) : Option α :=
  (qdHashInternalGetItemStr table (qdHashGetBucketStr table key) key).map (·.value)

/-- `qd_hash_internal_remove_item`: the item taken out of its bucket, its handle's
pointer to it cleared, and the size one less. -/
def qdHashInternalRemoveItem (table : HashTable α) (bucket : Nat) (item : Item α) : HashTable α :=
  { table with
    buckets := Chaining.removeIf table.buckets bucket (fun other => other.id == item.id)
    handles :=
      match item.handle with
      | some handle =>
          Function.update table.handles handle
            ((table.handles handle).map fun record => { record with item := none })
      | none => table.handles
    size := table.size - 1 }

/-- `qd_hash_remove`. The masked hash is passed as the hash, and masked again. -/
def qdHashRemove (table : HashTable α) (key : List UInt8) : QdError × HashTable α :=
  let idx := qdIteratorHashView key &&& table.bucketMask
  match qdHashInternalRetrieveWithHash table idx key with
  | none => (.notFound, table)
  | some item => (.none, qdHashInternalRemoveItem table idx.toNat item)

/-- `qd_hash_remove_str`. -/
def qdHashRemoveStr (table : HashTable α) (key : CString) : QdError × HashTable α :=
  let bucket := qdHashGetBucketStr table key
  match qdHashInternalGetItemStr table bucket key with
  | none => (.notFound, table)
  | some item => (.none, qdHashInternalRemoveItem table bucket item)

/-- The item a handle points to: `handle->item`, a freed or null handle pointing nowhere. -/
def HashTable.handleItem (table : HashTable α) (handle : Option Nat) : Option (Nat × Item α) :=
  match handle.bind table.handles with
  | some ⟨bucket, some id⟩ => ((table.buckets bucket).find? (·.id == id)).map (bucket, ·)
  | _ => none

/-- `qd_hash_remove_by_handle2`: the error, the removed item's key, the table. -/
def qdHashRemoveByHandle2 (table : HashTable α) (handle : Option Nat) :
    (QdError × Option (List UInt8)) × HashTable α :=
  match table.handleItem handle with
  | none => ((.notFound, none), table)
  | some (bucket, item) => ((.none, some item.keyOctets), qdHashInternalRemoveItem table bucket item)

/-- `qd_hash_remove_by_handle`: the same, except that a null handle is no error. -/
def qdHashRemoveByHandle (table : HashTable α) (handle : Option Nat) : QdError × HashTable α :=
  match handle with
  | none => (.none, table)
  | some _ =>
      let removed := qdHashRemoveByHandle2 table handle
      (removed.1.1, removed.2)

/-- `qd_hash_key_by_handle`. -/
def qdHashKeyByHandle (table : HashTable α) (handle : Option Nat) : Option (List UInt8) :=
  (table.handleItem handle).map fun found => found.2.keyOctets

/-- `handle->item->handle = 0`: the item at address `id` forgets its handle. -/
def Item.dropHandleOf (id : Nat) (other : Item α) : Item α :=
  if other.id == id then { other with handle := none } else other

/-- `qd_hash_handle_free`: the item forgets its handle, and the handle is freed.
The code gives the handle's memory back to its pool, where it keeps its stale
`item` until the next handle allocated takes it; the model drops the handle, as
a caller that uses no freed handle sees it (`FreedUnused`). -/
def qdHashHandleFree (table : HashTable α) (handle : Option Nat) : HashTable α :=
  match handle with
  | none => table
  | some number =>
      let forgotten :=
        match table.handleItem handle with
        | some (bucket, item) =>
            { table with
              buckets := Chaining.mapBucket table.buckets bucket (Item.dropHandleOf item.id) }
        | none => table
      { forgotten with handles := Function.update table.handles number none }

/-- `qd_hash_size`. -/
def qdHashSize (table : HashTable α) : Nat :=
  table.size

end DispatchRouter.Hash
