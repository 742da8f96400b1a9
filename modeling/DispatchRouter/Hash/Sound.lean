/-
# What the table's operations keep

The lookups of `hash.c` hash the key one of two ways and compare it one of two
ways: `qd_iterator_hash_view` and `qd_iterator_equal` for iterator keys, the
loop of `qd_hash_get_bucket_str` and `strcmp` for C strings. Both are one
lookup, `HashTable.find`, of the key's octets in the bucket their hash selects.

`Sound` is what every table built from `qd_hash` keeps: its items sit in that
bucket, no bucket holds a key or an item twice, and a handle points at an item
exactly when the item points back at it. For each operation this module says
what it does to `find`, to the size and to the key each handle names, from a
sound table and to a sound one.
-/

import DispatchRouter.Hash.Table

namespace DispatchRouter.Hash

open Amqp (CString)
open Math

variable {α : Type}

/-! ### Hashing and keys -/

theorem hashViewChunks_eq_foldl (hash : UInt32) (view : List UInt8) :
    hashViewChunks hash view = view.foldl hashCompute hash := by
  induction hash, view using hashViewChunks.induct with
  | case1 hash => rw [hashViewChunks, dif_pos rfl, List.foldl_nil]
  | case2 hash view nonempty ih =>
      rw [hashViewChunks, dif_neg nonempty, ih, ← List.foldl_append, List.take_append_drop]

/-- Hashing a view 64 octets at a time is hashing it in one pass, as
`qd_hash_get_bucket_str` hashes a C string. -/
@[simp]
theorem qdIteratorHashView_eq (view : List UInt8) : qdIteratorHashView view = hashOctets view :=
  hashViewChunks_eq_foldl hashInit view

/-- Masking twice selects the bucket masking once does: `qd_hash_remove` relies on it. -/
theorem bucketOf_mask (table : HashTable α) (hash : UInt32) :
    table.bucketOf (hash &&& table.bucketMask) = table.bucketOf hash := by
  unfold HashTable.bucketOf
  rw [UInt32.and_assoc, UInt32.and_self]

theorem cstring_eq_iff {a b : CString} : a = b ↔ a.octets = b.octets := by
  cases a
  cases b
  simp

/-- A view with no zero octet is copied whole. -/
theorem qdIteratorCopy_octets {view : List UInt8} (noNul : 0 ∉ view) :
    (qdIteratorCopy view).octets = view := by
  simp only [qdIteratorCopy]
  apply List.takeWhile_eq_self_iff.mpr
  intro octet mem
  have nonzero : octet ≠ 0 := fun zero => noNul (zero ▸ mem)
  simpa using nonzero

/-! ### One lookup -/

/-- The bucket the octets of a key select. -/
def HashTable.slot (table : HashTable α) (key : List UInt8) : Nat :=
  table.bucketOf (hashOctets key)

/-- The item stored under the octets of a key, searched for in their bucket. -/
def HashTable.find (table : HashTable α) (key : List UInt8) : Option (Item α) :=
  Chaining.lookup Item.keyOctets table.slot table.buckets key

theorem qdHashGetBucketIter_eq (table : HashTable α) (view : List UInt8) :
    qdHashGetBucketIter table view = table.slot view := by
  rw [qdHashGetBucketIter, qdIteratorHashView_eq]
  rfl

theorem qdHashGetBucketStr_eq (table : HashTable α) (key : CString) :
    qdHashGetBucketStr table key = table.slot key.octets := rfl

theorem qdIteratorEqual_eq (view : List UInt8) (item : Item α) :
    qdIteratorEqual view item.key = decide (item.keyOctets = view) := by
  rw [qdIteratorEqual, Item.keyOctets, Bool.eq_iff_iff, beq_iff_eq, decide_eq_true_eq, eq_comm]

/-- `strcmp` of two C strings compares their octets. -/
theorem key_beq_eq (key : CString) (item : Item α) :
    (item.key == key) = decide (item.keyOctets = key.octets) := by
  rw [Item.keyOctets, Bool.eq_iff_iff, beq_iff_eq, decide_eq_true_eq, cstring_eq_iff]

theorem qdHashInternalRetrieveWithHash_eq (table : HashTable α) (view : List UInt8) :
    qdHashInternalRetrieveWithHash table (qdIteratorHashView view) view = table.find view := by
  simp only [qdHashInternalRetrieveWithHash, qdIteratorHashView_eq, qdIteratorEqual_eq]
  rfl

theorem qdHashInternalGetItemStr_eq (table : HashTable α) (key : CString) :
    qdHashInternalGetItemStr table (table.slot key.octets) key = table.find key.octets := by
  simp only [qdHashInternalGetItemStr, key_beq_eq]
  rfl

@[simp]
theorem qdHashRetrieve_eq (table : HashTable α) (view : List UInt8) :
    qdHashRetrieve table view = (table.find view).map (·.value) := by
  rw [qdHashRetrieve, qdHashInternalRetrieveWithHash_eq]

@[simp]
theorem qdHashRetrieveStr_eq (table : HashTable α) (key : CString) :
    qdHashRetrieveStr table key = (table.find key.octets).map (·.value) := by
  rw [qdHashRetrieveStr, qdHashGetBucketStr_eq, qdHashInternalGetItemStr_eq]

/-! ### The invariant -/

/-- A table `hash.c` can build: items sit in the bucket their key's octets
select, no bucket holds a key or an item twice, items and handles are older than
the next ones allocated, and a handle points at an item exactly when the item
points back at it. -/
structure Sound (table : HashTable α) : Prop where
  chained : Chaining.Chained Item.keyOctets table.slot table.buckets
  ids : ∀ b, ((table.buckets b).map (·.id)).Nodup
  older : ∀ b, ∀ item ∈ table.buckets b, item.id < table.nextItem
  handleToItem : ∀ handle b id, table.handles handle = some ⟨b, some id⟩ →
    ∃ item ∈ table.buckets b, item.id = id ∧ item.handle = some handle
  itemToHandle : ∀ b, ∀ item ∈ table.buckets b, ∀ handle, item.handle = some handle →
    table.handles handle = some ⟨b, some item.id⟩
  handlesOlder : ∀ handle, table.handles handle ≠ none → handle < table.nextHandle

theorem sound_qdHash (bucketExponent : Nat) (exponent_lt : bucketExponent < 32) :
    Sound (qdHash bucketExponent exponent_lt : HashTable α) where
  chained := ⟨fun _ _ empty => (nomatch empty), fun _ => List.nodup_nil⟩
  ids _ := List.nodup_nil
  older _ _ empty := nomatch empty
  handleToItem _ _ _ none := nomatch none
  itemToHandle _ _ empty := nomatch empty
  handlesOlder _ none := absurd rfl none

namespace Sound

variable {table : HashTable α}

theorem same_item (sound : Sound table) {b : Nat} {x y : Item α} (hx : x ∈ table.buckets b)
    (hy : y ∈ table.buckets b) (same : x.id = y.id) : x = y :=
  List.inj_on_of_nodup_map (sound.ids b) hx hy same

/-- Searching a bucket by address finds the item at that address. -/
theorem find_id (sound : Sound table) {b : Nat} {x : Item α} (hx : x ∈ table.buckets b) :
    (table.buckets b).find? (·.id == x.id) = some x := by
  cases found : (table.buckets b).find? (·.id == x.id) with
  | none => exact absurd (beq_self_eq_true x.id) (List.find?_eq_none.mp found x hx)
  | some y =>
      have same : y.id = x.id := by simpa using List.find?_some found
      rw [sound.same_item (List.mem_of_find?_eq_some found) hx same]

/-- No two items of a sound table point at one handle. -/
theorem same_owner (sound : Sound table) {b b' : Nat} {x y : Item α} {handle : Nat}
    (hx : x ∈ table.buckets b) (hy : y ∈ table.buckets b') (ownsX : x.handle = some handle)
    (ownsY : y.handle = some handle) : b = b' ∧ x = y := by
  have pointsX := sound.itemToHandle b x hx handle ownsX
  rw [sound.itemToHandle b' y hy handle ownsY] at pointsX
  simp only [Option.some.injEq, Handle.mk.injEq] at pointsX
  obtain ⟨rfl, id⟩ := pointsX
  exact ⟨rfl, sound.same_item hx hy id.symm⟩

/-- A handle finds the item that points back at it. -/
theorem handleItem_of_owner (sound : Sound table) {b handle : Nat} {x : Item α}
    (hx : x ∈ table.buckets b) (owns : x.handle = some handle) :
    table.handleItem (some handle) = some (b, x) := by
  unfold HashTable.handleItem
  rw [Option.bind_some, sound.itemToHandle b x hx handle owns]
  simp [sound.find_id hx]

theorem owner_of_handleItem (sound : Sound table) {b handle : Nat} {x : Item α}
    (found : table.handleItem (some handle) = some (b, x)) :
    x ∈ table.buckets b ∧ x.handle = some handle := by
  unfold HashTable.handleItem at found
  rw [Option.bind_some] at found
  split at found
  · rename_i bucket id points
    obtain ⟨y, hy, yid, owns⟩ := sound.handleToItem handle bucket id points
    simp only [Option.map_eq_some_iff, Prod.mk.injEq] at found
    obtain ⟨z, search, rfl, rfl⟩ := found
    have hz := List.mem_of_find?_eq_some search
    have zid : z.id = id := by simpa using List.find?_some search
    rw [sound.same_item hz hy (zid.trans yid.symm)]
    exact ⟨hy, owns⟩
  · cases found

theorem handleItem_of_unowned (sound : Sound table) {handle : Nat}
    (unowned : ∀ b, ∀ x ∈ table.buckets b, x.handle ≠ some handle) :
    table.handleItem (some handle) = none := by
  cases found : table.handleItem (some handle) with
  | none => rfl
  | some pair =>
      obtain ⟨mem, owns⟩ := sound.owner_of_handleItem found
      exact absurd owns (unowned _ _ mem)

/-- Two sound tables in which the same items point at a handle find the same
item for it. -/
theorem handleItem_congr {table' : HashTable α} (sound : Sound table) (sound' : Sound table')
    {handle : Nat}
    (owners : ∀ b x, x ∈ table'.buckets b ∧ x.handle = some handle ↔
      x ∈ table.buckets b ∧ x.handle = some handle) :
    table'.handleItem (some handle) = table.handleItem (some handle) := by
  cases found : table.handleItem (some handle) with
  | none =>
      apply sound'.handleItem_of_unowned
      intro b x mem owns
      obtain ⟨old, _⟩ := (owners b x).mp ⟨mem, owns⟩
      rw [sound.handleItem_of_owner old owns] at found
      cases found
  | some pair =>
      obtain ⟨b, x⟩ := pair
      obtain ⟨mem, owns⟩ := sound.owner_of_handleItem found
      exact sound'.handleItem_of_owner ((owners b x).mpr ⟨mem, owns⟩).1 owns

/-- What a lookup finds sits in the bucket of its key. -/
theorem mem_of_find {k : List UInt8} {x : Item α} (found : table.find k = some x) :
    x ∈ table.buckets (table.slot k) ∧ x.keyOctets = k :=
  Chaining.lookup_eq_some found

/-- The key a handle names is that of the item found for it. -/
theorem keyByHandle_eq_some_iff (sound : Sound table) {handle : Nat} {k : List UInt8} :
    qdHashKeyByHandle table (some handle) = some k ↔
      ∃ x, table.find k = some x ∧ x.handle = some handle := by
  constructor
  · intro named
    obtain ⟨⟨b, x⟩, found, key⟩ := Option.map_eq_some_iff.mp named
    obtain ⟨mem, owns⟩ := sound.owner_of_handleItem found
    subst key
    exact ⟨x, sound.chained.lookup_of_mem mem, owns⟩
  · rintro ⟨x, found, owns⟩
    obtain ⟨mem, key⟩ := mem_of_find found
    rw [qdHashKeyByHandle, sound.handleItem_of_owner mem owns, Option.map_some, key]

end Sound

/-! ### Insertion -/

/-- The item `qd_hash_internal_insert` adds for a key not yet there. -/
def HashTable.newItem (table : HashTable α) (key : CString) (value : α) (wantHandle : Bool) :
    Item α :=
  ⟨table.nextItem, key, value, if wantHandle then some table.nextHandle else none⟩

variable {table : HashTable α}

theorem qdHashInternalInsert_found {key : CString} {item : Item α}
    (found : table.find key.octets = some item) (value : α) (wantHandle : Bool) :
    qdHashInternalInsert table (table.slot key.octets) key value wantHandle = ⟨table, true, none⟩ := by
  have search : (table.buckets (table.slot key.octets)).find? (fun item => item.key == key) =
      some item := by
    simp only [key_beq_eq]
    exact found
  rw [qdHashInternalInsert, search]

theorem qdHashInternalInsert_fresh {key : CString} (fresh : table.find key.octets = none) (value : α)
    (wantHandle : Bool) :
    qdHashInternalInsert table (table.slot key.octets) key value wantHandle =
      ⟨{ table with
          buckets := Chaining.append Item.keyOctets table.slot table.buckets
            (table.newItem key value wantHandle)
          size := table.size + 1
          nextItem := table.nextItem + 1
          handles := if wantHandle then
              Function.update table.handles table.nextHandle
                (some ⟨table.slot key.octets, some table.nextItem⟩)
            else table.handles
          nextHandle := if wantHandle then table.nextHandle + 1 else table.nextHandle },
        false, if wantHandle then some table.nextHandle else none⟩ := by
  have search : (table.buckets (table.slot key.octets)).find? (fun item => item.key == key) = none := by
    simp only [key_beq_eq]
    exact fresh
  rw [qdHashInternalInsert, search]
  cases wantHandle <;> rfl

section Fresh

variable {key : CString} {value : α} {wantHandle : Bool}

/-- After a fresh insert the buckets hold the old items and the new one, in the
bucket of its key. -/
theorem mem_insert (fresh : table.find key.octets = none) {b : Nat} {x : Item α} :
    x ∈ (qdHashInternalInsert table (table.slot key.octets) key value wantHandle).table.buckets b ↔
      x ∈ table.buckets b ∨ (b = table.slot key.octets ∧ x = table.newItem key value wantHandle) := by
  rw [qdHashInternalInsert_fresh fresh]
  exact Chaining.mem_append

theorem find_insert (fresh : table.find key.octets = none) (k : List UInt8) :
    (qdHashInternalInsert table (table.slot key.octets) key value wantHandle).table.find k =
      if k = key.octets then some (table.newItem key value wantHandle) else table.find k := by
  have absent : Chaining.lookup Item.keyOctets table.slot table.buckets
      (table.newItem key value wantHandle).keyOctets = none := fresh
  rw [qdHashInternalInsert_fresh fresh]
  exact Chaining.lookup_append absent k

theorem size_insert (fresh : table.find key.octets = none) :
    (qdHashInternalInsert table (table.slot key.octets) key value wantHandle).table.size =
      table.size + 1 := by
  rw [qdHashInternalInsert_fresh fresh]

theorem nextHandle_insert (fresh : table.find key.octets = none) :
    (qdHashInternalInsert table (table.slot key.octets) key value wantHandle).table.nextHandle =
      if wantHandle then table.nextHandle + 1 else table.nextHandle := by
  rw [qdHashInternalInsert_fresh fresh]

theorem Sound.insert (sound : Sound table) (fresh : table.find key.octets = none) :
    Sound (qdHashInternalInsert table (table.slot key.octets) key value wantHandle).table := by
  have newer : ∀ b, ∀ x ∈ table.buckets b, x.id ≠ table.nextItem :=
    fun b x mem => Nat.ne_of_lt (sound.older b x mem)
  rw [qdHashInternalInsert_fresh fresh]
  refine ⟨sound.chained.append fresh, Chaining.nodup_map_append _ sound.ids (newer _), ?older,
    ?handleToItem, ?itemToHandle, ?handlesOlder⟩
  case older =>
    intro b x mem
    rcases Chaining.mem_append.mp mem with old | ⟨_, rfl⟩
    · exact Nat.lt_succ_of_lt (sound.older b x old)
    · exact Nat.lt_succ_self _
  case handleToItem =>
    intro handle b id points
    -- a handle made by this insert points at the new item; any other at an old one
    have old : table.handles handle = some ⟨b, some id⟩ →
        ∃ x ∈ Chaining.append Item.keyOctets table.slot table.buckets
          (table.newItem key value wantHandle) b, x.id = id ∧ x.handle = some handle := by
      intro points
      obtain ⟨x, mem, xid, owns⟩ := sound.handleToItem handle b id points
      exact ⟨x, Chaining.mem_append.mpr (Or.inl mem), xid, owns⟩
    cases wantHandle with
    | false => exact old points
    | true =>
        by_cases made : handle = table.nextHandle
        · subst made
          simp only [if_true, Function.update_self, Option.some.injEq, Handle.mk.injEq] at points
          obtain ⟨rfl, rfl⟩ := points
          exact ⟨_, Chaining.mem_append.mpr (Or.inr ⟨rfl, rfl⟩), rfl, rfl⟩
        · simp only [if_true, Function.update_of_ne made] at points
          exact old points
  case itemToHandle =>
    intro b x mem handle owns
    rcases Chaining.mem_append.mp mem with old | ⟨home, rfl⟩
    · have points := sound.itemToHandle b x old handle owns
      -- the old handle is older than the one this insert may make
      have before : handle ≠ table.nextHandle :=
        Nat.ne_of_lt (sound.handlesOlder handle (by simp [points]))
      cases wantHandle with
      | false => exact points
      | true => simpa only [if_true, Function.update_of_ne before] using points
    · cases wantHandle with
      | false => cases owns
      | true =>
          simp only [HashTable.newItem, if_true, Option.some.injEq] at owns
          subst owns home
          simp only [if_true, Function.update_self]
          rfl
  case handlesOlder =>
    intro handle made
    cases wantHandle with
    | false => exact sound.handlesOlder handle made
    | true =>
        by_cases fresh : handle = table.nextHandle
        · simp only [fresh, if_true]
          exact Nat.lt_succ_self _
        · simp only [if_true, Function.update_of_ne fresh] at made ⊢
          exact Nat.lt_succ_of_lt (sound.handlesOlder handle made)

/-- A fresh insert names its key by the handle it makes, and every other handle
what it named. -/
theorem keyByHandle_insert (sound : Sound table) (fresh : table.find key.octets = none)
    (handle : Nat) :
    qdHashKeyByHandle (qdHashInternalInsert table (table.slot key.octets) key value wantHandle).table
        (some handle) =
      if wantHandle = true ∧ handle = table.nextHandle then some key.octets
      else qdHashKeyByHandle table (some handle) := by
  have sound' : Sound (qdHashInternalInsert table (table.slot key.octets) key value wantHandle).table :=
    sound.insert fresh
  by_cases made : wantHandle = true ∧ handle = table.nextHandle
  · obtain ⟨rfl, rfl⟩ := made
    have owns : (table.newItem key value true).handle = some table.nextHandle := rfl
    rw [if_pos ⟨rfl, rfl⟩, qdHashKeyByHandle,
      sound'.handleItem_of_owner ((mem_insert fresh).mpr (Or.inr ⟨rfl, rfl⟩)) owns]
    rfl
  · rw [if_neg made, qdHashKeyByHandle, qdHashKeyByHandle, sound.handleItem_congr sound']
    intro b x
    rw [mem_insert fresh]
    -- the new item points at no handle but the one made here
    have notNew : (table.newItem key value wantHandle).handle ≠ some handle := by
      cases wantHandle with
      | false => simp [HashTable.newItem]
      | true =>
          simp only [HashTable.newItem, if_true, ne_eq, Option.some.injEq]
          exact fun same => made ⟨rfl, same.symm⟩
    constructor
    · rintro ⟨old | ⟨_, rfl⟩, owns⟩
      · exact ⟨old, owns⟩
      · exact absurd owns notNew
    · rintro ⟨old, owns⟩
      exact ⟨Or.inl old, owns⟩

end Fresh

/-! ### Removal -/

section Removal

variable {bucket : Nat} {x : Item α}

theorem mem_removeItem {b : Nat} {y : Item α} :
    y ∈ (qdHashInternalRemoveItem table bucket x).buckets b ↔
      y ∈ table.buckets b ∧ (b = bucket → y.id ≠ x.id) := by
  simp only [qdHashInternalRemoveItem, Chaining.mem_removeIf, beq_eq_false_iff_ne, ne_eq]

/-- Removing an item clears the pointer of its handle, and of no other. -/
theorem handles_removeItem (handle : Nat) :
    (qdHashInternalRemoveItem table bucket x).handles handle =
      if x.handle = some handle then
        (table.handles handle).map fun record => { record with item := none }
      else table.handles handle := by
  unfold qdHashInternalRemoveItem
  cases owner : x.handle with
  | none => simp
  | some other =>
      by_cases same : other = handle
      · subst same
        simp
      · simp [Function.update_of_ne (Ne.symm same), same]

theorem Sound.removeItem (sound : Sound table) (hx : x ∈ table.buckets bucket) :
    Sound (qdHashInternalRemoveItem table bucket x) where
  chained := sound.chained.removeIf _ _
  ids b := (sound.ids b).sublist ((Chaining.removeIf_sublist _ _ _ b).map _)
  older b y mem := sound.older b y (mem_removeItem.mp mem).1
  handleToItem handle b id points := by
    rw [handles_removeItem] at points
    split_ifs at points with owned
    · simp at points
    · obtain ⟨y, mem, yid, owns⟩ := sound.handleToItem handle b id points
      refine ⟨y, mem_removeItem.mpr ⟨mem, ?_⟩, yid, owns⟩
      -- the item at the removed address is the removed one, whose handle is another
      rintro rfl same
      exact owned (sound.same_item mem hx same ▸ owns)
  itemToHandle b y mem handle owns := by
    obtain ⟨old, kept⟩ := mem_removeItem.mp mem
    have notRemoved : ¬x.handle = some handle := by
      intro ownsX
      obtain ⟨rfl, rfl⟩ := sound.same_owner hx old ownsX owns
      exact kept rfl rfl
    rw [handles_removeItem, if_neg notRemoved]
    exact sound.itemToHandle b y old handle owns
  handlesOlder handle made := by
    apply sound.handlesOlder handle
    rw [handles_removeItem] at made
    split_ifs at made
    · simpa using made
    · exact made

variable {k : List UInt8}

/-- Removing the item found for `k` removes `k` and no other key. -/
theorem find_removeItem (sound : Sound table) (found : table.find k = some x) (k' : List UInt8) :
    (qdHashInternalRemoveItem table (table.slot k) x).find k' =
      if k' = k then none else table.find k' := by
  obtain ⟨hx, key⟩ := Sound.mem_of_find found
  apply Chaining.lookup_removeIf
  intro y hy
  constructor
  · intro same
    rw [sound.same_item hy hx (by simpa using same)]
    exact key
  · intro sameKey
    -- one bucket holds `k` once
    have same : y = x :=
      List.inj_on_of_nodup_map (sound.chained.distinct _) hy hx (sameKey.trans key.symm)
    rw [same]
    exact beq_self_eq_true x.id

theorem size_removeItem : (qdHashInternalRemoveItem table bucket x).size = table.size - 1 := rfl

theorem nextHandle_removeItem :
    (qdHashInternalRemoveItem table bucket x).nextHandle = table.nextHandle := rfl

/-- After removing the item of `k`, a handle that named `k` names nothing, and
every other handle what it named. -/
theorem keyByHandle_removeItem (sound : Sound table) (found : table.find k = some x)
    (handle : Nat) :
    qdHashKeyByHandle (qdHashInternalRemoveItem table (table.slot k) x) (some handle) =
      if qdHashKeyByHandle table (some handle) = some k then none
      else qdHashKeyByHandle table (some handle) := by
  obtain ⟨hx, _⟩ := Sound.mem_of_find found
  have sound' := sound.removeItem hx
  by_cases named : qdHashKeyByHandle table (some handle) = some k
  · obtain ⟨y, foundY, owns⟩ := sound.keyByHandle_eq_some_iff.mp named
    rw [found, Option.some.injEq] at foundY
    subst foundY
    rw [if_pos named, qdHashKeyByHandle, sound'.handleItem_of_unowned]
    · rfl
    · -- the removed item was the only one pointing at the handle
      intro b z mem ownsZ
      obtain ⟨old, kept⟩ := mem_removeItem.mp mem
      obtain ⟨rfl, rfl⟩ := sound.same_owner hx old owns ownsZ
      exact kept rfl rfl
  · rw [if_neg named, qdHashKeyByHandle, qdHashKeyByHandle, sound.handleItem_congr sound']
    intro b z
    rw [mem_removeItem]
    constructor
    · rintro ⟨⟨old, _⟩, owns⟩
      exact ⟨old, owns⟩
    · rintro ⟨old, owns⟩
      refine ⟨⟨old, ?_⟩, owns⟩
      rintro rfl same
      rw [sound.same_item old hx same] at owns
      exact named (sound.keyByHandle_eq_some_iff.mpr ⟨x, found, owns⟩)

end Removal

theorem qdHashInternalRetrieveWithHash_mask (table : HashTable α) (hash : UInt32) (view : List UInt8) :
    qdHashInternalRetrieveWithHash table (hash &&& table.bucketMask) view =
      qdHashInternalRetrieveWithHash table hash view := by
  rw [qdHashInternalRetrieveWithHash, bucketOf_mask, qdHashInternalRetrieveWithHash]

/-- Remove the item found for a key's octets from its bucket: what both
`qd_hash_remove` and `qd_hash_remove_str` do. -/
def HashTable.removeKey (table : HashTable α) (k : List UInt8) : QdError × HashTable α :=
  match table.find k with
  | none => (.notFound, table)
  | some x => (.none, qdHashInternalRemoveItem table (table.slot k) x)

theorem qdHashRemove_eq (table : HashTable α) (view : List UInt8) :
    qdHashRemove table view = table.removeKey view := by
  rw [qdHashRemove, qdHashInternalRetrieveWithHash_mask, qdHashInternalRetrieveWithHash_eq]
  simp only [qdIteratorHashView_eq]
  rfl

theorem qdHashRemoveStr_eq (table : HashTable α) (key : CString) :
    qdHashRemoveStr table key = table.removeKey key.octets := by
  rw [qdHashRemoveStr, qdHashGetBucketStr_eq, qdHashInternalGetItemStr_eq]
  rfl

/-- `qd_hash_remove_by_handle2` removes the item the handle names, which is the
item found for its key. -/
theorem qdHashRemoveByHandle2_of_named (sound : Sound table) {handle : Nat} {k : List UInt8}
    (named : qdHashKeyByHandle table (some handle) = some k) :
    ∃ x, table.find k = some x ∧
      qdHashRemoveByHandle2 table (some handle) =
        ((.none, some k), qdHashInternalRemoveItem table (table.slot k) x) := by
  obtain ⟨⟨b, x⟩, found, key⟩ := Option.map_eq_some_iff.mp named
  obtain ⟨mem, _⟩ := sound.owner_of_handleItem found
  subst key
  have home : table.slot x.keyOctets = b := sound.chained.placed b x mem
  refine ⟨x, sound.chained.lookup_of_mem mem, ?_⟩
  rw [qdHashRemoveByHandle2, found, home]

theorem qdHashRemoveByHandle2_of_unnamed {handle : Nat}
    (unnamed : qdHashKeyByHandle table (some handle) = none) :
    qdHashRemoveByHandle2 table (some handle) = ((.notFound, none), table) := by
  rw [qdHashKeyByHandle, Option.map_eq_none_iff] at unnamed
  rw [qdHashRemoveByHandle2, unnamed]

/-! ### Freeing a handle -/

section Free

@[simp]
theorem dropHandleOf_keyOctets (id : Nat) (y : Item α) : (y.dropHandleOf id).keyOctets = y.keyOctets := by
  unfold Item.dropHandleOf
  split <;> rfl

@[simp]
theorem dropHandleOf_id (id : Nat) (y : Item α) : (y.dropHandleOf id).id = y.id := by
  unfold Item.dropHandleOf
  split <;> rfl

@[simp]
theorem dropHandleOf_value (id : Nat) (y : Item α) : (y.dropHandleOf id).value = y.value := by
  unfold Item.dropHandleOf
  split <;> rfl

theorem dropHandleOf_of_ne {id : Nat} {y : Item α} (other : y.id ≠ id) : y.dropHandleOf id = y := by
  simp [Item.dropHandleOf, other]

theorem handle_dropHandleOf_self (y : Item α) : (y.dropHandleOf y.id).handle = none := by
  simp [Item.dropHandleOf]

variable {number : Nat}

theorem handles_handleFree (number : Nat) :
    (qdHashHandleFree table (some number)).handles = Function.update table.handles number none := by
  simp only [qdHashHandleFree]

theorem qdHashHandleFree_of_none (unowned : table.handleItem (some number) = none) :
    qdHashHandleFree table (some number) =
      { table with handles := Function.update table.handles number none } := by
  simp only [qdHashHandleFree, unowned]

theorem qdHashHandleFree_of_some {b : Nat} {x : Item α}
    (found : table.handleItem (some number) = some (b, x)) :
    qdHashHandleFree table (some number) =
      { table with
        buckets := Chaining.mapBucket table.buckets b (Item.dropHandleOf x.id)
        handles := Function.update table.handles number none } := by
  simp only [qdHashHandleFree, found]

/-- Freeing a handle changes the buckets and the handles only. -/
theorem qdHashHandleFree_eq (number : Nat) :
    qdHashHandleFree table (some number) =
      { table with
        buckets := (qdHashHandleFree table (some number)).buckets
        handles := Function.update table.handles number none } := by
  cases found : table.handleItem (some number) with
  | none => rw [qdHashHandleFree_of_none found]
  | some pair =>
      obtain ⟨b, x⟩ := pair
      rw [qdHashHandleFree_of_some found]

theorem size_handleFree (number : Nat) : (qdHashHandleFree table (some number)).size = table.size := by
  rw [qdHashHandleFree_eq]

theorem nextHandle_handleFree (number : Nat) :
    (qdHashHandleFree table (some number)).nextHandle = table.nextHandle := by
  rw [qdHashHandleFree_eq]

/-- Freeing a handle leaves what every key holds. -/
theorem find_handleFree (handle : Option Nat) (k : List UInt8) :
    ((qdHashHandleFree table handle).find k).map (·.value) = (table.find k).map (·.value) := by
  cases handle with
  | none => rfl
  | some number =>
      cases found : table.handleItem (some number) with
      | none => rw [qdHashHandleFree_of_none found]; rfl
      | some pair =>
          obtain ⟨b, x⟩ := pair
          have moved : Chaining.lookup Item.keyOctets table.slot
              (Chaining.mapBucket table.buckets b (Item.dropHandleOf x.id)) k =
                if table.slot k = b then (table.find k).map (Item.dropHandleOf x.id)
                else table.find k :=
            Chaining.lookup_mapBucket (dropHandleOf_keyOctets x.id) b k
          rw [qdHashHandleFree_of_some found]
          change (Chaining.lookup _ table.slot _ k).map _ = _
          rw [moved]
          split
          · rw [Option.map_map]
            exact congrArg (Option.map · (table.find k)) (funext (dropHandleOf_value x.id))
          · rfl

/-- After freeing a handle, the items are where they were, with their keys and
addresses. -/
theorem Sound.items_handleFree (sound : Sound table) (number : Nat) :
    Chaining.Chained Item.keyOctets table.slot (qdHashHandleFree table (some number)).buckets ∧
      (∀ b, (((qdHashHandleFree table (some number)).buckets b).map (·.id)).Nodup) ∧
      ∀ b, ∀ y ∈ (qdHashHandleFree table (some number)).buckets b, y.id < table.nextItem := by
  cases found : table.handleItem (some number) with
  | none =>
      rw [qdHashHandleFree_of_none found]
      exact ⟨sound.chained, sound.ids, sound.older⟩
  | some pair =>
      obtain ⟨b, x⟩ := pair
      rw [qdHashHandleFree_of_some found]
      refine ⟨sound.chained.mapBucket b (dropHandleOf_keyOctets x.id),
        Chaining.nodup_map_mapBucket _ (dropHandleOf_id x.id) sound.ids b, ?_⟩
      intro b' y mem
      rw [Chaining.mem_mapBucket] at mem
      split at mem
      · obtain ⟨z, old, rfl⟩ := mem
        rw [dropHandleOf_id]
        exact sound.older b' z old
      · exact sound.older b' y mem

/-- After freeing a handle, the items pointing at a handle are those that did,
unless it is the freed one. -/
theorem Sound.owner_handleFree (sound : Sound table) (number : Nat) :
    ∀ b' (y : Item α) handle,
      y ∈ (qdHashHandleFree table (some number)).buckets b' ∧ y.handle = some handle ↔
        y ∈ table.buckets b' ∧ y.handle = some handle ∧ handle ≠ number := by
  intro b' y handle
  cases found : table.handleItem (some number) with
  | none =>
      rw [qdHashHandleFree_of_none found]
      constructor
      · rintro ⟨mem, owns⟩
        refine ⟨mem, owns, ?_⟩
        rintro rfl
        rw [sound.handleItem_of_owner mem owns] at found
        cases found
      · rintro ⟨mem, owns, _⟩
        exact ⟨mem, owns⟩
  | some pair =>
      obtain ⟨b, x⟩ := pair
      obtain ⟨hx, ownsX⟩ := sound.owner_of_handleItem found
      rw [qdHashHandleFree_of_some found]
      change y ∈ Chaining.mapBucket table.buckets b (Item.dropHandleOf x.id) b' ∧ _ ↔ _
      rw [Chaining.mem_mapBucket]
      by_cases home : b' = b
      · subst home
        rw [if_pos rfl]
        constructor
        · rintro ⟨⟨z, mem, rfl⟩, owns⟩
          by_cases same : z.id = x.id
          · -- the item that pointed at the freed handle now points at none
            rw [sound.same_item mem hx same, handle_dropHandleOf_self] at owns
            cases owns
          · rw [dropHandleOf_of_ne same] at owns ⊢
            refine ⟨mem, owns, ?_⟩
            rintro rfl
            exact same (congrArg Item.id (sound.same_owner mem hx owns ownsX).2)
        · rintro ⟨mem, owns, other⟩
          refine ⟨⟨y, mem, dropHandleOf_of_ne ?_⟩, owns⟩
          intro same
          rw [sound.same_item mem hx same, ownsX, Option.some.injEq] at owns
          exact other owns.symm
      · rw [if_neg home]
        constructor
        · rintro ⟨mem, owns⟩
          refine ⟨mem, owns, ?_⟩
          rintro rfl
          exact home (sound.same_owner mem hx owns ownsX).1
        · rintro ⟨mem, owns, _⟩
          exact ⟨mem, owns⟩

theorem Sound.handleFree (sound : Sound table) (handle : Option Nat) :
    Sound (qdHashHandleFree table handle) := by
  cases handle with
  | none => exact sound
  | some number =>
      obtain ⟨chained, ids, older⟩ := sound.items_handleFree number
      have owners := sound.owner_handleFree number
      rw [qdHashHandleFree_eq]
      refine ⟨chained, ids, older, ?handleToItem, ?itemToHandle, ?handlesOlder⟩
      case handleToItem =>
        intro handle b id points
        have other : handle ≠ number := by
          rintro rfl
          simp at points
        simp only [Function.update_of_ne other] at points
        obtain ⟨y, mem, yid, owns⟩ := sound.handleToItem handle b id points
        exact ⟨y, ((owners b y handle).mpr ⟨mem, owns, other⟩).1, yid, owns⟩
      case itemToHandle =>
        intro b y mem handle owns
        obtain ⟨old, _, other⟩ := (owners b y handle).mp ⟨mem, owns⟩
        simp only [Function.update_of_ne other]
        exact sound.itemToHandle b y old handle owns
      case handlesOlder =>
        intro handle made
        by_cases freed : handle = number
        · subst freed
          simp at made
        · simp only [Function.update_of_ne freed] at made
          exact sound.handlesOlder handle made

/-- A freed handle names nothing; every other handle what it named. -/
theorem keyByHandle_handleFree (sound : Sound table) (number handle : Nat) :
    qdHashKeyByHandle (qdHashHandleFree table (some number)) (some handle) =
      if handle = number then none else qdHashKeyByHandle table (some handle) := by
  by_cases freed : handle = number
  · subst freed
    rw [if_pos rfl, qdHashKeyByHandle, HashTable.handleItem, Option.bind_some, handles_handleFree,
      Function.update_self]
    rfl
  · rw [if_neg freed, qdHashKeyByHandle, qdHashKeyByHandle,
      sound.handleItem_congr (sound.handleFree (some number))]
    intro b y
    rw [sound.owner_handleFree number b y handle]
    exact ⟨fun ⟨mem, owns, _⟩ => ⟨mem, owns⟩, fun ⟨mem, owns⟩ => ⟨mem, owns, freed⟩⟩

end Free

end DispatchRouter.Hash
