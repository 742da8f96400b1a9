/-
# Longest-prefix lookup

`qd_hash_retrieve_prefix` looks an address up by the longest part of it that
the table holds. `qd_iterator_hash_view_segments` reads the view once and,
before each separator, records the hash of the octets read so far and their
number; the lookup then takes the records from the last, trims the view to each
and searches the bucket of its hash. `SEPARATORS` is `"./"`, searched with
`strrchr`, which also finds the zero that ends the string: a zero octet in the
view ends a part as `.` and `/` do.

The loop reads each octet into a `char`, signed where the router is built, and
`HASH_COMPUTE` widens it with its sign: an octet from 128 up adds 256 less than
`qd_iterator_hash_view` adds for it. Below 128 the two hashes agree, and the
lookup finds the longest held part (`qdHashRetrievePrefix_run`); a view that
ends in a higher octet is looked for in a bucket its key is never in.

As in the rest of the hash model an iterator is the octets of its view, and
`qd_iterator_trim_view` keeps the first octets of it.
-/

import DispatchRouter.Hash.Spec
import DispatchRouter.Math.Scan

namespace DispatchRouter.Hash

open Math

variable {α : Type}

/-! ### The model -/

/-- The octets `strrchr(SEPARATORS, octet)` finds: `.`, `/` and the zero that
ends `SEPARATORS`. -/
def segmentSeparators : List UInt8 := [46, 47, 0]

/-- `(uint32_t)` of the `char` that holds an octet: `char` is signed, so an
octet from 128 up is negative and wraps. -/
def charToUInt32 (octet : UInt8) : UInt32 :=
  if octet < 128 then octet.toUInt32 else octet.toUInt32 - 256

/-- `HASH_COMPUTE` on a `char` octet. -/
def hashComputeChar (hash : UInt32) (octet : UInt8) : UInt32 :=
  (hash <<< 5) + hash + charToUInt32 octet

/-- `qd_hash_segment_t`: the hash of the octets before a separator, and their
number. -/
structure HashSegment where
  hash : UInt32
  segmentLength : Nat
  deriving DecidableEq, Repr

/-- The loop of `qd_iterator_hash_view_segments`, with `length` octets read
and their hash `hash`. -/
def hashSegmentsLoop : List UInt8 → UInt32 → Nat → List HashSegment → List HashSegment
  | [], hash, length, segments => segments ++ [⟨hash, length⟩]
  | octet :: rest, hash, length, segments =>
      let segments := if octet ∈ segmentSeparators then segments ++ [⟨hash, length⟩] else segments
      hashSegmentsLoop rest (hashComputeChar hash octet) (length + 1) segments

theorem hashSegmentsLoop_nil (hash : UInt32) (length : Nat) (segments : List HashSegment) :
    hashSegmentsLoop [] hash length segments = segments ++ [⟨hash, length⟩] := rfl

theorem hashSegmentsLoop_cons (octet : UInt8) (rest : List UInt8) (hash : UInt32) (length : Nat)
    (segments : List HashSegment) :
    hashSegmentsLoop (octet :: rest) hash length segments =
      hashSegmentsLoop rest (hashComputeChar hash octet) (length + 1)
        (if octet ∈ segmentSeparators then segments ++ [⟨hash, length⟩] else segments) := rfl

/-- `qd_iterator_hash_view_segments`: the segments of a view, in the order they
are inserted; the last is the whole view. -/
def qdIteratorHashViewSegments (view : List UInt8) : List HashSegment :=
  hashSegmentsLoop view hashInit 0 []

/-- `qd_iterator_trim_view`, on the octets of a view. -/
def trimView (view : List UInt8) (length : Nat) : List UInt8 :=
  view.take length

/-- The loop of `qd_hash_retrieve_prefix` over `qd_iterator_next_segment`: the
segments from the last, each trimming the view and searching its bucket, until
an item is found. -/
def retrievePrefixLoop (table : HashTable α) (view : List UInt8) :
    List HashSegment → Option (Item α) × List UInt8
  | [] => (none, view)
  | segment :: earlier =>
      let view := trimView view segment.segmentLength
      match qdHashInternalRetrieveWithHash table segment.hash view with
      | some item => (some item, view)
      | none => retrievePrefixLoop table view earlier

theorem retrievePrefixLoop_nil (table : HashTable α) (view : List UInt8) :
    retrievePrefixLoop table view [] = (none, view) := rfl

theorem retrievePrefixLoop_cons (table : HashTable α) (view : List UInt8) (segment : HashSegment)
    (earlier : List HashSegment) :
    retrievePrefixLoop table view (segment :: earlier) =
      match qdHashInternalRetrieveWithHash table segment.hash (trimView view segment.segmentLength) with
      | some item => (some item, trimView view segment.segmentLength)
      | none => retrievePrefixLoop table (trimView view segment.segmentLength) earlier := rfl

/-- `qd_hash_retrieve_prefix`: the value found, if any, and the view as the
lookup leaves it. -/
def qdHashRetrievePrefix (table : HashTable α) (view : List UInt8) : Option α × List UInt8 :=
  let found := retrievePrefixLoop table view (qdIteratorHashViewSegments view).reverse
  (found.1.map (·.value), found.2)

/-! ### What a prefix lookup is for -/

/-- A part of a view a prefix lookup may stop at: the whole view, or the octets
before a separator. -/
def PrefixCandidate (separators view key : List UInt8) : Prop :=
  key = view ∨ ∃ c rest, c ∈ separators ∧ view = key ++ c :: rest

/-- `key` is the longest candidate of `view` that `lookup` holds, and holds
with `value`. -/
def LongestHeld (separators : List UInt8) (lookup : List UInt8 → Option α) (view key : List UInt8)
    (value : α) : Prop :=
  PrefixCandidate separators view key ∧ lookup key = some value ∧
    ∀ other, PrefixCandidate separators view other → key.length < other.length → lookup other = none

/-! ### The segments -/

/-- The hash the segment loop accumulates. -/
def hashOctetsChar (octets : List UInt8) : UInt32 :=
  octets.foldl hashComputeChar hashInit

/-- The lengths before each separator of a view, in order. -/
def cuts : List UInt8 → List Nat
  | [] => []
  | octet :: rest => (if octet ∈ segmentSeparators then [0] else []) ++ (cuts rest).map (· + 1)

@[simp] theorem cuts_nil : cuts [] = [] := rfl

theorem cuts_cons (octet : UInt8) (rest : List UInt8) :
    cuts (octet :: rest) = (if octet ∈ segmentSeparators then [0] else []) ++ (cuts rest).map (· + 1) := rfl

/-- The segment of a view of a given length. -/
def segmentOf (view : List UInt8) (length : Nat) : HashSegment :=
  ⟨hashOctetsChar (view.take length), length⟩

theorem hashComputeChar_hashOctetsChar (pre : List UInt8) (octet : UInt8) :
    hashComputeChar (hashOctetsChar pre) octet = hashOctetsChar (pre ++ [octet]) := by
  simp [hashOctetsChar, List.foldl_append]

/-- After `pre`, the loop records a segment before each separator of the rest
and one for the whole view. -/
theorem hashSegmentsLoop_eq (rest : List UInt8) :
    ∀ (pre : List UInt8) (segments : List HashSegment),
      hashSegmentsLoop rest (hashOctetsChar pre) pre.length segments =
        segments ++ (cuts rest ++ [rest.length]).map
          (fun n => (⟨hashOctetsChar (pre ++ rest.take n), pre.length + n⟩ : HashSegment)) := by
  induction rest with
  | nil => intro pre segments; simp [hashSegmentsLoop_nil]
  | cons octet rest ih =>
      intro pre segments
      rw [hashSegmentsLoop_cons, hashComputeChar_hashOctetsChar,
        show pre.length + 1 = (pre ++ [octet]).length by simp, ih]
      -- the segment before `octet`, if it separates, then those of the rest one octet longer
      by_cases separator : octet ∈ segmentSeparators
      · simp [cuts_cons, separator, Nat.add_comm, Nat.add_left_comm]
      · simp [cuts_cons, separator, Nat.add_comm, Nat.add_left_comm]

/-- The segments of a view: one before each separator, and the whole view. -/
theorem qdIteratorHashViewSegments_eq (view : List UInt8) :
    qdIteratorHashViewSegments view = (cuts view ++ [view.length]).map (segmentOf view) := by
  have start := hashSegmentsLoop_eq view [] []
  simp only [hashOctetsChar, List.foldl_nil, List.length_nil, List.nil_append, Nat.zero_add] at start
  rw [qdIteratorHashViewSegments, start]
  rfl

theorem mem_cuts {view : List UInt8} {n : Nat} :
    n ∈ cuts view ↔ ∃ c ∈ segmentSeparators, view[n]? = some c := by
  induction view generalizing n with
  | nil => simp
  | cons octet rest ih =>
      cases n with
      | zero => by_cases separator : octet ∈ segmentSeparators <;> simp [cuts_cons, separator]
      | succ k => by_cases separator : octet ∈ segmentSeparators <;> simp [cuts_cons, separator, ih]

theorem lt_length_of_mem_cuts {view : List UInt8} {n : Nat} (cut : n ∈ cuts view) :
    n < view.length := by
  obtain ⟨c, -, at_n⟩ := mem_cuts.mp cut
  exact (List.getElem?_eq_some_iff.mp at_n).1

theorem cuts_increasing (view : List UInt8) : (cuts view).Pairwise (· < ·) := by
  induction view with
  | nil => exact List.Pairwise.nil
  | cons octet rest ih =>
      have shifted : ((cuts rest).map (· + 1)).Pairwise (· < ·) :=
        List.pairwise_map.mpr (ih.imp fun lt => Nat.succ_lt_succ lt)
      by_cases separator : octet ∈ segmentSeparators
      · simp [cuts_cons, separator, shifted]
      · simpa [cuts_cons, separator] using shifted

/-- A view with no separator has no cut. -/
theorem cuts_eq_nil {view : List UInt8} (plain : ∀ o ∈ view, o ∉ segmentSeparators) :
    cuts view = [] := by
  apply List.eq_nil_iff_forall_not_mem.mpr
  intro n cut
  obtain ⟨c, separator, at_n⟩ := mem_cuts.mp cut
  exact plain c (List.mem_of_getElem? at_n) separator

/-- The candidates of a view are its first octets up to a cut, or all of them. -/
theorem prefixCandidate_iff {view key : List UInt8} :
    PrefixCandidate segmentSeparators view key ↔ ∃ n ∈ cuts view ++ [view.length], key = view.take n := by
  constructor
  · rintro (rfl | ⟨c, rest, separator, split⟩)
    · exact ⟨key.length, by simp, by simp⟩
    · have cut : key.length ∈ cuts view := mem_cuts.mpr ⟨c, separator, by simp [split]⟩
      exact ⟨key.length, List.mem_append_left _ cut, by simp [split]⟩
  · rintro ⟨n, mem, rfl⟩
    rcases List.mem_append.mp mem with cut | whole
    · -- the octet at the cut is the separator that follows the candidate
      obtain ⟨c, separator, at_n⟩ := mem_cuts.mp cut
      obtain ⟨inside, at_n'⟩ := List.getElem?_eq_some_iff.mp at_n
      refine .inr ⟨c, view.drop (n + 1), separator, ?_⟩
      calc view = view.take n ++ view.drop n := (List.take_append_drop n view).symm
        _ = view.take n ++ c :: view.drop (n + 1) := by rw [List.drop_eq_getElem_cons inside, at_n']
    · rw [List.mem_singleton.mp whole, List.take_length]
      exact .inl rfl

theorem length_take_of_mem {view : List UInt8} {n : Nat} (mem : n ∈ cuts view ++ [view.length]) :
    (view.take n).length = n := by
  have bound : n ≤ view.length := by
    rcases List.mem_append.mp mem with cut | whole
    · exact (lt_length_of_mem_cuts cut).le
    · exact (List.mem_singleton.mp whole).le
  rw [List.length_take, Nat.min_eq_left bound]

/-- The lengths the lookup tries, from the whole view down. -/
theorem mem_lengths {view : List UInt8} {n : Nat} :
    n ∈ view.length :: (cuts view).reverse ↔ n ∈ cuts view ++ [view.length] := by
  simp [or_comm]

theorem lengths_decreasing (view : List UInt8) :
    (view.length :: (cuts view).reverse).Pairwise (· > ·) := by
  refine List.pairwise_cons.mpr ⟨fun n mem => ?_, List.pairwise_reverse.mpr (cuts_increasing view)⟩
  exact lt_length_of_mem_cuts (List.mem_reverse.mp mem)

/-! ### Hashing a `char` -/

theorem charToUInt32_of_lt {octet : UInt8} (low : octet < 128) : charToUInt32 octet = octet.toUInt32 :=
  if_pos low

/-- Below 128 the segment loop hashes as `qd_iterator_hash_view` does. -/
theorem hashOctetsChar_of_ascii {octets : List UInt8} (ascii : ∀ o ∈ octets, o < 128) :
    hashOctetsChar octets = hashOctets octets := by
  unfold hashOctetsChar hashOctets
  apply List.foldl_ext
  intro hash octet mem
  rw [hashComputeChar, hashCompute, charToUInt32_of_lt (ascii octet mem)]

/-- A last octet from 128 up takes 256 off the hash. -/
theorem hashOctetsChar_append_high {pre : List UInt8} (ascii : ∀ o ∈ pre, o < 128) {octet : UInt8}
    (high : 128 ≤ octet) : hashOctetsChar (pre ++ [octet]) = hashOctets (pre ++ [octet]) - 256 := by
  have unsigned : hashOctets (pre ++ [octet]) = hashCompute (hashOctets pre) octet := by
    simp [hashOctets, List.foldl_append]
  rw [← hashComputeChar_hashOctetsChar, hashOctetsChar_of_ascii ascii, unsigned]
  simp only [hashComputeChar, hashCompute, charToUInt32, if_neg (UInt8.not_lt.mpr high)]
  grind

/-! ### The lookup -/

/-- Each trim keeps the first octets of the whole view and each segment's hash
is that of its octets, so the loop searches the lengths, from the first, for
one whose octets the table holds. -/
theorem retrievePrefixLoop_value (table : HashTable α) (view : List UInt8) (ascii : ∀ o ∈ view, o < 128) :
    ∀ (lengths : List Nat) (m : Nat), (∀ n ∈ lengths, n ≤ m) → lengths.Pairwise (· > ·) →
      (retrievePrefixLoop table (view.take m) (lengths.map (segmentOf view))).1.map (·.value) =
        lengths.findSome? (fun n => (table.find (view.take n)).map (·.value)) := by
  intro lengths
  induction lengths with
  | nil => intro m _ _; rfl
  | cons n lengths ih =>
      intro m below decreasing
      obtain ⟨smaller, rest⟩ := List.pairwise_cons.mp decreasing
      have trimmed : trimView (view.take m) (segmentOf view n).segmentLength = view.take n := by
        rw [trimView, segmentOf, List.take_take, Nat.min_eq_left (below n List.mem_cons_self)]
      have hashed : (segmentOf view n).hash = qdIteratorHashView (view.take n) := by
        rw [segmentOf, qdIteratorHashView_eq,
          hashOctetsChar_of_ascii fun o mem => ascii o (List.mem_of_mem_take mem)]
      simp only [List.map_cons, retrievePrefixLoop_cons, trimmed, hashed, qdHashInternalRetrieveWithHash_eq,
        List.findSome?_cons]
      -- found at this length, or the search goes on below it
      cases hit : table.find (view.take n) with
      | some item => rfl
      | none => exact ih n (fun k mem => (smaller k mem).le) rest

/-- The lookup leaves the view cut short. -/
theorem retrievePrefixLoop_trims (table : HashTable α) :
    ∀ (segments : List HashSegment) (view : List UInt8), (retrievePrefixLoop table view segments).2 <+: view
  | [], view => List.prefix_refl view
  | segment :: earlier, view => by
      have trimmed : trimView view segment.segmentLength <+: view := List.take_prefix _ view
      rw [retrievePrefixLoop_cons]
      split
      · exact trimmed
      · exact (retrievePrefixLoop_trims table earlier _).trans trimmed

/-- A prefix lookup of a view below 128 is a search for a held length, from the
whole view down through the cuts. -/
theorem qdHashRetrievePrefix_eq_findSome (table : HashTable α) (view : List UInt8)
    (ascii : ∀ o ∈ view, o < 128) :
    (qdHashRetrievePrefix table view).1 =
      (view.length :: (cuts view).reverse).findSome? (fun n => (table.find (view.take n)).map (·.value)) := by
  have segments : (qdIteratorHashViewSegments view).reverse =
      (view.length :: (cuts view).reverse).map (segmentOf view) := by
    simp [qdIteratorHashViewSegments_eq, List.map_reverse]
  have bounded : ∀ n ∈ view.length :: (cuts view).reverse, n ≤ view.length := by
    intro n mem
    rcases List.mem_cons.mp mem with rfl | cut
    · exact le_refl _
    · exact (lt_length_of_mem_cuts (List.mem_reverse.mp cut)).le
  have searched := retrievePrefixLoop_value table view ascii _ view.length bounded (lengths_decreasing view)
  rw [List.take_length] at searched
  rw [qdHashRetrievePrefix, segments]
  exact searched

section Ascii

variable (table : HashTable α) (view : List UInt8) (ascii : ∀ o ∈ view, o < 128)
include ascii

/-- Below 128 a prefix lookup answers with the longest candidate the table holds. -/
theorem qdHashRetrievePrefix_longest (value : α) :
    (qdHashRetrievePrefix table view).1 = some value ↔
      ∃ key, LongestHeld segmentSeparators (fun k => (table.find k).map (·.value)) view key value := by
  rw [qdHashRetrievePrefix_eq_findSome table view ascii,
    Scan.findSome?_eq_some_of_decreasing (lengths_decreasing view)]
  constructor
  · rintro ⟨n, mem, found, greatest⟩
    refine ⟨view.take n, prefixCandidate_iff.mpr ⟨n, mem_lengths.mp mem, rfl⟩, found, ?_⟩
    intro other candidate longer
    obtain ⟨m, mem', rfl⟩ := prefixCandidate_iff.mp candidate
    rw [length_take_of_mem (mem_lengths.mp mem), length_take_of_mem mem'] at longer
    exact greatest m (mem_lengths.mpr mem') longer
  · rintro ⟨key, candidate, found, longest⟩
    obtain ⟨n, mem, rfl⟩ := prefixCandidate_iff.mp candidate
    refine ⟨n, mem_lengths.mpr mem, found, fun m mem' longer => ?_⟩
    apply longest _ (prefixCandidate_iff.mpr ⟨m, mem_lengths.mp mem', rfl⟩)
    rw [length_take_of_mem mem, length_take_of_mem (mem_lengths.mp mem')]
    exact longer

/-- Below 128 a prefix lookup finds nothing exactly when the table holds no candidate. -/
theorem qdHashRetrievePrefix_none :
    (qdHashRetrievePrefix table view).1 = none ↔
      ∀ key, PrefixCandidate segmentSeparators view key → (table.find key).map (·.value) = none := by
  rw [qdHashRetrievePrefix_eq_findSome table view ascii, List.findSome?_eq_none_iff]
  constructor
  · intro missing key candidate
    obtain ⟨n, mem, rfl⟩ := prefixCandidate_iff.mp candidate
    exact missing n (mem_lengths.mpr mem)
  · intro missing n mem
    exact missing _ (prefixCandidate_iff.mpr ⟨n, mem_lengths.mp mem, rfl⟩)

omit ascii in
theorem qdHashRetrievePrefix_view : (qdHashRetrievePrefix table view).2 <+: view :=
  retrievePrefixLoop_trims table _ view

end Ascii

/-! ### Buckets -/

theorem bucketMask_toNat (table : HashTable α) :
    table.bucketMask.toNat = 2 ^ table.bucketExponent - 1 := by
  have small : table.bucketExponent < 32 := table.exponent_lt
  have exponent : table.bucketExponent.toUInt32.toNat = table.bucketExponent := by
    simp [Nat.toUInt32]
    omega
  have power : 2 ^ table.bucketExponent < 2 ^ 32 := Nat.pow_lt_pow_right Nat.one_lt_two small
  have positive : 0 < 2 ^ table.bucketExponent := Nat.two_pow_pos _
  rw [HashTable.bucketMask, UInt32.toNat_sub, UInt32.toNat_shiftLeft, exponent, Nat.mod_eq_of_lt small]
  simp [Nat.one_shiftLeft]
  omega

/-- The bucket of a hash is the hash modulo the number of buckets. -/
theorem bucketOf_toNat (table : HashTable α) (hash : UInt32) :
    table.bucketOf hash = hash.toNat % 2 ^ table.bucketExponent := by
  rw [HashTable.bucketOf, UInt32.toNat_and, bucketMask_toNat, Nat.and_two_pow_sub_one_eq_mod]

/-- Taking 256 off a hash moves it to another bucket once there are 512 buckets
or more. -/
theorem bucketOf_sub_ne (table : HashTable α) (wide : 9 ≤ table.bucketExponent) (hash : UInt32) :
    table.bucketOf (hash - 256) ≠ table.bucketOf hash := by
  have divides : 2 ^ table.bucketExponent ∣ 2 ^ 32 := Nat.pow_dvd_pow 2 table.exponent_lt.le
  rw [bucketOf_toNat, bucketOf_toNat, UInt32.toNat_sub, Nat.mod_mod_of_dvd _ divides]
  intro same
  -- the two hashes differ by 2 ^ 32 - 256, so the number of buckets would divide 256
  have apart : 2 ^ table.bucketExponent ∣ 2 ^ 32 - 256 := by
    have difference := Nat.sub_mod_eq_zero_of_mod_eq same
    rw [show 2 ^ 32 - (256 : UInt32).toNat + hash.toNat - hash.toNat = 2 ^ 32 - 256 by simp] at difference
    exact Nat.dvd_of_mod_eq_zero difference
  have small : 2 ^ table.bucketExponent ≤ 256 :=
    Nat.le_of_dvd (by decide) (by simpa using Nat.dvd_sub divides apart)
  have large : 2 ^ 9 ≤ 2 ^ table.bucketExponent := Nat.pow_le_pow_right (by decide) wide
  omega

/-- A sound table holds a key only in its own bucket. -/
theorem qdHashInternalRetrieveWithHash_elsewhere {table : HashTable α} (sound : Sound table)
    {hash : UInt32} {key : List UInt8} (elsewhere : table.bucketOf hash ≠ table.slot key) :
    qdHashInternalRetrieveWithHash table hash key = none := by
  rw [qdHashInternalRetrieveWithHash, List.find?_eq_none]
  intro item mem same
  rw [qdIteratorEqual_eq, decide_eq_true_eq] at same
  have home : table.slot item.keyOctets = table.bucketOf hash := sound.chained.placed _ item mem
  rw [same] at home
  exact elsewhere home.symm

theorem qdHashInternalInsert_bucketExponent (table : HashTable α) (bucket : Nat) (key : Amqp.CString)
    (value : α) (wantHandle : Bool) :
    (qdHashInternalInsert table bucket key value wantHandle).table.bucketExponent = table.bucketExponent := by
  unfold qdHashInternalInsert
  split
  · rfl
  · split <;> rfl

/-- No call changes the number of buckets. -/
theorem hashStep_bucketExponent (table : HashTable α) (op : HashOp α) :
    (hashStep table op).2.bucketExponent = table.bucketExponent := by
  cases op with
  | insert key value wantHandle => exact qdHashInternalInsert_bucketExponent ..
  | insertStr key value wantHandle => exact qdHashInternalInsert_bucketExponent ..
  | remove key => simp only [hashStep, qdHashRemove]; split <;> rfl
  | removeStr key => simp only [hashStep, qdHashRemoveStr]; split <;> rfl
  | removeByHandle handle =>
      simp only [hashStep, qdHashRemoveByHandle, qdHashRemoveByHandle2]
      split
      · rfl
      · split <;> rfl
  | removeByHandle2 handle => simp only [hashStep, qdHashRemoveByHandle2]; split <;> rfl
  | handleFree handle =>
      simp only [hashStep, qdHashHandleFree]
      split
      · rfl
      · split <;> rfl
  | retrieve | retrieveStr | keyByHandle | size => rfl

theorem run_bucketExponent (table : HashTable α) (ops : List (HashOp α)) :
    (Mealy.run hashStep table ops).2.bucketExponent = table.bucketExponent :=
  Mealy.run_invariant hashStep
    (fun t op (kept : t.bucketExponent = table.bucketExponent) => (hashStep_bucketExponent t op).trans kept)
    rfl ops

/-! ### Runs -/

/-- From `qd_hash`, after any run of calls whose inserted iterator keys hold no
zero octet, a prefix lookup of a view below 128 answers with the longest
candidate the finite map holds, separators being `.`, `/` and zero, finds
nothing exactly when the map holds no candidate, and leaves the view cut short. -/
theorem qdHashRetrievePrefix_run (bucketExponent : Nat) (exponent_lt : bucketExponent < 32)
    (ops : List (HashOp α)) (whole : ∀ op ∈ ops, op.copiesWhole = true) (view : List UInt8)
    (ascii : ∀ o ∈ view, o < 128) :
    (∀ value, (qdHashRetrievePrefix (Mealy.run hashStep (qdHash bucketExponent exponent_lt) ops).2 view).1 =
        some value ↔
        ∃ key, LongestHeld segmentSeparators (AssocList.lookup (Mealy.run KeyMap.step KeyMap.empty ops).2.entries)
          view key value) ∧
      ((qdHashRetrievePrefix (Mealy.run hashStep (qdHash bucketExponent exponent_lt) ops).2 view).1 = none ↔
        ∀ key, PrefixCandidate segmentSeparators view key →
          AssocList.lookup (Mealy.run KeyMap.step KeyMap.empty ops).2.entries key = none) ∧
      (qdHashRetrievePrefix (Mealy.run hashStep (qdHash bucketExponent exponent_lt) ops).2 view).2 <+: view := by
  obtain ⟨-, refines⟩ := refines_simulation.run (refines_empty bucketExponent exponent_lt) ops whole
  have held : (fun k => ((Mealy.run hashStep (qdHash bucketExponent exponent_lt) ops).2.find k).map (·.value)) =
      AssocList.lookup (Mealy.run KeyMap.step KeyMap.empty ops).2.entries := funext refines.values
  refine ⟨fun value => ?_, ?_, qdHashRetrievePrefix_view _ view⟩
  · rw [qdHashRetrievePrefix_longest _ view ascii, held]
  · rw [qdHashRetrievePrefix_none _ view ascii]
    simp only [refines.values]

/-- The keys `M0a` and `M0a.b` held, the view `M0a.b.c` looked up. -/
theorem qdHashRetrievePrefix_run_abc :
    (4 < 32) ∧ (∀ op ∈ [HashOp.insert [77, 48, 97] (1 : Nat) false, .insert [77, 48, 97, 46, 98] 2 false],
      op.copiesWhole = true) ∧ (∀ o ∈ [77, 48, 97, 46, 98, 46, 99], o < (128 : UInt8)) ∧
      (∀ value, (qdHashRetrievePrefix (Mealy.run hashStep (qdHash 4 (by decide))
          [.insert [77, 48, 97] (1 : Nat) false, .insert [77, 48, 97, 46, 98] 2 false]).2
          [77, 48, 97, 46, 98, 46, 99]).1 = some value ↔
        ∃ key, LongestHeld segmentSeparators (AssocList.lookup (Mealy.run KeyMap.step KeyMap.empty
          [.insert [77, 48, 97] (1 : Nat) false, .insert [77, 48, 97, 46, 98] 2 false]).2.entries)
          [77, 48, 97, 46, 98, 46, 99] key value) ∧
      ((qdHashRetrievePrefix (Mealy.run hashStep (qdHash 4 (by decide))
          [.insert [77, 48, 97] (1 : Nat) false, .insert [77, 48, 97, 46, 98] 2 false]).2
          [77, 48, 97, 46, 98, 46, 99]).1 = none ↔
        ∀ key, PrefixCandidate segmentSeparators [77, 48, 97, 46, 98, 46, 99] key →
          AssocList.lookup (Mealy.run KeyMap.step KeyMap.empty
            [.insert [77, 48, 97] (1 : Nat) false, .insert [77, 48, 97, 46, 98] 2 false]).2.entries key = none) ∧
      (qdHashRetrievePrefix (Mealy.run hashStep (qdHash 4 (by decide))
          [.insert [77, 48, 97] (1 : Nat) false, .insert [77, 48, 97, 46, 98] 2 false]).2
          [77, 48, 97, 46, 98, 46, 99]).2 <+: [77, 48, 97, 46, 98, 46, 99] :=
  ⟨by decide, by decide, by decide +kernel,
    qdHashRetrievePrefix_run 4 (by decide) _ (by decide) _ (by decide +kernel)⟩

/-- A zero octet ends a part as `.` and `/` do. -/
example :
    (qdHashRetrievePrefix (Mealy.run hashStep (qdHash 4 (by decide)) [.insert [77, 48, 97] (1 : Nat) false]).2
      [77, 48, 97, 0, 98]).1 = some 1 := by
  simp only [Mealy.run_cons, Mealy.run_nil, hashStep, qdHashInsert, qdHashGetBucketIter_eq]
  decide

/-- In a table of 512 buckets or more, a view whose last octet is from 128 up
and whose other octets are below 128 and separate nothing is looked for in a
bucket other than its own: whatever the run, `qd_hash_retrieve` finds what the
map holds under the view, and the prefix lookup finds nothing. -/
theorem retrieve_prefix_misses_high_octet (bucketExponent : Nat) (wide : 9 ≤ bucketExponent)
    (exponent_lt : bucketExponent < 32) (ops : List (HashOp α)) (whole : ∀ op ∈ ops, op.copiesWhole = true)
    (pre : List UInt8) (plain : ∀ o ∈ pre, o < 128 ∧ o ∉ segmentSeparators) (octet : UInt8)
    (high : 128 ≤ octet) :
    qdHashRetrieve (Mealy.run hashStep (qdHash bucketExponent exponent_lt) ops).2 (pre ++ [octet]) =
        AssocList.lookup (Mealy.run KeyMap.step KeyMap.empty ops).2.entries (pre ++ [octet]) ∧
      (qdHashRetrievePrefix (Mealy.run hashStep (qdHash bucketExponent exponent_lt) ops).2 (pre ++ [octet])).1 =
        none := by
  obtain ⟨-, refines⟩ := refines_simulation.run (refines_empty bucketExponent exponent_lt) ops whole
  refine ⟨by rw [qdHashRetrieve_eq]; exact refines.values _, ?_⟩
  -- the view has one segment, the whole of it, with 256 taken off its hash
  have highNotSeparator : octet ∉ segmentSeparators := by
    intro separator
    simp only [segmentSeparators, List.mem_cons, List.not_mem_nil, or_false] at separator
    rcases separator with rfl | rfl | rfl <;> exact absurd high (by decide)
  have noCut : cuts (pre ++ [octet]) = [] := by
    apply cuts_eq_nil
    intro o mem
    rcases List.mem_append.mp mem with early | last
    · exact (plain o early).2
    · exact (List.mem_singleton.mp last) ▸ highNotSeparator
  have segments : qdIteratorHashViewSegments (pre ++ [octet]) =
      [⟨hashOctets (pre ++ [octet]) - 256, (pre ++ [octet]).length⟩] := by
    rw [qdIteratorHashViewSegments_eq, noCut, List.nil_append, List.map_singleton, segmentOf, List.take_length,
      hashOctetsChar_append_high (fun o mem => (plain o mem).1) high]
  have wideTable : 9 ≤ (Mealy.run hashStep (qdHash bucketExponent exponent_lt) ops).2.bucketExponent := by
    rw [run_bucketExponent]
    exact wide
  have missed := qdHashInternalRetrieveWithHash_elsewhere refines.sound
    (bucketOf_sub_ne _ wideTable (hashOctets (pre ++ [octet])))
  simp only [qdHashRetrievePrefix, segments, List.reverse_singleton, retrievePrefixLoop_cons, retrievePrefixLoop_nil, trimView, List.take_length]
  rw [missed]
  rfl

/-- The key `M0caf` followed by the Latin-1 octet `é`, in a table of 1024
buckets: the map holds it, and the prefix lookup misses it. -/
theorem retrieve_prefix_misses_high_octet_cafe :
    9 ≤ 10 ∧ (∀ op ∈ [HashOp.insert [77, 48, 99, 97, 102, 233] (1 : Nat) false], op.copiesWhole = true) ∧
      (∀ o ∈ [77, 48, 99, 97, 102], o < 128 ∧ o ∉ segmentSeparators) ∧ 128 ≤ (233 : UInt8) ∧
      AssocList.lookup (Mealy.run KeyMap.step KeyMap.empty
          [HashOp.insert [77, 48, 99, 97, 102, 233] (1 : Nat) false]).2.entries [77, 48, 99, 97, 102, 233] =
        some 1 ∧
      (qdHashRetrieve (Mealy.run hashStep (qdHash 10 (by decide))
          [HashOp.insert [77, 48, 99, 97, 102, 233] (1 : Nat) false]).2 ([77, 48, 99, 97, 102] ++ [233]) =
          AssocList.lookup (Mealy.run KeyMap.step KeyMap.empty
            [HashOp.insert [77, 48, 99, 97, 102, 233] (1 : Nat) false]).2.entries ([77, 48, 99, 97, 102] ++ [233]) ∧
        (qdHashRetrievePrefix (Mealy.run hashStep (qdHash 10 (by decide))
          [HashOp.insert [77, 48, 99, 97, 102, 233] (1 : Nat) false]).2 ([77, 48, 99, 97, 102] ++ [233])).1 = none) :=
  ⟨by decide, by decide, by simp [segmentSeparators], by decide, by decide,
    retrieve_prefix_misses_high_octet 10 (by decide) (by decide) _ (by decide) _ (by simp [segmentSeparators]) 233
      (by decide)⟩

end DispatchRouter.Hash
