/-
# What the composer writes

One spec lemma per composer operation, each in terms of the flattened chain: an
insert appends its octets and counts them into the open composite, a
back-patch sets the octets at the flat position its location denotes, and no
operation moves a location already taken. The buffer size never appears in a
conclusion: every split of the output across buffers composes the same octets.
`composeValue_spec` assembles these into the refinement of `encode`.
-/

import DispatchRouter.Amqp.Compose

namespace DispatchRouter.Amqp

open DispatchRouter.Math
open DispatchRouter.Math.ChunkList (Denotes)
open DispatchRouter.Math.Octets (masked_octet)

variable (bufferSize : BufferSize)

/-! ### Counting -/

/-- The stack after `length` more octets and `count` more elements were counted
into the open composite. -/
def countedStack (stack : List Composite) (length count : Nat) : List Composite :=
  match stack with
  | [] => []
  | comp :: rest =>
      { comp with length := comp.length + UInt32.ofNat length,
                  count := comp.count + UInt32.ofNat count } :: rest

@[simp] theorem countedStack_nil (length count : Nat) : countedStack [] length count = [] := rfl

theorem countedStack_zero (stack : List Composite) : countedStack stack 0 0 = stack := by
  cases stack with
  | nil => rfl
  | cons comp rest => simp [countedStack]

theorem countedStack_countedStack (stack : List Composite) (length count length' count' : Nat) :
    countedStack (countedStack stack length count) length' count' =
      countedStack stack (length + length') (count + count') := by
  cases stack with
  | nil => rfl
  | cons comp rest =>
      simp only [countedStack, UInt32.ofNat_add, UInt32.add_assoc]

theorem bumpLength_fieldStack (field : ComposedField) (length : Nat) :
    (bumpLength field length).fieldStack = countedStack field.fieldStack length 0 := by
  unfold bumpLength countedStack
  split <;> simp_all

theorem bumpCount_fieldStack (field : ComposedField) :
    (bumpCount field).fieldStack = countedStack field.fieldStack 0 1 := by
  unfold bumpCount countedStack
  split <;> simp_all

@[simp] theorem bumpLength_buffers (field : ComposedField) (length : Nat) :
    (bumpLength field length).buffers = field.buffers := by
  unfold bumpLength
  split <;> rfl

@[simp] theorem bumpCount_buffers (field : ComposedField) :
    (bumpCount field).buffers = field.buffers := by
  unfold bumpCount
  split <;> rfl

/-! ### Inserting -/

/-- Where `qd_insert` copies to: either the chain's own tail, or a new empty buffer
after it. -/
theorem tailWithRoom_cases (buffers : List (List UInt8)) :
    (tailWithRoom bufferSize buffers).1 ++ [(tailWithRoom bufferSize buffers).2] = buffers ∨
      ((tailWithRoom bufferSize buffers).1 = buffers ∧
        (tailWithRoom bufferSize buffers).2 = []) := by
  unfold tailWithRoom
  split
  · rename_i tail found
    split
    · left
      exact List.dropLast_append_getLast? tail found
    · right
      exact ⟨rfl, rfl⟩
  · right
    rename_i missing
    exact ⟨(List.getLast?_eq_none_iff.mp missing).symm, rfl⟩

theorem tailWithRoom_flatten (buffers : List (List UInt8)) :
    ((tailWithRoom bufferSize buffers).1 ++ [(tailWithRoom bufferSize buffers).2]).flatten =
      buffers.flatten := by
  rcases tailWithRoom_cases bufferSize buffers with same | ⟨front, empty⟩
  · rw [same]
  · rw [front, empty]
    simp

theorem tailWithRoom_denotes {buffers : List (List UInt8)} {index offset position : Nat}
    (denotes : Denotes buffers index offset position) :
    Denotes ((tailWithRoom bufferSize buffers).1 ++ [(tailWithRoom bufferSize buffers).2])
      index offset position := by
  rcases tailWithRoom_cases bufferSize buffers with same | ⟨front, empty⟩
  · rw [same]
    exact denotes
  · rw [front, empty]
    exact denotes.append_right [[]]

/-- One pass of the copy loop appends the copied octets to the chain. -/
theorem insertPass_flatten (buffers : List (List UInt8)) (chunk : List UInt8) :
    ((tailWithRoom bufferSize buffers).1 ++ [(tailWithRoom bufferSize buffers).2 ++ chunk]).flatten =
      buffers.flatten ++ chunk := by
  have whole := tailWithRoom_flatten bufferSize buffers
  simp only [List.flatten_append, List.flatten_cons, List.flatten_nil, List.append_nil] at whole ⊢
  rw [← whole, List.append_assoc]

/-- `qd_insert` appends its octets, counts them into the open composite, and moves
no location. -/
theorem qdInsert_spec (field : ComposedField) (seq : List UInt8) :
    let result := qdInsert bufferSize field seq
    result.buffers.flatten = field.buffers.flatten ++ seq ∧
      result.fieldStack = countedStack field.fieldStack seq.length 0 ∧
      ∀ index offset position, Denotes field.buffers index offset position →
        Denotes result.buffers index offset position := by
  induction field, seq using qdInsert.induct bufferSize with
  | case1 field =>
      simp only [qdInsert, List.append_nil, List.length_nil, countedStack_zero, true_and]
      exact fun _ _ _ denotes => denotes
  | case2 field octet more room toCopy copied ih =>
      obtain ⟨flat, stack, keeps⟩ := ih
      rw [qdInsert]
      refine ⟨?_, ?_, ?_⟩
      · rw [flat, bumpLength_buffers, insertPass_flatten, List.append_assoc,
          List.take_append_drop]
      · rw [stack, bumpLength_fieldStack, countedStack_countedStack, List.length_drop]
        congr 1
        have roomFits : room.2.length < bufferSize.size := tailWithRoom_room bufferSize field.buffers
        simp only [toCopy, List.length_cons] at ⊢
        omega
      · intro index offset position denotes
        apply keeps
        rw [bumpLength_buffers]
        exact (tailWithRoom_denotes bufferSize denotes).extend_last _

/-! ### Octets of words -/

theorem octet_of_masked32 (value mask shift : UInt32) (places : Nat)
    (maskIs : mask.toNat = 255 <<< places) (shiftIs : shift.toNat = places) (small : places < 32) :
    ((value &&& mask) >>> shift).toUInt8 = UInt8.ofNat (value.toNat / 2 ^ places) := by
  apply UInt8.toNat_inj.mp
  simp only [UInt32.toNat_toUInt8, UInt32.toNat_shiftRight, UInt32.toNat_and, maskIs, shiftIs,
    Nat.mod_eq_of_lt small, masked_octet]
  simp

theorem octet_of_masked64 (value mask shift : UInt64) (places : Nat)
    (maskIs : mask.toNat = 255 <<< places) (shiftIs : shift.toNat = places) (small : places < 64) :
    ((value &&& mask) >>> shift).toUInt8 = UInt8.ofNat (value.toNat / 2 ^ places) := by
  apply UInt8.toNat_inj.mp
  simp only [UInt64.toNat_toUInt8, UInt64.toNat_shiftRight, UInt64.toNat_and, maskIs, shiftIs,
    Nat.mod_eq_of_lt small, masked_octet]
  simp

/-- `qd_insert_32` writes the word most significant octet first. -/
theorem insert32Octets_eq_be32 (value : UInt32) : insert32Octets value = be32 value := by
  have low : (value &&& 0x000000FF).toUInt8 = UInt8.ofNat value.toNat := by
    apply UInt8.toNat_inj.mp
    simp only [UInt32.toNat_toUInt8, UInt32.toNat_and]
    simpa using masked_octet value.toNat 0
  simp only [insert32Octets, be32, low,
    octet_of_masked32 value 0xFF000000 24 24 rfl rfl (by decide),
    octet_of_masked32 value 0x00FF0000 16 16 rfl rfl (by decide),
    octet_of_masked32 value 0x0000FF00 8 8 rfl rfl (by decide)]

/-- `qd_insert_64` writes the word most significant octet first. -/
theorem insert64Octets_eq_be64 (value : UInt64) : insert64Octets value = be64 value := by
  have low : (value &&& 0x00000000000000FF).toUInt8 = UInt8.ofNat value.toNat := by
    apply UInt8.toNat_inj.mp
    simp only [UInt64.toNat_toUInt8, UInt64.toNat_and]
    simpa using masked_octet value.toNat 0
  simp only [insert64Octets, be64, low,
    octet_of_masked64 value 0xFF00000000000000 56 56 rfl rfl (by decide),
    octet_of_masked64 value 0x00FF000000000000 48 48 rfl rfl (by decide),
    octet_of_masked64 value 0x0000FF0000000000 40 40 rfl rfl (by decide),
    octet_of_masked64 value 0x000000FF00000000 32 32 rfl rfl (by decide),
    octet_of_masked64 value 0x00000000FF000000 24 24 rfl rfl (by decide),
    octet_of_masked64 value 0x0000000000FF0000 16 16 rfl rfl (by decide),
    octet_of_masked64 value 0x000000000000FF00 8 8 rfl rfl (by decide)]

/-! ### Back-patching -/

/-- `qd_overwrite` is the chain walk `ChunkList.setAtCursor`, with the buffer it
stops in named by its place in the chain. -/
theorem qdOverwrite_eq_setAtCursor (value : UInt8) (buffers : List (List UInt8))
    (location : FieldLocation) :
    qdOverwrite value buffers location =
      ((ChunkList.setAtCursor value buffers location.buffer location.offset).1,
        ⟨(ChunkList.setAtCursor value buffers location.buffer location.offset).2.1,
          (ChunkList.setAtCursor value buffers location.buffer location.offset).2.2⟩) := by
  induction location using qdOverwrite.induct buffers with
  | case1 location inChain buf atEnd ih =>
      -- the cursor is at the end of its buffer: both step to the next one
      rw [qdOverwrite, dif_pos inChain, if_pos atEnd, ih]
      simp only [ChunkList.setAtCursor, List.drop_eq_getElem_cons inChain, ChunkList.walkSet]
      rw [if_neg (Nat.not_lt.mpr atEnd)]
      simp only [Prod.mk.injEq, FieldLocation.mk.injEq]
      refine ⟨?_, by omega, trivial⟩
      rw [List.take_succ_eq_append_getElem inChain, List.append_assoc, List.singleton_append]
  | case2 location inChain buf inside =>
      rw [qdOverwrite, dif_pos inChain, if_neg inside]
      simp only [ChunkList.setAtCursor, List.drop_eq_getElem_cons inChain, ChunkList.walkSet]
      rw [if_pos (Nat.lt_of_not_le inside)]
      simp only [Prod.mk.injEq, Nat.add_zero, and_true]
      rw [List.set_eq_take_append_cons_drop, if_pos inChain]
  | case3 location outside =>
      rw [qdOverwrite, dif_neg outside]
      have beyond : buffers.length ≤ location.buffer := Nat.le_of_not_lt outside
      simp [ChunkList.setAtCursor, List.drop_of_length_le beyond, List.take_of_length_le beyond,
        ChunkList.walkSet]

/-- `qd_overwrite` sets the octet its location denotes, keeps every buffer's size, and
moves the location to the next octet. -/
theorem qdOverwrite_spec (value : UInt8) {buffers : List (List UInt8)}
    {location : FieldLocation} {position : Nat}
    (denotes : Denotes buffers location.buffer location.offset position)
    (inRange : position < buffers.flatten.length) :
    let result := qdOverwrite value buffers location
    result.1.flatten = buffers.flatten.set position value ∧
      result.1.map List.length = buffers.map List.length ∧
      Denotes result.1 result.2.buffer result.2.offset (position + 1) := by
  rw [qdOverwrite_eq_setAtCursor]
  exact ChunkList.setAtCursor_spec value denotes inRange

/-- `qd_overwrite` applied to successive octets, each starting where the last one
left the location. -/
def overwriteOctets : List UInt8 → List (List UInt8) → FieldLocation → List (List UInt8)
  | [], buffers, _ => buffers
  | octet :: rest, buffers, location =>
      overwriteOctets rest (qdOverwrite octet buffers location).1
        (qdOverwrite octet buffers location).2

theorem qdOverwrite32_eq_overwriteOctets (location : FieldLocation) (value : UInt32)
    (buffers : List (List UInt8)) :
    qdOverwrite32 location value buffers =
      overwriteOctets (insert32Octets value) buffers location := rfl

/-- Successive overwrites replace the run of octets starting at the denoted position. -/
theorem overwriteOctets_spec (octets : List UInt8) :
    ∀ {buffers : List (List UInt8)} {location : FieldLocation} {position : Nat},
      Denotes buffers location.buffer location.offset position →
      position + octets.length ≤ buffers.flatten.length →
      (overwriteOctets octets buffers location).flatten =
          ChunkList.setRun buffers.flatten position octets ∧
        (overwriteOctets octets buffers location).map List.length = buffers.map List.length := by
  induction octets with
  | nil =>
      intro buffers location position _ _
      exact ⟨rfl, rfl⟩
  | cons octet rest ih =>
      intro buffers location position denotes inRange
      simp only [List.length_cons] at inRange
      obtain ⟨flat, lengths, next⟩ := qdOverwrite_spec octet denotes (by omega)
      have restRange : position + 1 + rest.length ≤
          (qdOverwrite octet buffers location).1.flatten.length := by
        rw [flat, List.length_set]
        omega
      obtain ⟨restFlat, restLengths⟩ := ih next restRange
      refine ⟨?_, ?_⟩
      · rw [overwriteOctets, restFlat, flat]
        rfl
      · rw [overwriteOctets, restLengths, lengths]

/-- `qd_overwrite_32` replaces the four octets at the position its location denotes. -/
theorem qdOverwrite32_spec (value : UInt32) {buffers : List (List UInt8)}
    {location : FieldLocation} {position : Nat}
    (denotes : Denotes buffers location.buffer location.offset position)
    (inRange : position + 4 ≤ buffers.flatten.length) :
    (qdOverwrite32 location value buffers).flatten =
        ChunkList.setRun buffers.flatten position (be32 value) ∧
      (qdOverwrite32 location value buffers).map List.length = buffers.map List.length := by
  rw [qdOverwrite32_eq_overwriteOctets, ← insert32Octets_eq_be32]
  exact overwriteOctets_spec (insert32Octets value) denotes inRange

/-! ### The composer's step relation -/

/-- `after` is `before` with `octets` appended to the chain and counted into the
open composite as `count` elements, and every location taken still in place. -/
structure Appends (before after : ComposedField) (octets : List UInt8) (count : Nat) : Prop where
  flatten_eq : after.buffers.flatten = before.buffers.flatten ++ octets
  fieldStack_eq : after.fieldStack = countedStack before.fieldStack octets.length count
  keeps : ∀ index offset position, Denotes before.buffers index offset position →
    Denotes after.buffers index offset position

theorem Appends.trans {first second third : ComposedField} {octets octets' : List UInt8}
    {count count' : Nat} (step : Appends first second octets count)
    (step' : Appends second third octets' count') :
    Appends first third (octets ++ octets') (count + count') where
  flatten_eq := by rw [step'.flatten_eq, step.flatten_eq, List.append_assoc]
  fieldStack_eq := by
    rw [step'.fieldStack_eq, step.fieldStack_eq, countedStack_countedStack, List.length_append]
  keeps := fun index offset position denotes =>
    step'.keeps index offset position (step.keeps index offset position denotes)

theorem Appends.refl (field : ComposedField) : Appends field field [] 0 where
  flatten_eq := by simp
  fieldStack_eq := (countedStack_zero _).symm
  keeps := fun _ _ _ denotes => denotes

theorem Appends.congr {before after : ComposedField} {octets octets' : List UInt8}
    {count count' : Nat} (step : Appends before after octets count) (sameOctets : octets = octets')
    (sameCount : count = count') : Appends before after octets' count' :=
  sameOctets ▸ sameCount ▸ step

theorem qdInsert_appends (field : ComposedField) (seq : List UInt8) :
    Appends field (qdInsert bufferSize field seq) seq 0 := by
  obtain ⟨flat, stack, keeps⟩ := qdInsert_spec bufferSize field seq
  exact ⟨flat, stack, keeps⟩

theorem bumpCount_appends (field : ComposedField) : Appends field (bumpCount field) [] 1 where
  flatten_eq := by simp
  fieldStack_eq := bumpCount_fieldStack field
  keeps := fun _ _ _ denotes => by simpa using denotes

theorem qdInsert8_appends (field : ComposedField) (value : UInt8) :
    Appends field (qdInsert8 bufferSize field value) [value] 0 :=
  qdInsert_appends bufferSize field [value]

theorem qdInsert32_appends (field : ComposedField) (value : UInt32) :
    Appends field (qdInsert32 bufferSize field value) (be32 value) 0 :=
  insert32Octets_eq_be32 value ▸ qdInsert_appends bufferSize field (insert32Octets value)

theorem qdInsert64_appends (field : ComposedField) (value : UInt64) :
    Appends field (qdInsert64 bufferSize field value) (be64 value) 0 :=
  insert64Octets_eq_be64 value ▸ qdInsert_appends bufferSize field (insert64Octets value)

/-- A tag followed by a value's octets, then the count: the shape of every scalar insert. -/
theorem tagged_appends {field middle : ComposedField} (tag : UInt8) {octets : List UInt8}
    (body : Appends (qdInsert8 bufferSize field tag) middle octets 0) :
    Appends field (bumpCount middle) (tag :: octets) 1 :=
  (((qdInsert8_appends bufferSize field tag).trans body).trans (bumpCount_appends middle)).congr
    (by simp) rfl

/-! ### Scalars -/

/-- A size field and the octets it counts, as `qd_compose_insert_binary` and
`qd_compose_insert_symbol` write them. -/
theorem sized_appends {field : ComposedField} (tag8 tag32 : UInt8) (len : UInt32)
    (octets : List UInt8) :
    Appends field
      (bumpCount (qdInsert bufferSize
        (if len < 256 then qdInsert8 bufferSize (qdInsert8 bufferSize field tag8) len.toUInt8
          else qdInsert32 bufferSize (qdInsert8 bufferSize field tag32) len) octets))
      (sized tag8 tag32 len octets) 1 := by
  unfold sized
  split
  · exact tagged_appends bufferSize tag8
      ((qdInsert8_appends bufferSize _ _).trans (qdInsert_appends bufferSize _ octets))
  · exact tagged_appends bufferSize tag32
      ((qdInsert32_appends bufferSize _ _).trans (qdInsert_appends bufferSize _ octets))

/-! ### Composites -/

/-- The tail location of a chain denotes the position just past its last octet. -/
theorem tailLocation_denotes {buffers : List (List UInt8)} (nonempty : buffers ≠ []) :
    Denotes buffers (tailLocation buffers).buffer (tailLocation buffers).offset
      buffers.flatten.length := by
  obtain ⟨front, last, rfl⟩ : ∃ front last, buffers = front ++ [last] :=
    ⟨buffers.dropLast, buffers.getLast nonempty, (List.dropLast_append_getLast nonempty).symm⟩
  refine ⟨last, ?_, ?_, ?_⟩ <;> simp [tailLocation, ChunkList.flatPos]

/-- After a non-empty insert the chain has a buffer. -/
theorem Appends.buffers_ne_nil {before after : ComposedField} {octets : List UInt8}
    {count : Nat} (step : Appends before after octets count) (nonempty : octets ≠ []) :
    after.buffers ≠ [] := by
  intro empty
  have flat := step.flatten_eq
  rw [empty, List.flatten_nil] at flat
  exact nonempty (List.append_eq_nil_iff.mp flat.symm).2

/-- An open composite whose tag is at flat position `start`: its size and count
locations denote the octets just after the tag. -/
def Composite.PlacedAt (comp : Composite) (buffers : List (List UInt8)) (start : Nat) : Prop :=
  Denotes buffers comp.lengthLocation.buffer comp.lengthLocation.offset (start + 1) ∧
    Denotes buffers comp.countLocation.buffer comp.countLocation.offset (start + 5)

theorem Composite.PlacedAt.keep {comp : Composite} {before after : ComposedField}
    {octets : List UInt8} {count start : Nat} (placed : comp.PlacedAt before.buffers start)
    (step : Appends before after octets count) : comp.PlacedAt after.buffers start :=
  ⟨step.keeps _ _ _ placed.1, step.keeps _ _ _ placed.2⟩

/-- `qd_compose_start_composite` writes the tag and two zeroed fields, counting them
into the enclosing composite, and opens a composite placed at the tag. -/
theorem qdComposeStartComposite_spec (field : ComposedField) (isMap : Bool) :
    ∃ comp rest, (qdComposeStartComposite bufferSize field isMap).fieldStack = comp :: rest ∧
      Appends field { qdComposeStartComposite bufferSize field isMap with fieldStack := rest }
        ((if isMap then Tag.map32 else Tag.list32) :: [0, 0, 0, 0, 0, 0, 0, 0]) 0 ∧
      comp.count = 0 ∧ comp.length = 4 ∧
      comp.PlacedAt (qdComposeStartComposite bufferSize field isMap).buffers
        field.buffers.flatten.length := by
  have tagged := qdInsert8_appends bufferSize field (if isMap then Tag.map32 else Tag.list32)
  have sized := qdInsert_appends bufferSize
    (qdInsert8 bufferSize field (if isMap then Tag.map32 else Tag.list32)) [0, 0, 0, 0]
  have counted := qdInsert_appends bufferSize (qdInsert bufferSize
    (qdInsert8 bufferSize field (if isMap then Tag.map32 else Tag.list32)) [0, 0, 0, 0]) [0, 0, 0, 0]
  have lengthAt := tailLocation_denotes (tagged.buffers_ne_nil (List.cons_ne_nil _ _))
  have countAt := tailLocation_denotes (sized.buffers_ne_nil (List.cons_ne_nil _ _))
  rw [tagged.flatten_eq] at lengthAt
  rw [sized.flatten_eq, tagged.flatten_eq] at countAt
  refine ⟨_, _, rfl, ((tagged.trans sized).trans counted).congr rfl rfl, rfl, rfl, ?_, ?_⟩
  · have placedLength := counted.keeps _ _ _ (sized.keeps _ _ _ lengthAt)
    rw [List.length_append, List.length_singleton] at placedLength
    exact placedLength
  · have placedCount := counted.keeps _ _ _ countAt
    rw [List.length_append, List.length_append, List.length_singleton] at placedCount
    exact placedCount

/-- Patching the size field of a composite whose fields are still zero. -/
theorem sizePatched (front content : List UInt8) (tag : UInt8) (size : UInt32) :
    ChunkList.setRun (front ++ tag :: [0, 0, 0, 0, 0, 0, 0, 0] ++ content) (front.length + 1)
        (be32 size) =
      (front ++ [tag]) ++ be32 size ++ ([0, 0, 0, 0] ++ content) := by
  have block := ChunkList.setRun_block (front ++ [tag]) [0, 0, 0, 0] ([0, 0, 0, 0] ++ content)
    (be32 size) rfl
  rw [List.length_append, List.length_singleton] at block
  rw [← block]
  simp

/-- Then patching its count field. -/
theorem countPatched (front content : List UInt8) (tag : UInt8) (size count : UInt32) :
    ChunkList.setRun ((front ++ [tag]) ++ be32 size ++ ([0, 0, 0, 0] ++ content))
        (front.length + 5) (be32 count) =
      front ++ tag :: (be32 size ++ be32 count ++ content) := by
  have block := ChunkList.setRun_block (front ++ [tag] ++ be32 size) [0, 0, 0, 0] content
    (be32 count) rfl
  simp only [List.length_append, List.length_singleton, length_be32] at block
  rw [show front.length + 5 = front.length + 1 + 4 by omega,
    ← List.append_assoc (front ++ [tag] ++ be32 size) [0, 0, 0, 0] content, block]
  simp

/-- The `comp->length - 4` of `qd_compose_end_composite`: the size field counts the
count field, which the enclosing composite has counted already. -/
theorem size_sub_four (content : Nat) : UInt32.ofNat (4 + content) - 4 = UInt32.ofNat content := by
  rw [Nat.add_comm, UInt32.ofNat_add]
  exact UInt32.add_sub_cancel _ _

/-- `qd_compose_end_composite` patches the size and count fields in place, and
counts the composite's octets beyond its header into the enclosing composite,
as one element. -/
theorem qdComposeEndComposite_spec {field : ComposedField} {comp : Composite}
    {outer : List Composite} (tag : UInt8) {front content : List UInt8} {count : Nat}
    (stack : field.fieldStack = comp :: outer) (placed : comp.PlacedAt field.buffers front.length)
    (flat : field.buffers.flatten = front ++ tag :: [0, 0, 0, 0, 0, 0, 0, 0] ++ content)
    (length : comp.length = UInt32.ofNat (4 + content.length))
    (counted : comp.count = UInt32.ofNat count) :
    (qdComposeEndComposite field).buffers.flatten = front ++ compound tag content count ∧
      (qdComposeEndComposite field).fieldStack = countedStack outer content.length 1 ∧
      (qdComposeEndComposite field).buffers.map List.length = field.buffers.map List.length := by
  have lengthRange : front.length + 1 + 4 ≤ field.buffers.flatten.length := by
    simp [flat]
    omega
  obtain ⟨lengthFlat, lengthLengths⟩ := qdOverwrite32_spec comp.length placed.1 lengthRange
  have countAt := placed.2.congr_lengths lengthLengths.symm
  have countRange : front.length + 5 + 4 ≤
      (qdOverwrite32 comp.lengthLocation comp.length field.buffers).flatten.length := by
    rw [lengthFlat, ChunkList.setRun_length]
    simp [flat]
    omega
  obtain ⟨countFlat, countLengths⟩ := qdOverwrite32_spec comp.count countAt countRange
  refine ⟨?_, ?_, ?_⟩
  · simp only [qdComposeEndComposite, stack]
    rw [countFlat, lengthFlat, flat, sizePatched, countPatched, compound, length, counted]
    simp
  · simp only [qdComposeEndComposite, stack]
    cases outer with
    | nil => rfl
    | cons enclosing rest =>
        simp only [countedStack, length, size_sub_four]
        rfl
  · simp only [qdComposeEndComposite, stack]
    rw [countLengths, lengthLengths]

/-- A list or map: its start, its elements and its end append its encoding as one
element of the enclosing composite. -/
theorem composite_appends (field : ComposedField) (isMap : Bool) (elements : List Value)
    (inner : ∀ field', Appends field' (composeAll bufferSize elements field') (encodeAll elements)
      elements.length) :
    Appends field (qdComposeEndComposite
        (composeAll bufferSize elements (qdComposeStartComposite bufferSize field isMap)))
      (compound (if isMap then Tag.map32 else Tag.list32) (encodeAll elements) elements.length) 1 := by
  obtain ⟨comp, rest, stackEq, started, countZero, lengthFour, placed⟩ :=
    qdComposeStartComposite_spec bufferSize field isMap
  have body := inner (qdComposeStartComposite bufferSize field isMap)
  have bodyStack := body.fieldStack_eq
  rw [stackEq] at bodyStack
  simp only [countedStack] at bodyStack
  have startFlat : (qdComposeStartComposite bufferSize field isMap).buffers.flatten =
      field.buffers.flatten ++ (if isMap then Tag.map32 else Tag.list32) ::
        [0, 0, 0, 0, 0, 0, 0, 0] := started.flatten_eq
  obtain ⟨flat, stack, lengths⟩ := qdComposeEndComposite_spec
    (if isMap then Tag.map32 else Tag.list32) bodyStack (placed.keep body)
    (by rw [body.flatten_eq, startFlat, List.append_assoc])
    (by rw [lengthFour, UInt32.ofNat_add]; rfl)
    (by rw [countZero, UInt32.zero_add])
  have restEq : rest = countedStack field.fieldStack 9 0 := started.fieldStack_eq
  refine ⟨flat, ?_, ?_⟩
  · rw [stack, restEq, countedStack_countedStack]
    congr 1
    simp only [compound, List.length_cons, List.length_append, length_be32]
  · intro index offset position denotes
    exact (body.keeps _ _ _ (started.keeps _ _ _ denotes)).congr_lengths lengths.symm

mutual

/-- The composer writes `encode`: composing a value tree appends exactly its
encoding, whatever the buffer size, counts it as one element of the open
composite, and moves no location already taken. -/
theorem composeValue_appends : ∀ (value : Value) (field : ComposedField),
    Appends field (composeValue bufferSize value field) (encode value) 1
  | .null, field => tagged_appends bufferSize Tag.null (Appends.refl _)
  | .bool value, field => tagged_appends bufferSize _ (Appends.refl _)
  | .uint value, field => by
      simp only [composeValue, qdComposeInsertUint, encode]
      split
      · exact tagged_appends bufferSize Tag.uint0 (Appends.refl _)
      · split
        · exact tagged_appends bufferSize Tag.smalluint (qdInsert8_appends bufferSize _ _)
        · exact tagged_appends bufferSize Tag.uint (qdInsert32_appends bufferSize _ _)
  | .ulong value, field => by
      simp only [composeValue, qdComposeInsertUlong, encode]
      split
      · exact tagged_appends bufferSize Tag.ulong0 (Appends.refl _)
      · split
        · exact tagged_appends bufferSize Tag.smallulong (qdInsert8_appends bufferSize _ _)
        · exact tagged_appends bufferSize Tag.ulong (qdInsert64_appends bufferSize _ _)
  | .int value, field => by
      simp only [composeValue, qdComposeInsertInt, encode]
      split
      · exact tagged_appends bufferSize Tag.smallint (qdInsert8_appends bufferSize _ _)
      · exact tagged_appends bufferSize Tag.int (qdInsert32_appends bufferSize _ _)
  | .long value, field => by
      simp only [composeValue, qdComposeInsertLong, encode]
      split
      · exact tagged_appends bufferSize Tag.smalllong (qdInsert8_appends bufferSize _ _)
      · exact tagged_appends bufferSize Tag.long (qdInsert64_appends bufferSize _ _)
  | .timestamp value, field =>
      tagged_appends bufferSize Tag.timestamp (qdInsert64_appends bufferSize _ _)
  | .uuid value, field => tagged_appends bufferSize Tag.uuid (qdInsert_appends bufferSize _ _)
  | .binary value, field => sized_appends bufferSize Tag.vbin8 Tag.vbin32 _ _
  | .string value, field => by
      simp only [composeValue, qdComposeInsertStringN, encode, List.take_length]
      split
      · exact tagged_appends bufferSize Tag.str8Utf8
          ((qdInsert8_appends bufferSize _ _).trans (qdInsert_appends bufferSize _ value))
      · exact tagged_appends bufferSize Tag.str32Utf8
          ((qdInsert32_appends bufferSize _ _).trans (qdInsert_appends bufferSize _ value))
  | .symbol value, field => sized_appends bufferSize Tag.sym8 Tag.sym32 _ _
  | .list elements, field =>
      composite_appends bufferSize field false elements (composeAll_appends elements)
  | .map elements, field =>
      composite_appends bufferSize field true elements (composeAll_appends elements)

/-- Composing the elements of a composite appends their encodings, one element each. -/
theorem composeAll_appends : ∀ (elements : List Value) (field : ComposedField),
    Appends field (composeAll bufferSize elements field) (encodeAll elements) elements.length
  | [], field => Appends.refl field
  | value :: rest, field =>
      ((composeValue_appends value field).trans (composeAll_appends rest _)).congr
        (encodeAll_cons value rest).symm (by simp only [List.length_cons]; omega)

end

end DispatchRouter.Amqp
