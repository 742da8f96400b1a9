/-
# The composer

`compose.c` as state passing over a composed field: a chain of buffers, each
holding at most `BUFFER_SIZE` octets, and a stack of open composites. A
composite records where its size and count fields start, as a buffer of the
chain and an offset into it, and back-patches them when it ends, walking across
buffer boundaries as `qd_overwrite` does.

A buffer is the list of octets it holds; a location names its buffer by its
place in the chain. Buffers are never removed while a field is composed, so the
place stands for the pointer the source keeps.
-/

import DispatchRouter.Math.ChunkList
import DispatchRouter.Amqp.Value

namespace DispatchRouter.Amqp

open DispatchRouter.Math

/-- `BUFFER_SIZE`, the capacity `qd_buffer()` gives a new buffer. With no capacity
`qd_insert` would loop for ever, so the size is positive. -/
structure BufferSize where
  size : Nat
  size_pos : 0 < size

/-- `qd_field_location_t`, as far as the composer uses it. -/
structure FieldLocation where
  buffer : Nat
  offset : Nat

/-- `qd_composite_t`. -/
structure Composite where
  isMap : Bool
  count : UInt32
  length : UInt32
  lengthLocation : FieldLocation
  countLocation : FieldLocation

/-- `qd_composed_field_t`: the head of `fieldStack` is the innermost open composite. -/
structure ComposedField where
  buffers : List (List UInt8)
  fieldStack : List Composite

/-- `qd_compose_subfield(0)`: a new, empty field. -/
def qdComposeSubfield : ComposedField := ⟨[], []⟩

/-! ### Counting into the open composite -/

/-- `bump_count`. -/
def bumpCount (field : ComposedField) : ComposedField :=
  match field.fieldStack with
  | [] => field
  | comp :: rest => { field with fieldStack := { comp with count := comp.count + 1 } :: rest }

/-- `bump_length`, and the `comp->length += to_copy` of `qd_insert`. -/
def bumpLength (field : ComposedField) (length : Nat) : ComposedField :=
  match field.fieldStack with
  | [] => field
  | comp :: rest =>
      { field with fieldStack := { comp with length := comp.length + UInt32.ofNat length } :: rest }

/-! ### Inserting octets -/

/-- The buffer `qd_insert` copies into: the tail while it has capacity, else a new
empty buffer. Returns the buffers before it and the buffer. -/
def tailWithRoom (bufferSize : BufferSize) (buffers : List (List UInt8)) :
    List (List UInt8) × List UInt8 :=
  match buffers.getLast? with
  | some tail => if tail.length < bufferSize.size then (buffers.dropLast, tail) else (buffers, [])
  | none => ([], [])

theorem tailWithRoom_room (bufferSize : BufferSize) (buffers : List (List UInt8)) :
    (tailWithRoom bufferSize buffers).2.length < bufferSize.size := by
  unfold tailWithRoom
  split
  · split
    · assumption
    · exact bufferSize.size_pos
  · exact bufferSize.size_pos

/-- `qd_insert`: copy `seq` into the tail buffer, `min(capacity, len)` octets at a time. -/
def qdInsert (bufferSize : BufferSize) (field : ComposedField) (seq : List UInt8) :
    ComposedField :=
  match seq with
  | [] => field
  | octet :: more =>
      let room := tailWithRoom bufferSize field.buffers
      let toCopy := min (bufferSize.size - room.2.length) (octet :: more).length
      let copied := { field with buffers := room.1 ++ [room.2 ++ (octet :: more).take toCopy] }
      qdInsert bufferSize (bumpLength copied toCopy) ((octet :: more).drop toCopy)
termination_by seq.length
decreasing_by
  have room := tailWithRoom_room bufferSize field.buffers
  simp only [List.length_drop, List.length_cons]
  omega

/-- `qd_insert_8`. -/
def qdInsert8 (bufferSize : BufferSize) (field : ComposedField) (value : UInt8) : ComposedField :=
  qdInsert bufferSize field [value]

/-- The octets `qd_insert_32` copies. -/
def insert32Octets (value : UInt32) : List UInt8 :=
  [((value &&& 0xFF000000) >>> 24).toUInt8, ((value &&& 0x00FF0000) >>> 16).toUInt8,
    ((value &&& 0x0000FF00) >>> 8).toUInt8, (value &&& 0x000000FF).toUInt8]

/-- `qd_insert_32`. -/
def qdInsert32 (bufferSize : BufferSize) (field : ComposedField) (value : UInt32) :
    ComposedField :=
  qdInsert bufferSize field (insert32Octets value)

/-- The octets `qd_insert_64` copies. -/
def insert64Octets (value : UInt64) : List UInt8 :=
  [((value &&& 0xFF00000000000000) >>> 56).toUInt8, ((value &&& 0x00FF000000000000) >>> 48).toUInt8,
    ((value &&& 0x0000FF0000000000) >>> 40).toUInt8, ((value &&& 0x000000FF00000000) >>> 32).toUInt8,
    ((value &&& 0x00000000FF000000) >>> 24).toUInt8, ((value &&& 0x0000000000FF0000) >>> 16).toUInt8,
    ((value &&& 0x000000000000FF00) >>> 8).toUInt8, (value &&& 0x00000000000000FF).toUInt8]

/-- `qd_insert_64`. -/
def qdInsert64 (bufferSize : BufferSize) (field : ComposedField) (value : UInt64) :
    ComposedField :=
  qdInsert bufferSize field (insert64Octets value)

/-! ### Back-patching -/

/-- `qd_overwrite`: skip buffers whose end the cursor has reached, then write one
octet and step past it. Past the last buffer nothing is written. -/
def qdOverwrite (value : UInt8) (buffers : List (List UInt8)) (location : FieldLocation) :
    List (List UInt8) × FieldLocation :=
  if inChain : location.buffer < buffers.length then
    let buf := buffers[location.buffer]
    if location.offset ≥ buf.length then qdOverwrite value buffers ⟨location.buffer + 1, 0⟩
    else (buffers.set location.buffer (buf.set location.offset value),
      ⟨location.buffer, location.offset + 1⟩)
  else (buffers, location)
termination_by buffers.length - location.buffer

/-- `qd_overwrite_32`: the four octets of `value`, most significant first. -/
def qdOverwrite32 (location : FieldLocation) (value : UInt32) (buffers : List (List UInt8)) :
    List (List UInt8) :=
  let octets := insert32Octets value
  let first := qdOverwrite (octets[0]!) buffers location
  let second := qdOverwrite (octets[1]!) first.1 first.2
  let third := qdOverwrite (octets[2]!) second.1 second.2
  (qdOverwrite (octets[3]!) third.1 third.2).1

/-! ### Composites -/

/-- Where the next octet will go: the tail buffer and its size. -/
def tailLocation (buffers : List (List UInt8)) : FieldLocation :=
  ⟨buffers.length - 1, (buffers.getLast?.getD []).length⟩

/-- `qd_compose_start_composite`: the tag and two zeroed fields go to the enclosing
composite; the new composite then counts its count field. -/
def qdComposeStartComposite (bufferSize : BufferSize) (field : ComposedField) (isMap : Bool) :
    ComposedField :=
  let tagged := qdInsert8 bufferSize field (if isMap then Tag.map32 else Tag.list32)
  let lengthLocation := tailLocation tagged.buffers
  let sized := qdInsert bufferSize tagged [0, 0, 0, 0]
  let countLocation := tailLocation sized.buffers
  let counted := qdInsert bufferSize sized [0, 0, 0, 0]
  { counted with
    fieldStack := ⟨isMap, 0, 4, lengthLocation, countLocation⟩ :: counted.fieldStack }

/-- `qd_compose_end_composite`: patch the size and count, pop, and add the
composite's octets beyond its already counted fields to the enclosing one. The
source asserts that a composite is open. -/
def qdComposeEndComposite (field : ComposedField) : ComposedField :=
  match field.fieldStack with
  | [] => field
  | comp :: enclosing =>
      let patched := qdOverwrite32 comp.countLocation comp.count
        (qdOverwrite32 comp.lengthLocation comp.length field.buffers)
      { buffers := patched
        fieldStack :=
          match enclosing with
          | [] => []
          | outer :: rest =>
              { outer with length := outer.length + (comp.length - 4),
                           count := outer.count + 1 } :: rest }

def qdComposeStartList (bufferSize : BufferSize) (field : ComposedField) : ComposedField :=
  qdComposeStartComposite bufferSize field false

def qdComposeEndList (field : ComposedField) : ComposedField :=
  qdComposeEndComposite field

def qdComposeStartMap (bufferSize : BufferSize) (field : ComposedField) : ComposedField :=
  qdComposeStartComposite bufferSize field true

def qdComposeEndMap (field : ComposedField) : ComposedField :=
  qdComposeEndComposite field

/-! ### Scalars -/

section Scalars

variable (bufferSize : BufferSize)

def qdComposeInsertNull (field : ComposedField) : ComposedField :=
  bumpCount (qdInsert8 bufferSize field Tag.null)

def qdComposeInsertBool (field : ComposedField) (value : Bool) : ComposedField :=
  bumpCount (qdInsert8 bufferSize field (if value then Tag.boolTrue else Tag.boolFalse))

def qdComposeInsertUint (field : ComposedField) (value : UInt32) : ComposedField :=
  bumpCount <|
    if value = 0 then qdInsert8 bufferSize field Tag.uint0
    else if value < 256 then
      qdInsert8 bufferSize (qdInsert8 bufferSize field Tag.smalluint) value.toUInt8
    else qdInsert32 bufferSize (qdInsert8 bufferSize field Tag.uint) value

def qdComposeInsertUlong (field : ComposedField) (value : UInt64) : ComposedField :=
  bumpCount <|
    if value = 0 then qdInsert8 bufferSize field Tag.ulong0
    else if value < 256 then
      qdInsert8 bufferSize (qdInsert8 bufferSize field Tag.smallulong) value.toUInt8
    else qdInsert64 bufferSize (qdInsert8 bufferSize field Tag.ulong) value

def qdComposeInsertInt (field : ComposedField) (value : Int32) : ComposedField :=
  bumpCount <|
    if -128 ≤ value ∧ value ≤ 127 then
      qdInsert8 bufferSize (qdInsert8 bufferSize field Tag.smallint) value.toUInt32.toUInt8
    else qdInsert32 bufferSize (qdInsert8 bufferSize field Tag.int) value.toUInt32

def qdComposeInsertLong (field : ComposedField) (value : Int64) : ComposedField :=
  bumpCount <|
    if -128 ≤ value ∧ value ≤ 127 then
      qdInsert8 bufferSize (qdInsert8 bufferSize field Tag.smalllong) value.toUInt64.toUInt8
    else qdInsert64 bufferSize (qdInsert8 bufferSize field Tag.long) value.toUInt64

def qdComposeInsertTimestamp (field : ComposedField) (value : UInt64) : ComposedField :=
  bumpCount (qdInsert64 bufferSize (qdInsert8 bufferSize field Tag.timestamp) value)

def qdComposeInsertUuid (field : ComposedField) (value : Uuid) : ComposedField :=
  bumpCount (qdInsert bufferSize (qdInsert8 bufferSize field Tag.uuid) value.octets)

/-- `qd_compose_insert_binary(field, value, len)`: `len` octets of `value`. -/
def qdComposeInsertBinary (field : ComposedField) (value : List UInt8) (len : UInt32) :
    ComposedField :=
  let header :=
    if len < 256 then qdInsert8 bufferSize (qdInsert8 bufferSize field Tag.vbin8) len.toUInt8
    else qdInsert32 bufferSize (qdInsert8 bufferSize field Tag.vbin32) len
  bumpCount (qdInsert bufferSize header (value.take len.toNat))

/-- `qd_compose_insert_string_n`: the length is a `size_t`, written as 32 bits. -/
def qdComposeInsertStringN (field : ComposedField) (value : List UInt8) (len : Nat) :
    ComposedField :=
  let header :=
    if len < 256 then
      qdInsert8 bufferSize (qdInsert8 bufferSize field Tag.str8Utf8) (UInt8.ofNat len)
    else qdInsert32 bufferSize (qdInsert8 bufferSize field Tag.str32Utf8) (UInt32.ofNat len)
  bumpCount (qdInsert bufferSize header (value.take len))

/-- `qd_compose_insert_symbol`: `uint32_t len = strlen(value)`. -/
def qdComposeInsertSymbol (field : ComposedField) (value : CString) : ComposedField :=
  let len : UInt32 := UInt32.ofNat value.octets.length
  let header :=
    if len < 256 then qdInsert8 bufferSize (qdInsert8 bufferSize field Tag.sym8) len.toUInt8
    else qdInsert32 bufferSize (qdInsert8 bufferSize field Tag.sym32) len
  bumpCount (qdInsert bufferSize header (value.octets.take len.toNat))

end Scalars

/-! ### Composing a value tree -/

mutual

/-- The composer calls that build a value tree: a scalar is one insert, a list or
map is its start, its elements, and its end. -/
def composeValue (bufferSize : BufferSize) : Value → ComposedField → ComposedField
  | .null, field => qdComposeInsertNull bufferSize field
  | .bool value, field => qdComposeInsertBool bufferSize field value
  | .uint value, field => qdComposeInsertUint bufferSize field value
  | .ulong value, field => qdComposeInsertUlong bufferSize field value
  | .int value, field => qdComposeInsertInt bufferSize field value
  | .long value, field => qdComposeInsertLong bufferSize field value
  | .timestamp value, field => qdComposeInsertTimestamp bufferSize field value
  | .uuid value, field => qdComposeInsertUuid bufferSize field value
  | .binary value, field =>
      qdComposeInsertBinary bufferSize field value (UInt32.ofNat value.length)
  | .string value, field => qdComposeInsertStringN bufferSize field value value.length
  | .symbol value, field => qdComposeInsertSymbol bufferSize field value
  | .list elements, field =>
      qdComposeEndList (composeAll bufferSize elements (qdComposeStartList bufferSize field))
  | .map elements, field =>
      qdComposeEndMap (composeAll bufferSize elements (qdComposeStartMap bufferSize field))

/-- The elements of a composite, one after another. -/
def composeAll (bufferSize : BufferSize) : List Value → ComposedField → ComposedField
  | [], field => field
  | value :: rest, field => composeAll bufferSize rest (composeValue bufferSize value field)

end

end DispatchRouter.Amqp
