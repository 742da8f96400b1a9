/-
# AMQP values and their encoding

The type codes of `amqp.h`, the value trees that `qd_compose_*` can build, and
the AMQP 1.0 encoding the composer is meant to produce for each of them: the
compact forms chosen by value (`uint0`, `smalluint`, `str8` and the rest) and
32-bit sized lists and maps. Sizes and counts are `uint32` fields, so a length
is written as its remainder modulo `2 ^ 32`, and a binary or symbol, whose
length the composer takes as a `uint32`, keeps only that many octets;
`Value.fits` says when nothing was lost that way.

This module is the abstract layer of the codec: `Compose` is shown to produce
`encode`, and `Parse` to read it back.
-/

import DispatchRouter.Math.Octets

namespace DispatchRouter.Amqp

/-! ### Type codes -/

namespace Tag

def null : UInt8 := 0x40
def boolean : UInt8 := 0x56
def boolTrue : UInt8 := 0x41
def boolFalse : UInt8 := 0x42
def ubyte : UInt8 := 0x50
def ushort : UInt8 := 0x60
def uint : UInt8 := 0x70
def smalluint : UInt8 := 0x52
def uint0 : UInt8 := 0x43
def ulong : UInt8 := 0x80
def smallulong : UInt8 := 0x53
def ulong0 : UInt8 := 0x44
def byte : UInt8 := 0x51
def short : UInt8 := 0x61
def int : UInt8 := 0x71
def smallint : UInt8 := 0x54
def long : UInt8 := 0x81
def smalllong : UInt8 := 0x55
def timestamp : UInt8 := 0x83
def uuid : UInt8 := 0x98
def vbin8 : UInt8 := 0xa0
def vbin32 : UInt8 := 0xb0
def str8Utf8 : UInt8 := 0xa1
def str32Utf8 : UInt8 := 0xb1
def sym8 : UInt8 := 0xa3
def sym32 : UInt8 := 0xb3
def list0 : UInt8 := 0x45
def list8 : UInt8 := 0xc0
def list32 : UInt8 := 0xd0
def map8 : UInt8 := 0xc1
def map32 : UInt8 := 0xd1

end Tag

/-! ### Value trees -/

/-- The sixteen octets `qd_compose_insert_uuid` copies. -/
structure Uuid where
  octets : List UInt8
  length_eq : octets.length = 16
  deriving DecidableEq

/-- The octets of a C string: it ends at its first zero octet, so it holds none. -/
structure CString where
  octets : List UInt8
  no_nul : 0 ∉ octets
  deriving DecidableEq

/-- A value tree built by the composer's operations. `string` is composed with
`qd_compose_insert_string_n`, so it may hold any octets; `symbol` is a C string.
A map lists its keys and values alternately. -/
inductive Value
  | null
  | bool (value : Bool)
  | uint (value : UInt32)
  | ulong (value : UInt64)
  | int (value : Int32)
  | long (value : Int64)
  | timestamp (value : UInt64)
  | uuid (value : Uuid)
  | binary (value : List UInt8)
  | string (value : List UInt8)
  | symbol (value : CString)
  | list (elements : List Value)
  | map (elements : List Value)

/-! ### Words as octets -/

/-- The four octets of a 32-bit word, most significant first. -/
def be32 (word : UInt32) : List UInt8 :=
  [.ofNat (word.toNat / 2 ^ 24), .ofNat (word.toNat / 2 ^ 16), .ofNat (word.toNat / 2 ^ 8),
    .ofNat word.toNat]

/-- The eight octets of a 64-bit word, most significant first. -/
def be64 (word : UInt64) : List UInt8 :=
  [.ofNat (word.toNat / 2 ^ 56), .ofNat (word.toNat / 2 ^ 48), .ofNat (word.toNat / 2 ^ 40),
    .ofNat (word.toNat / 2 ^ 32), .ofNat (word.toNat / 2 ^ 24), .ofNat (word.toNat / 2 ^ 16),
    .ofNat (word.toNat / 2 ^ 8), .ofNat word.toNat]

@[simp] theorem length_be32 (word : UInt32) : (be32 word).length = 4 := rfl

@[simp] theorem length_be64 (word : UInt64) : (be64 word).length = 8 := rfl

/-! ### The encoding -/

/-- A variable-width value whose size field holds `len`: one octet below 256, else four. -/
def sized (tag8 tag32 : UInt8) (len : UInt32) (octets : List UInt8) : List UInt8 :=
  if len < 256 then tag8 :: len.toUInt8 :: octets else tag32 :: be32 len ++ octets

/-- A 32-bit compound: its size counts the count field and the elements. -/
def compound (tag : UInt8) (content : List UInt8) (count : Nat) : List UInt8 :=
  tag :: be32 (UInt32.ofNat (4 + content.length)) ++ be32 (UInt32.ofNat count) ++ content

mutual

/-- The octets the composer writes for a value tree. -/
def encode : Value → List UInt8
  | .null => [Tag.null]
  | .bool value => [if value then Tag.boolTrue else Tag.boolFalse]
  | .uint value =>
      if value = 0 then [Tag.uint0]
      else if value < 256 then [Tag.smalluint, value.toUInt8]
      else Tag.uint :: be32 value
  | .ulong value =>
      if value = 0 then [Tag.ulong0]
      else if value < 256 then [Tag.smallulong, value.toUInt8]
      else Tag.ulong :: be64 value
  | .int value =>
      if -128 ≤ value ∧ value ≤ 127 then [Tag.smallint, value.toUInt32.toUInt8]
      else Tag.int :: be32 value.toUInt32
  | .long value =>
      if -128 ≤ value ∧ value ≤ 127 then [Tag.smalllong, value.toUInt64.toUInt8]
      else Tag.long :: be64 value.toUInt64
  | .timestamp value => Tag.timestamp :: be64 value
  | .uuid value => Tag.uuid :: value.octets
  | .binary value =>
      sized Tag.vbin8 Tag.vbin32 (UInt32.ofNat value.length)
        (value.take (UInt32.ofNat value.length).toNat)
  | .string value =>
      if value.length < 256 then Tag.str8Utf8 :: UInt8.ofNat value.length :: value
      else Tag.str32Utf8 :: be32 (UInt32.ofNat value.length) ++ value
  | .symbol value =>
      sized Tag.sym8 Tag.sym32 (UInt32.ofNat value.octets.length)
        (value.octets.take (UInt32.ofNat value.octets.length).toNat)
  | .list elements => compound Tag.list32 (encodeAll elements) elements.length
  | .map elements => compound Tag.map32 (encodeAll elements) elements.length

/-- The octets of a sequence of elements, one after another. -/
def encodeAll : List Value → List UInt8
  | [] => []
  | value :: rest => encode value ++ encodeAll rest

end

mutual

/-- No size or count of the tree overflows its `uint32` field. -/
def Value.fits : Value → Bool
  | .binary value => value.length < 2 ^ 32
  | .string value => value.length < 2 ^ 32
  | .symbol value => value.octets.length < 2 ^ 32
  | .list elements | .map elements =>
      4 + (encodeAll elements).length < 2 ^ 32 && elements.length < 2 ^ 32 &&
        Value.fitsAll elements
  | _ => true

/-- Every element fits. -/
def Value.fitsAll : List Value → Bool
  | [] => true
  | value :: rest => value.fits && Value.fitsAll rest

end

mutual

/-- Every map of the tree lists an even number of elements. -/
def Value.evenMaps : Value → Bool
  | .list elements => Value.evenMapsAll elements
  | .map elements => elements.length % 2 == 0 && Value.evenMapsAll elements
  | _ => true

/-- Every element has even maps. -/
def Value.evenMapsAll : List Value → Bool
  | [] => true
  | value :: rest => value.evenMaps && Value.evenMapsAll rest

end

@[simp] theorem encodeAll_nil : encodeAll [] = [] := by simp [encodeAll]

@[simp] theorem encodeAll_cons (value : Value) (rest : List Value) :
    encodeAll (value :: rest) = encode value ++ encodeAll rest := by
  simp [encodeAll]

theorem encodeAll_append (first second : List Value) :
    encodeAll (first ++ second) = encodeAll first ++ encodeAll second := by
  induction first with
  | nil => simp
  | cons value rest ih => simp [ih]

end DispatchRouter.Amqp
