/-
# Composing and parsing back

The composer's output for a value tree, parsed with `qd_parse`, gives the tree
back: the parse reads exactly the octets written and fails nowhere, every
compound's size field counts the octets after it and its count field its
elements, and every scalar comes back through the accessor for its type. This
holds for every buffer size and every tree whose sizes and counts fit their
`uint32` fields and whose maps have an even number of elements. A tree that
does not fit loses what the fields cannot hold: a string of `2 ^ 32` octets is
written with a size of zero, and the parse stops, without error, after its header.
-/

import DispatchRouter.Amqp.ComposeSpec
import DispatchRouter.Amqp.Parse

namespace DispatchRouter.Amqp

open Math.Octets

/-! ### Words read back -/

/-- An octet shifted into a 32-bit word below its top octet does not overflow. -/
theorem toNat_octet_shiftLeft (octet : UInt8) (shift : UInt32) (small : shift.toNat ≤ 24) :
    (octet.toUInt32 <<< shift).toNat = octet.toNat <<< shift.toNat := by
  have bound := octet.toNat_lt
  rw [UInt32.toNat_shiftLeft, UInt8.toNat_toUInt32, Nat.mod_eq_of_lt (by omega : shift.toNat < 32),
    Nat.shiftLeft_eq, Nat.mod_eq_of_lt]
  calc octet.toNat * 2 ^ shift.toNat < 2 ^ 8 * 2 ^ shift.toNat :=
        Nat.mul_lt_mul_of_pos_right bound (Nat.two_pow_pos _)
    _ = 2 ^ (8 + shift.toNat) := (Nat.pow_add 2 8 _).symm
    _ ≤ 2 ^ 32 := Nat.pow_le_pow_right (by decide) (by omega)

/-- `qd_parse_uint32_decode` of the four low octets of `n` gives `n` modulo `2 ^ 32`. -/
theorem qdParseUint32Decode_octets (n : Nat) :
    qdParseUint32Decode (.ofNat (n / 2 ^ 24)) (.ofNat (n / 2 ^ 16)) (.ofNat (n / 2 ^ 8))
      (.ofNat n) = UInt32.ofNat n := by
  apply UInt32.toNat_inj.mp
  simp only [qdParseUint32Decode, UInt32.toNat_or, UInt8.toNat_toUInt32,
    toNat_octet_shiftLeft _ 24 (by decide), toNat_octet_shiftLeft _ 16 (by decide),
    toNat_octet_shiftLeft _ 8 (by decide), UInt8.toNat_ofNat', UInt32.reduceToNat,
    UInt32.toNat_ofNat']
  rw [assemble_four _ _ _ _ (Nat.mod_lt _ (by decide)) (Nat.mod_lt _ (by decide))
    (Nat.mod_lt _ (by decide))]
  omega

@[simp] theorem qdBufferFieldUint32_be32 (word : UInt32) (rest : List UInt8) :
    qdBufferFieldUint32 (be32 word ++ rest) = some (word, rest) := by
  simp only [be32, List.cons_append, List.nil_append, qdBufferFieldUint32,
    qdParseUint32Decode_octets, UInt32.ofNat_toNat]

@[simp] theorem qdBufferFieldUint32_be32_nil (word : UInt32) :
    qdBufferFieldUint32 (be32 word) = some (word, []) := by
  simpa using qdBufferFieldUint32_be32 word []

/-- The eight octets of a 64-bit word are those of its high word, then of its low word. -/
theorem be64_eq_be32_append (word : UInt64) :
    be64 word = be32 (UInt32.ofNat (word.toNat / 2 ^ 32)) ++ be32 (UInt32.ofNat word.toNat) := by
  simp only [be64, be32, List.cons_append, List.nil_append, List.cons.injEq, and_true]
  refine ⟨?_, ?_, ?_, ?_, ?_, ?_, ?_, ?_⟩ <;>
  · apply UInt8.toNat_inj.mp
    simp only [UInt8.toNat_ofNat', UInt32.toNat_ofNat']
    omega

/-- The high and low words joined as `qd_parse_as_ulong` joins them give the word back. -/
theorem join_words (word : UInt64) :
    (UInt32.ofNat (word.toNat / 2 ^ 32)).toUInt64 <<< 32 ||| (UInt32.ofNat word.toNat).toUInt64 =
      word := by
  apply UInt64.toNat_inj.mp
  have low : word.toNat % 2 ^ 32 < 2 ^ 32 := Nat.mod_lt _ (by decide)
  have bound := word.toNat_lt
  have high : (word.toNat / 2 ^ 32 % 2 ^ 32) <<< 32 < 2 ^ 64 := by
    rw [Nat.shiftLeft_eq]
    omega
  simp only [UInt64.toNat_or, UInt64.toNat_shiftLeft, UInt32.toNat_toUInt64, UInt32.toNat_ofNat',
    UInt64.reduceToNat, Nat.reduceMod]
  rw [Nat.mod_eq_of_lt high, ← Nat.shiftLeft_add_eq_or_of_lt low, Nat.shiftLeft_eq]
  omega

/-- Both words of a 64-bit field, as `qd_parse_as_ulong` and `qd_parse_as_long` read them. -/
theorem uint32Or_be64 (word : UInt64) :
    let high := uint32Or 0 (be64 word)
    (uint32Or high.1 high.2).1 = UInt32.ofNat word.toNat ∧
      high.1 = UInt32.ofNat (word.toNat / 2 ^ 32) := by
  rw [be64_eq_be32_append, ← List.append_nil (be32 (UInt32.ofNat word.toNat))]
  simp only [uint32Or, qdBufferFieldUint32_be32, Option.getD_some, and_self]

/-! ### Small and signed integers -/

theorem toUInt32_of_octet {value : UInt32} (small : value < 256) :
    value.toUInt8.toUInt64.toUInt32 = value := by
  apply UInt32.toNat_inj.mp
  have small : value.toNat < 256 := UInt32.lt_iff_toNat_lt.mp small
  simp only [UInt64.toNat_toUInt32, UInt8.toNat_toUInt64, UInt32.toNat_toUInt8]
  omega

theorem toUInt64_of_octet {value : UInt64} (small : value < 256) :
    value.toUInt8.toUInt64 = value := by
  apply UInt64.toNat_inj.mp
  have small : value.toNat < 256 := UInt64.lt_iff_toNat_lt.mp small
  simp only [UInt8.toNat_toUInt64, UInt64.toNat_toUInt8]
  omega

/-- A 32-bit integer between `-128` and `127` survives being cut to its low octet
and read back as a signed octet, widened, then narrowed. -/
theorem toInt32_of_octet {value : Int32} (lo : -128 ≤ value) (hi : value ≤ 127) :
    value.toUInt32.toUInt8.toInt8.toInt64.toInt32 = value := by
  rw [Int32.le_iff_toInt_le] at lo hi
  have toInt : value.toInt = (value.toUInt32.toNat : Int).bmod (2 ^ 32) :=
    BitVec.toInt_eq_toNat_bmod _
  have toUInt8 : value.toUInt32.toUInt8 = UInt8.ofNat value.toUInt32.toNat := rfl
  have m128 : (-128 : Int32).toInt = -128 := by decide
  have p127 : (127 : Int32).toInt = 127 := by decide
  rw [m128, toInt] at lo
  rw [p127, toInt] at hi
  rw [← Int32.toInt_inj, toUInt8, UInt8.toInt8_ofNat', Int64.toInt_toInt32, Int8.toInt_toInt64,
    Int8.toInt_ofNat', Int8.size, toInt, bmod_octet _ _ (by decide) lo (by omega), Int.bmod_bmod]

/-- The same for a 64-bit integer. -/
theorem toInt64_of_octet {value : Int64} (lo : -128 ≤ value) (hi : value ≤ 127) :
    value.toUInt64.toUInt8.toInt8.toInt64 = value := by
  rw [Int64.le_iff_toInt_le] at lo hi
  have toInt : value.toInt = (value.toUInt64.toNat : Int).bmod (2 ^ 64) :=
    BitVec.toInt_eq_toNat_bmod _
  have toUInt8 : value.toUInt64.toUInt8 = UInt8.ofNat value.toUInt64.toNat := rfl
  have m128 : (-128 : Int64).toInt = -128 := by decide
  have p127 : (127 : Int64).toInt = 127 := by decide
  rw [m128, toInt] at lo
  rw [p127, toInt] at hi
  rw [← Int64.toInt_inj, toUInt8, UInt8.toInt8_ofNat', Int8.toInt_toInt64, Int8.toInt_ofNat',
    Int8.size, toInt, bmod_octet _ _ (by decide) lo (by omega)]

/-- The range check of `qd_parse_as_int`, on the integer value. -/
theorem int32_range {wide : Int64} (lo : -2 ^ 31 ≤ wide.toInt) (hi : wide.toInt < 2 ^ 31) :
    -0x80000000 ≤ wide ∧ wide ≤ 0x7FFFFFFF := by
  have m : (-0x80000000 : Int64).toInt = -0x80000000 := by decide
  have p : (0x7FFFFFFF : Int64).toInt = 0x7FFFFFFF := by decide
  rw [Int64.le_iff_toInt_le, Int64.le_iff_toInt_le, m, p]
  omega

/-- A 32-bit integer widened to 64 bits passes it. -/
theorem int32_range_toInt64 (value : Int32) :
    -0x80000000 ≤ value.toInt64 ∧ value.toInt64 ≤ 0x7FFFFFFF := by
  have lo := value.le_toInt
  have hi := value.toInt_lt
  rw [← Int32.toInt_toInt64] at lo hi
  exact int32_range lo hi

/-- So does a signed octet. -/
theorem int32_range_int8 (octet : Int8) :
    -0x80000000 ≤ octet.toInt64 ∧ octet.toInt64 ≤ 0x7FFFFFFF := by
  have lo := octet.le_toInt
  have hi := octet.toInt_lt
  rw [← Int8.toInt_toInt64] at lo hi
  exact int32_range (by omega) (by omega)

theorem octet_le_uint32Max (octet : UInt8) : octet.toUInt64 ≤ 0xFFFFFFFF := by
  have bound := octet.toNat_lt
  rw [UInt64.le_iff_toNat_le, UInt8.toNat_toUInt64]
  exact Nat.le_of_lt_succ (Nat.lt_of_lt_of_le bound (by decide))

theorem uint32_le_uint32Max (word : UInt32) : word.toUInt64 ≤ 0xFFFFFFFF := by
  have bound := word.toNat_lt
  rw [UInt64.le_iff_toNat_le, UInt32.toNat_toUInt64]
  exact Nat.le_of_lt_succ bound

/-! ### Accessors on fields that decode their own octets -/

section Accessors

variable (sscanfU64 : List UInt8 → Option UInt64) (sscanfI64 : List UInt8 → Option Int64)

theorem qdParseAsUlong_of_value {field : ParsedField} {result : UInt64}
    (read : ulongOfValue field.amqp.tag field.amqp.value = some result) :
    qdParseAsUlong sscanfU64 field = (result, field.parseError) := by
  simp only [qdParseAsUlong, read]

theorem qdParseAsLong_of_value {field : ParsedField} {result : Int64}
    (read : longOfValue field.amqp.tag field.amqp.value = some result) :
    qdParseAsLong sscanfI64 field = (result, field.parseError) := by
  simp only [qdParseAsLong, read]

theorem qdParseAsUint_of_ulong {field : ParsedField} {result : UInt64}
    (read : qdParseAsUlong sscanfU64 field = (result, none)) (fits : result ≤ 0xFFFFFFFF) :
    qdParseAsUint sscanfU64 field = (result.toUInt32, none) := by
  simp only [qdParseAsUint, read, fits, if_true]

theorem qdParseAsInt_of_long {field : ParsedField} {result : Int64}
    (read : qdParseAsLong sscanfI64 field = (result, none))
    (fits : -0x80000000 ≤ result ∧ result ≤ 0x7FFFFFFF) :
    qdParseAsInt sscanfI64 field = (result.toInt32, none) := by
  simp only [qdParseAsInt, read, fits, and_self, if_true]

end Accessors

/-! ### What a parsed tree gives back -/

section Recovery

variable (sscanfU64 : List UInt8 → Option UInt64) (sscanfI64 : List UInt8 → Option Int64)

mutual

/-- A parsed field gives `value` back: a scalar through the accessor for its
type, without children; a list or map through its elements, with a size field
that counts the octets after it and a count field that counts the elements. -/
def Recovers : Value → ParsedField → Prop
  | .null, field => qdParseTag field = Tag.null ∧ field.children = []
  | .bool value, field => qdParseAsBool field = value ∧ field.children = []
  | .uint value, field => qdParseAsUint sscanfU64 field = (value, none) ∧ field.children = []
  | .ulong value, field => qdParseAsUlong sscanfU64 field = (value, none) ∧ field.children = []
  | .int value, field => qdParseAsInt sscanfI64 field = (value, none) ∧ field.children = []
  | .long value, field => qdParseAsLong sscanfI64 field = (value, none) ∧ field.children = []
  | .timestamp value, field =>
      qdParseAsUlong sscanfU64 field = (value, none) ∧ field.children = []
  | .uuid value, field => qdParseRaw field = value.octets ∧ field.children = []
  | .binary value, field => qdParseRaw field = value ∧ field.children = []
  | .string value, field => qdParseRaw field = value ∧ field.children = []
  | .symbol value, field => qdParseRaw field = value.octets ∧ field.children = []
  | .list elements, field =>
      qdParseIsList field ∧ field.amqp.size.toNat + 5 = field.fullField.length ∧
        field.amqp.count.toNat = elements.length ∧ RecoversAll elements field.children
  | .map elements, field =>
      qdParseIsMap field ∧ field.amqp.size.toNat + 5 = field.fullField.length ∧
        field.amqp.count.toNat = elements.length ∧ RecoversAll elements field.children

/-- Parsed elements give the elements back, one for one. -/
def RecoversAll : List Value → List ParsedField → Prop
  | [], [] => True
  | value :: rest, field :: fields => Recovers value field ∧ RecoversAll rest fields
  | _, _ => False

end

/-- The octets of `value` followed by `rest` parse to a field that gives `value`
back, and the read stops where `rest` begins. -/
structure ReadsBack (value : Value) (rest : List UInt8) : Prop where
  rest_eq : (parseAmqpField (encode value ++ rest)).rest = rest
  ok : (qdParseInternal (encode value ++ rest)).parseError = none
  full : (qdParseInternal (encode value ++ rest)).fullField = encode value
  recovers : Recovers sscanfU64 sscanfI64 value (qdParseInternal (encode value ++ rest))

theorem take_append_length_sub (front rest : List UInt8) :
    (front ++ rest).take ((front ++ rest).length - rest.length) = front := by
  rw [List.length_append, Nat.add_sub_cancel, List.take_left]

/-- A value without elements reads back when its header reads back and the
field with no children gives it back. -/
theorem ReadsBack.scalar {value : Value} {rest : List UInt8} (amqp : AmqpField)
    (read : parseAmqpField (encode value ++ rest) = ⟨amqp, rest, none⟩) (scalar : amqp.count = 0)
    (recovers : Recovers sscanfU64 sscanfI64 value ⟨encode value, amqp, [], none⟩) :
    ReadsBack sscanfU64 sscanfI64 value rest := by
  have parsed := qdParseInternal_of_read read
  rw [scalar, UInt32.toNat_zero, parseChildren_zero, take_append_length_sub] at parsed
  exact ⟨by rw [read], by rw [parsed], by rw [parsed], by rw [parsed]; exact recovers⟩

/-- A fixed-width value: its type code announces its size, and the value follows. -/
theorem parseAmqpField_fixed (tag : UInt8) (size : UInt32) (content rest : List UInt8)
    (header : ∀ after, readSizeAndCount tag after = ⟨{ tag := tag, size := size }, after, none⟩)
    (uncounted : tagGetCountLength tag = 0) (length : size.toNat = content.length) :
    parseAmqpField (tag :: (content ++ rest)) =
      ⟨{ tag := tag, size := size, value := content }, rest, none⟩ :=
  parseAmqpField_of_header (header (content ++ rest))
    (fun odd => odd.2 (show (0 : UInt32) &&& 1 = 0 by decide))
    (by rw [uncounted, length, Nat.zero_add])

/-- A fixed-width value reads back when the field holding its octets gives it back. -/
theorem ReadsBack.fixed {value : Value} {rest : List UInt8} (tag : UInt8) (size : UInt32)
    (content : List UInt8) (encoded : encode value = tag :: content)
    (header : ∀ after, readSizeAndCount tag after = ⟨{ tag := tag, size := size }, after, none⟩)
    (uncounted : tagGetCountLength tag = 0) (length : size.toNat = content.length)
    (recovers : Recovers sscanfU64 sscanfI64 value
      ⟨tag :: content, { tag := tag, size := size, value := content }, [], none⟩) :
    ReadsBack sscanfU64 sscanfI64 value rest := by
  refine ReadsBack.scalar _ _ { tag := tag, size := size, value := content } ?_ rfl ?_
  · rw [encoded]
    exact parseAmqpField_fixed tag size content rest header uncounted length
  · rw [encoded]
    exact recovers

/-- A 32-bit compound: its size and count read back, its value is its content. -/
theorem parseAmqpField_compound (tag : UInt8)
    (wide : ∀ bfield, readSizeAndCount tag bfield = readSizeThenCount qdBufferFieldUint32 tag bfield)
    (counted : tagGetCountLength tag = 4) (content rest : List UInt8) (count : Nat)
    (size : 4 + content.length < 2 ^ 32)
    (notOddMap : ¬((tag = Tag.map8 ∨ tag = Tag.map32) ∧ UInt32.ofNat count &&& 1 ≠ 0)) :
    parseAmqpField (compound tag content count ++ rest) =
      ⟨{ tag := tag, size := UInt32.ofNat (4 + content.length),
         count := UInt32.ofNat count, value := content }, rest, none⟩ := by
  have header : readSizeAndCount tag
      (be32 (UInt32.ofNat (4 + content.length)) ++ (be32 (UInt32.ofNat count) ++ (content ++ rest))) =
      ⟨{ tag := tag, size := UInt32.ofNat (4 + content.length), count := UInt32.ofNat count },
        content ++ rest, none⟩ := by
    simp [wide, readSizeThenCount, counted]
  simp only [compound, List.cons_append, List.append_assoc]
  refine parseAmqpField_of_header header notOddMap ?_
  show (UInt32.ofNat (4 + content.length)).toNat = _
  rw [UInt32.toNat_ofNat', Nat.mod_eq_of_lt size, counted]

@[simp] theorem length_compound (tag : UInt8) (content : List UInt8) (count : Nat) :
    (compound tag content count).length = 9 + content.length := by
  simp only [compound, List.length_cons, List.length_append, length_be32]

/-- A 32-bit compound followed by `rest` parses to its header, with its elements
parsed from its content as children. -/
theorem qdParseInternal_compound (tag : UInt8)
    (wide : ∀ bfield, readSizeAndCount tag bfield = readSizeThenCount qdBufferFieldUint32 tag bfield)
    (counted : tagGetCountLength tag = 4) (content rest : List UInt8) (count : Nat)
    (size : 4 + content.length < 2 ^ 32) (fewer : count < 2 ^ 32)
    (notOddMap : ¬((tag = Tag.map8 ∨ tag = Tag.map32) ∧ UInt32.ofNat count &&& 1 ≠ 0)) :
    qdParseInternal (compound tag content count ++ rest) =
      ⟨compound tag content count,
        { tag := tag, size := UInt32.ofNat (4 + content.length),
          count := UInt32.ofNat count, value := content },
        (parseChildren count content).1, (parseChildren count content).2⟩ := by
  have counts : (UInt32.ofNat count).toNat = count := by
    rw [UInt32.toNat_ofNat', Nat.mod_eq_of_lt fewer]
  rw [qdParseInternal_of_read (parseAmqpField_compound tag wide counted content rest count size notOddMap),
    take_append_length_sub]
  simp only [counts]

/-- A variable-width value written with `sized` reads back as its octets, with
the one-octet or the four-octet size field. -/
theorem parseAmqpField_sized {tag8 tag32 : UInt8}
    (narrow : ∀ bfield, readSizeAndCount tag8 bfield = readSizeThenCount octetAsUint32 tag8 bfield)
    (wide : ∀ bfield, readSizeAndCount tag32 bfield = readSizeThenCount qdBufferFieldUint32 tag32 bfield)
    (uncounted8 : tagGetCountLength tag8 = 0) (uncounted32 : tagGetCountLength tag32 = 0)
    (notMap8 : ¬(tag8 = Tag.map8 ∨ tag8 = Tag.map32))
    (notMap32 : ¬(tag32 = Tag.map8 ∨ tag32 = Tag.map32))
    (len : UInt32) (octets rest : List UInt8) (length : octets.length = len.toNat) :
    ∃ tag, parseAmqpField (sized tag8 tag32 len octets ++ rest) =
      ⟨{ tag := tag, size := len, value := octets }, rest, none⟩ := by
  unfold sized
  split_ifs with short
  · -- one size octet, which holds the whole length
    have octet : len.toUInt8.toUInt32 = len := by
      apply UInt32.toNat_inj.mp
      have small : len.toNat < 256 := UInt32.lt_iff_toNat_lt.mp short
      simp only [UInt8.toNat_toUInt32, UInt32.toNat_toUInt8]
      omega
    have header : readSizeAndCount tag8 (len.toUInt8 :: (octets ++ rest)) =
        ⟨{ tag := tag8, size := len }, octets ++ rest, none⟩ := by
      rw [narrow]
      simp [readSizeThenCount, octetAsUint32, qdBufferFieldOctet, uncounted8, octet]
    exact ⟨tag8, parseAmqpField_of_header header (fun odd => notMap8 odd.1)
      (by rw [uncounted8, length, Nat.zero_add])⟩
  · have header : readSizeAndCount tag32 (be32 len ++ (octets ++ rest)) =
        ⟨{ tag := tag32, size := len }, octets ++ rest, none⟩ := by
      rw [wide]
      simp [readSizeThenCount, uncounted32]
    exact ⟨tag32, parseAmqpField_of_header header (fun odd => notMap32 odd.1)
      (by rw [uncounted32, length, Nat.zero_add])⟩

/-- With its length below `2 ^ 32`, a string is written as `sized` writes it. -/
theorem encode_string (value : List UInt8) (fits : value.length < 2 ^ 32) :
    encode (.string value) =
      sized Tag.str8Utf8 Tag.str32Utf8 (UInt32.ofNat value.length) value := by
  have length : (UInt32.ofNat value.length).toNat = value.length := by
    rw [UInt32.toNat_ofNat', Nat.mod_eq_of_lt fits]
  have short : (UInt32.ofNat value.length < 256) ↔ value.length < 256 := by
    rw [UInt32.lt_iff_toNat_lt, length]
    rfl
  have octet : (UInt32.ofNat value.length).toUInt8 = UInt8.ofNat value.length := by
    apply UInt8.toNat_inj.mp
    rw [UInt32.toNat_toUInt8, length, UInt8.toNat_ofNat']
  simp only [encode, sized, short, octet]

/-- A binary or a symbol whose length fits its `uint32` is written whole. -/
theorem take_ofNat_length (value : List UInt8) (fits : value.length < 2 ^ 32) :
    value.take (UInt32.ofNat value.length).toNat = value := by
  rw [UInt32.toNat_ofNat', Nat.mod_eq_of_lt fits, List.take_length]

/-! ### Each kind of value reads back -/

theorem readsBack_null (rest : List UInt8) : ReadsBack sscanfU64 sscanfI64 .null rest :=
  ReadsBack.fixed _ _ Tag.null 0 [] rfl (fun _ => rfl) rfl rfl ⟨rfl, rfl⟩

theorem readsBack_bool (value : Bool) (rest : List UInt8) :
    ReadsBack sscanfU64 sscanfI64 (.bool value) rest := by
  cases value with
  | true => exact ReadsBack.fixed _ _ Tag.boolTrue 0 [] rfl (fun _ => rfl) rfl rfl ⟨rfl, rfl⟩
  | false => exact ReadsBack.fixed _ _ Tag.boolFalse 0 [] rfl (fun _ => rfl) rfl rfl ⟨rfl, rfl⟩

theorem readsBack_uint (value : UInt32) (rest : List UInt8) :
    ReadsBack sscanfU64 sscanfI64 (.uint value) rest := by
  by_cases zero : value = 0
  · subst zero
    exact ReadsBack.fixed _ _ Tag.uint0 0 [] rfl (fun _ => rfl) rfl rfl ⟨rfl, rfl⟩
  by_cases small : value < 256
  · -- `smalluint`: one octet
    refine ReadsBack.fixed _ _ Tag.smalluint 1 [value.toUInt8]
      (by simp only [encode, zero, small, if_false, if_true]) (fun _ => rfl) rfl rfl ⟨?_, rfl⟩
    have read : ulongOfValue Tag.smalluint [value.toUInt8] = some value.toUInt8.toUInt64 := rfl
    rw [qdParseAsUint_of_ulong _ (qdParseAsUlong_of_value _ read) (octet_le_uint32Max _),
      toUInt32_of_octet small]
  · -- `uint`: four octets
    have read : ulongOfValue Tag.uint (be32 value) = some value.toUInt64 := by
      have tagged : ulongOfValue Tag.uint (be32 value) = some (uint32Or 0 (be32 value)).1.toUInt64 :=
        rfl
      rw [tagged, uint32Or, qdBufferFieldUint32_be32_nil]
      rfl
    refine ReadsBack.fixed _ _ Tag.uint 4 (be32 value) (by simp only [encode, zero, small, if_false])
      (fun _ => rfl) rfl rfl ⟨?_, rfl⟩
    rw [qdParseAsUint_of_ulong _ (qdParseAsUlong_of_value _ read) (uint32_le_uint32Max _),
      UInt32.toUInt32_toUInt64]

/-- `qd_parse_as_ulong` reads a `ulong` or a `timestamp` back from its eight octets. -/
theorem ulongOfValue_be64 {tag : UInt8} (wide : tag = Tag.ulong ∨ tag = Tag.timestamp)
    (word : UInt64) : ulongOfValue tag (be64 word) = some word := by
  obtain ⟨low, high⟩ := uint32Or_be64 word
  simp only [ulongOfValue, if_pos wide]
  rw [low, high, join_words]

theorem readsBack_ulong (value : UInt64) (rest : List UInt8) :
    ReadsBack sscanfU64 sscanfI64 (.ulong value) rest := by
  by_cases zero : value = 0
  · subst zero
    exact ReadsBack.fixed _ _ Tag.ulong0 0 [] rfl (fun _ => rfl) rfl rfl ⟨rfl, rfl⟩
  by_cases small : value < 256
  · refine ReadsBack.fixed _ _ Tag.smallulong 1 [value.toUInt8]
      (by simp only [encode, zero, small, if_false, if_true]) (fun _ => rfl) rfl rfl ⟨?_, rfl⟩
    have read : ulongOfValue Tag.smallulong [value.toUInt8] = some value.toUInt8.toUInt64 := rfl
    rw [qdParseAsUlong_of_value _ read, toUInt64_of_octet small]
  · exact ReadsBack.fixed _ _ Tag.ulong 8 (be64 value) (by simp only [encode, zero, small, if_false])
      (fun _ => rfl) rfl rfl ⟨qdParseAsUlong_of_value _ (ulongOfValue_be64 (Or.inl rfl) value), rfl⟩

theorem readsBack_timestamp (value : UInt64) (rest : List UInt8) :
    ReadsBack sscanfU64 sscanfI64 (.timestamp value) rest :=
  ReadsBack.fixed _ _ Tag.timestamp 8 (be64 value) rfl (fun _ => rfl) rfl rfl
    ⟨qdParseAsUlong_of_value _ (ulongOfValue_be64 (Or.inr rfl) value), rfl⟩

theorem readsBack_int (value : Int32) (rest : List UInt8) :
    ReadsBack sscanfU64 sscanfI64 (.int value) rest := by
  by_cases small : -128 ≤ value ∧ value ≤ 127
  · -- `smallint`: one octet, read back as a signed octet
    refine ReadsBack.fixed _ _ Tag.smallint 1 [value.toUInt32.toUInt8]
      (by simp only [encode, small, and_self, if_true]) (fun _ => rfl) rfl rfl ⟨?_, rfl⟩
    have read : longOfValue Tag.smallint [value.toUInt32.toUInt8] =
        some value.toUInt32.toUInt8.toInt8.toInt64 := rfl
    rw [qdParseAsInt_of_long _ (qdParseAsLong_of_value _ read) (int32_range_int8 _),
      toInt32_of_octet small.1 small.2]
  · have read : longOfValue Tag.int (be32 value.toUInt32) = some value.toInt64 := by
      have tagged : longOfValue Tag.int (be32 value.toUInt32) =
          some (uint32Or 0 (be32 value.toUInt32)).1.toInt32.toInt64 := rfl
      rw [tagged, uint32Or, qdBufferFieldUint32_be32_nil]
      rfl
    refine ReadsBack.fixed _ _ Tag.int 4 (be32 value.toUInt32) (by simp only [encode, small, if_false])
      (fun _ => rfl) rfl rfl ⟨?_, rfl⟩
    rw [qdParseAsInt_of_long _ (qdParseAsLong_of_value _ read) (int32_range_toInt64 _),
      Int32.toInt32_toInt64]

theorem readsBack_long (value : Int64) (rest : List UInt8) :
    ReadsBack sscanfU64 sscanfI64 (.long value) rest := by
  by_cases small : -128 ≤ value ∧ value ≤ 127
  · refine ReadsBack.fixed _ _ Tag.smalllong 1 [value.toUInt64.toUInt8]
      (by simp only [encode, small, and_self, if_true]) (fun _ => rfl) rfl rfl ⟨?_, rfl⟩
    have read : longOfValue Tag.smalllong [value.toUInt64.toUInt8] =
        some value.toUInt64.toUInt8.toInt8.toInt64 := rfl
    rw [qdParseAsLong_of_value _ read, toInt64_of_octet small.1 small.2]
  · have read : longOfValue Tag.long (be64 value.toUInt64) = some value := by
      obtain ⟨low, high⟩ := uint32Or_be64 value.toUInt64
      simp only [longOfValue, if_true]
      rw [low, high, join_words, Int64.toInt64_toUInt64]
    exact ReadsBack.fixed _ _ Tag.long 8 (be64 value.toUInt64) (by simp only [encode, small, if_false])
      (fun _ => rfl) rfl rfl ⟨qdParseAsLong_of_value _ read, rfl⟩

theorem readsBack_uuid (value : Uuid) (rest : List UInt8) :
    ReadsBack sscanfU64 sscanfI64 (.uuid value) rest :=
  ReadsBack.fixed _ _ Tag.uuid 16 value.octets rfl (fun _ => rfl) rfl (by rw [value.length_eq]; rfl)
    ⟨rfl, rfl⟩

/-- The octets of a binary, string or symbol come back through `qd_parse_raw`. -/
theorem readsBack_raw (value : Value) (octets : List UInt8) (tag8 tag32 : UInt8)
    (narrow : ∀ bfield, readSizeAndCount tag8 bfield = readSizeThenCount octetAsUint32 tag8 bfield)
    (wide : ∀ bfield, readSizeAndCount tag32 bfield = readSizeThenCount qdBufferFieldUint32 tag32 bfield)
    (uncounted8 : tagGetCountLength tag8 = 0) (uncounted32 : tagGetCountLength tag32 = 0)
    (notMap8 : ¬(tag8 = Tag.map8 ∨ tag8 = Tag.map32))
    (notMap32 : ¬(tag32 = Tag.map8 ∨ tag32 = Tag.map32))
    (fits : octets.length < 2 ^ 32)
    (encoded : encode value = sized tag8 tag32 (UInt32.ofNat octets.length) octets)
    (raw : ∀ field : ParsedField, field.children = [] →
      qdParseRaw field = octets → Recovers sscanfU64 sscanfI64 value field)
    (rest : List UInt8) : ReadsBack sscanfU64 sscanfI64 value rest := by
  have length : octets.length = (UInt32.ofNat octets.length).toNat := by
    rw [UInt32.toNat_ofNat', Nat.mod_eq_of_lt fits]
  obtain ⟨tag, read⟩ := parseAmqpField_sized narrow wide uncounted8 uncounted32 notMap8 notMap32
    (UInt32.ofNat octets.length) octets rest length
  exact ReadsBack.scalar _ _ _ (by rw [encoded]; exact read) rfl (raw _ rfl rfl)

/-! ### Compounds read back -/

theorem readsBack_list (elements : List Value) (rest : List UInt8)
    (size : 4 + (encodeAll elements).length < 2 ^ 32) (fewer : elements.length < 2 ^ 32)
    (children : (parseChildren elements.length (encodeAll elements)).2 = none ∧
      RecoversAll sscanfU64 sscanfI64 elements (parseChildren elements.length (encodeAll elements)).1) :
    ReadsBack sscanfU64 sscanfI64 (.list elements) rest := by
  have encoded : encode (.list elements) = compound Tag.list32 (encodeAll elements) elements.length := by
    simp only [encode]
  have read := parseAmqpField_compound Tag.list32 (fun _ => rfl) rfl (encodeAll elements)
    rest elements.length size (fun odd => absurd odd.1 (by decide))
  have parsed := qdParseInternal_compound Tag.list32 (fun _ => rfl) rfl
    (encodeAll elements) rest elements.length size fewer (fun odd => absurd odd.1 (by decide))
  rw [← encoded] at read parsed
  refine ⟨by rw [read], by rw [parsed]; exact children.1, by rw [parsed, encoded], ?_⟩
  rw [parsed]
  refine ⟨rfl, ?_, ?_, children.2⟩
  · show (UInt32.ofNat (4 + (encodeAll elements).length)).toNat + 5 = (encode (.list elements)).length
    rw [encoded, length_compound, UInt32.toNat_ofNat', Nat.mod_eq_of_lt size]
    omega
  · show (UInt32.ofNat elements.length).toNat = elements.length
    rw [UInt32.toNat_ofNat', Nat.mod_eq_of_lt fewer]

/-- An even count passes the map check of `parse_amqp_field`. -/
theorem even_count (count : Nat) (even : count % 2 = 0) : UInt32.ofNat count &&& 1 = 0 := by
  apply UInt32.toNat_inj.mp
  rw [UInt32.toNat_and, UInt32.toNat_ofNat', UInt32.toNat_one, Nat.and_one_is_mod]
  simp only [UInt32.reduceToNat]
  omega

theorem readsBack_map (elements : List Value) (rest : List UInt8)
    (size : 4 + (encodeAll elements).length < 2 ^ 32) (fewer : elements.length < 2 ^ 32)
    (even : elements.length % 2 = 0)
    (children : (parseChildren elements.length (encodeAll elements)).2 = none ∧
      RecoversAll sscanfU64 sscanfI64 elements (parseChildren elements.length (encodeAll elements)).1) :
    ReadsBack sscanfU64 sscanfI64 (.map elements) rest := by
  have encoded : encode (.map elements) = compound Tag.map32 (encodeAll elements) elements.length := by
    simp only [encode]
  have notOdd : ¬((Tag.map32 = Tag.map8 ∨ Tag.map32 = Tag.map32) ∧
      UInt32.ofNat elements.length &&& 1 ≠ 0) :=
    fun odd => odd.2 (even_count _ even)
  have read := parseAmqpField_compound Tag.map32 (fun _ => rfl) rfl (encodeAll elements)
    rest elements.length size notOdd
  have parsed := qdParseInternal_compound Tag.map32 (fun _ => rfl) rfl
    (encodeAll elements) rest elements.length size fewer notOdd
  rw [← encoded] at read parsed
  refine ⟨by rw [read], by rw [parsed]; exact children.1, by rw [parsed, encoded], ?_⟩
  rw [parsed]
  refine ⟨rfl, ?_, ?_, children.2⟩
  · show (UInt32.ofNat (4 + (encodeAll elements).length)).toNat + 5 = (encode (.map elements)).length
    rw [encoded, length_compound, UInt32.toNat_ofNat', Nat.mod_eq_of_lt size]
    omega
  · show (UInt32.ofNat elements.length).toNat = elements.length
    rw [UInt32.toNat_ofNat', Nat.mod_eq_of_lt fewer]

/-! ### Every value tree that fits -/

mutual

/-- Every value that fits, with even maps, reads back, whatever follows it. -/
theorem encode_readsBack : ∀ (value : Value) (rest : List UInt8), value.fits = true →
    value.evenMaps = true → ReadsBack sscanfU64 sscanfI64 value rest
  | .null, rest, _, _ => readsBack_null _ _ rest
  | .bool value, rest, _, _ => readsBack_bool _ _ value rest
  | .uint value, rest, _, _ => readsBack_uint _ _ value rest
  | .ulong value, rest, _, _ => readsBack_ulong _ _ value rest
  | .int value, rest, _, _ => readsBack_int _ _ value rest
  | .long value, rest, _, _ => readsBack_long _ _ value rest
  | .timestamp value, rest, _, _ => readsBack_timestamp _ _ value rest
  | .uuid value, rest, _, _ => readsBack_uuid _ _ value rest
  | .binary value, rest, fits, _ => by
      have fits : value.length < 2 ^ 32 := by simpa [Value.fits] using fits
      refine readsBack_raw _ _ (.binary value) value Tag.vbin8 Tag.vbin32 (fun _ => rfl) (fun _ => rfl)
        rfl rfl (by decide) (by decide) fits ?_ (fun field none raw => ⟨raw, none⟩) rest
      simp only [encode, take_ofNat_length value fits]
  | .string value, rest, fits, _ => by
      have fits : value.length < 2 ^ 32 := by simpa [Value.fits] using fits
      exact readsBack_raw _ _ (.string value) value Tag.str8Utf8 Tag.str32Utf8 (fun _ => rfl)
        (fun _ => rfl) rfl rfl (by decide) (by decide) fits (encode_string value fits)
        (fun field none raw => ⟨raw, none⟩) rest
  | .symbol value, rest, fits, _ => by
      have fits : value.octets.length < 2 ^ 32 := by simpa [Value.fits] using fits
      refine readsBack_raw _ _ (.symbol value) value.octets Tag.sym8 Tag.sym32 (fun _ => rfl)
        (fun _ => rfl) rfl rfl (by decide) (by decide) fits ?_ (fun field none raw => ⟨raw, none⟩) rest
      simp only [encode, take_ofNat_length value.octets fits]
  | .list elements, rest, fits, even => by
      simp only [Value.fits, Bool.and_eq_true, decide_eq_true_eq] at fits
      obtain ⟨⟨size, fewer⟩, fitsAll⟩ := fits
      have children := encodeAll_readsBack elements [] fitsAll (by simpa [Value.evenMaps] using even)
      rw [List.append_nil] at children
      exact readsBack_list _ _ elements rest size fewer children
  | .map elements, rest, fits, even => by
      simp only [Value.fits, Bool.and_eq_true, decide_eq_true_eq] at fits
      obtain ⟨⟨size, fewer⟩, fitsAll⟩ := fits
      simp only [Value.evenMaps, Bool.and_eq_true, beq_iff_eq] at even
      have children := encodeAll_readsBack elements [] fitsAll even.2
      rw [List.append_nil] at children
      exact readsBack_map _ _ elements rest size fewer even.1 children

/-- The elements of a compound, parsed as its children, give the elements back. -/
theorem encodeAll_readsBack : ∀ (elements : List Value) (rest : List UInt8),
    Value.fitsAll elements = true → Value.evenMapsAll elements = true →
    (parseChildren elements.length (encodeAll elements ++ rest)).2 = none ∧
      RecoversAll sscanfU64 sscanfI64 elements
        (parseChildren elements.length (encodeAll elements ++ rest)).1
  | [], rest, _, _ => by
      rw [List.length_nil, parseChildren_zero]
      exact ⟨rfl, trivial⟩
  | value :: more, rest, fits, even => by
      simp only [Value.fitsAll, Bool.and_eq_true] at fits
      simp only [Value.evenMapsAll, Bool.and_eq_true] at even
      have head := encode_readsBack value (encodeAll more ++ rest) fits.1 even.1
      have tail := encodeAll_readsBack more rest fits.2 even.2
      rw [encodeAll_cons, List.append_assoc, List.length_cons, parseChildren_succ head.ok,
        head.rest_eq]
      exact ⟨tail.1, head.recovers, tail.2⟩

end

end Recovery

end DispatchRouter.Amqp

/-! ### The round trip -/

namespace DispatchRouter.Amqp

/-- Composed into an empty field, a value leaves exactly its encoding in the buffers. -/
theorem composeValue_flatten (bufferSize : BufferSize) (value : Value) :
    (composeValue bufferSize value qdComposeSubfield).buffers.flatten = encode value := by
  have appended := (composeValue_appends bufferSize value qdComposeSubfield).flatten_eq
  simpa [qdComposeSubfield] using appended

theorem compose_parse_round_trip (bufferSize : BufferSize)
    (sscanfU64 : List UInt8 → Option UInt64) (sscanfI64 : List UInt8 → Option Int64)
    (value : Value) (fits : value.fits = true) (even : value.evenMaps = true) :
    (qdParse (composeValue bufferSize value qdComposeSubfield).buffers.flatten).parseError = none ∧
      (qdParse (composeValue bufferSize value qdComposeSubfield).buffers.flatten).fullField =
        (composeValue bufferSize value qdComposeSubfield).buffers.flatten ∧
      Recovers sscanfU64 sscanfI64 value
        (qdParse (composeValue bufferSize value qdComposeSubfield).buffers.flatten) := by
  rw [composeValue_flatten]
  have readsBack := encode_readsBack sscanfU64 sscanfI64 value [] fits even
  have ok := readsBack.ok
  have full := readsBack.full
  have recovers := readsBack.recovers
  rw [List.append_nil] at ok full recovers
  exact ⟨ok, full, recovers⟩

/-- A map holding a symbol and a list of three values, composed one octet to a buffer. -/
theorem compose_parse_round_trip_nested :
    (Value.map [.symbol ⟨[107], by decide⟩, .list [.uint 300, .long (-5), .string [104, 105]]]).fits =
        true ∧
      (Value.map [.symbol ⟨[107], by decide⟩,
        .list [.uint 300, .long (-5), .string [104, 105]]]).evenMaps = true ∧
      (qdParse (composeValue ⟨1, by decide⟩ (.map [.symbol ⟨[107], by decide⟩,
        .list [.uint 300, .long (-5), .string [104, 105]]]) qdComposeSubfield).buffers.flatten).parseError =
        none ∧
      (qdParse (composeValue ⟨1, by decide⟩ (.map [.symbol ⟨[107], by decide⟩,
        .list [.uint 300, .long (-5), .string [104, 105]]]) qdComposeSubfield).buffers.flatten).fullField =
        (composeValue ⟨1, by decide⟩ (.map [.symbol ⟨[107], by decide⟩,
          .list [.uint 300, .long (-5), .string [104, 105]]]) qdComposeSubfield).buffers.flatten ∧
      Recovers (fun _ => none) (fun _ => none)
        (.map [.symbol ⟨[107], by decide⟩, .list [.uint 300, .long (-5), .string [104, 105]]])
        (qdParse (composeValue ⟨1, by decide⟩ (.map [.symbol ⟨[107], by decide⟩,
          .list [.uint 300, .long (-5), .string [104, 105]]]) qdComposeSubfield).buffers.flatten) :=
  ⟨by decide, by decide, compose_parse_round_trip ⟨1, by decide⟩ (fun _ => none) (fun _ => none)
    (.map [.symbol ⟨[107], by decide⟩, .list [.uint 300, .long (-5), .string [104, 105]]])
    (by decide) (by decide)⟩

/-- A string of `2 ^ 32` octets has its size written as zero: the parse succeeds,
reads the five header octets as the whole field, and leaves the string unread. -/
theorem compose_parse_stops_short :
    (qdParse (composeValue ⟨512, by decide⟩ (.string (List.replicate (2 ^ 32) 0))
        qdComposeSubfield).buffers.flatten).parseError = none ∧
      (qdParse (composeValue ⟨512, by decide⟩ (.string (List.replicate (2 ^ 32) 0))
        qdComposeSubfield).buffers.flatten).fullField = [Tag.str32Utf8, 0, 0, 0, 0] ∧
      (composeValue ⟨512, by decide⟩ (.string (List.replicate (2 ^ 32) 0))
        qdComposeSubfield).buffers.flatten.length = 2 ^ 32 + 5 := by
  have zero : be32 (UInt32.ofNat (2 ^ 32)) = [0, 0, 0, 0] := by decide
  have encoded : encode (.string (List.replicate (2 ^ 32) 0)) =
      [Tag.str32Utf8, 0, 0, 0, 0] ++ List.replicate (2 ^ 32) 0 := by
    rw [encode, List.length_replicate, if_neg (by decide), zero]
  have header : readSizeAndCount Tag.str32Utf8 ([0, 0, 0, 0] ++ List.replicate (2 ^ 32) 0) =
      ⟨{ tag := Tag.str32Utf8, size := 0 }, [] ++ List.replicate (2 ^ 32) 0, none⟩ := rfl
  have read := parseAmqpField_of_header header (fun odd => absurd odd.1 (by decide)) rfl
  have parsed := qdParseInternal_of_read read
  rw [show Tag.str32Utf8 :: ([0, 0, 0, 0] ++ List.replicate (2 ^ 32) 0) =
    [Tag.str32Utf8, 0, 0, 0, 0] ++ List.replicate (2 ^ 32) 0 from rfl, take_append_length_sub] at parsed
  rw [composeValue_flatten, encoded, qdParse, parsed]
  refine ⟨?_, rfl, ?_⟩
  · simp only [UInt32.toNat_zero, parseChildren_zero]
  · rw [List.length_append, List.length_replicate]
    rfl

end DispatchRouter.Amqp
