/-
# Parsing AMQP fields

`parse.c`. `parse_amqp_field` reads a type code and the size and count fields
its top four bits announce, and steps over the value; `qd_parse_internal` does
so and then parses the elements of a compound value as its children, stopping
at the first child that fails. The accessors `qd_parse_as_*` read a scalar back
out of a parsed field, recording a parse error where it does not convert.

A `qd_buffer_field_t` is modelled by the octets it has left to read, so a parsed
field's `full_field` and `amqp.value` are octet lists too; where the buffers
they lie in are split does not enter. The conversions of a string to an integer
go through `sscanf`, which is a parameter here: nothing below depends on it.
-/

import DispatchRouter.Amqp.Value

namespace DispatchRouter.Amqp

/-! ### Buffer fields -/

/-- `qd_buffer_field_octet`: the next octet and the field after it. -/
def qdBufferFieldOctet : List UInt8 → Option (UInt8 × List UInt8)
  | [] => none
  | octet :: rest => some (octet, rest)

/-- `qd_parse_uint32_decode`: four octets, most significant first. -/
def qdParseUint32Decode (b₀ b₁ b₂ b₃ : UInt8) : UInt32 :=
  b₀.toUInt32 <<< 24 ||| b₁.toUInt32 <<< 16 ||| b₂.toUInt32 <<< 8 ||| b₃.toUInt32

/-- `qd_buffer_field_uint32`: a 32-bit word, if the field has four more octets. -/
def qdBufferFieldUint32 : List UInt8 → Option (UInt32 × List UInt8)
  | b₀ :: b₁ :: b₂ :: b₃ :: rest => some (qdParseUint32Decode b₀ b₁ b₂ b₃, rest)
  | _ => none

/-- `qd_buffer_field_advance`: how many octets were skipped, and the field after them. -/
def qdBufferFieldAdvance (bfield : List UInt8) (amount : Nat) : Nat × List UInt8 :=
  (min amount bfield.length, bfield.drop amount)

/-! ### One field -/

/-- `tag_get_size_length`: the width of the size field a type code announces. -/
def tagGetSizeLength (tag : UInt8) : Nat :=
  let tag := tag &&& 0xF0
  if tag < 0xA0 then 0 else if tag &&& 0x10 = 0 then 1 else 4

/-- `tag_get_count_length`: the width of the count field a type code announces. -/
def tagGetCountLength (tag : UInt8) : Nat :=
  let tag := tag &&& 0xF0
  if tag < 0xC0 then 0 else if tag &&& 0x10 = 0 then 1 else 4

/-- `qd_amqp_field_t`: the type code, the size (which counts the count field),
the count and the raw value. -/
structure AmqpField where
  tag : UInt8 := 0
  size : UInt32 := 0
  count : UInt32 := 0
  value : List UInt8 := []
  deriving DecidableEq, Repr

/-- What `parse_amqp_field` leaves behind: the field as far as it was read, the
buffer field after it, and the error it returned. -/
structure FieldRead where
  amqp : AmqpField
  rest : List UInt8
  error : Option String
  deriving DecidableEq, Repr

/-- The size field, then for a compound the count field, each read by `read`:
the two variable-width branches of `parse_amqp_field`'s switch, which differ only
in the width of these fields. -/
def readSizeThenCount (read : List UInt8 → Option (UInt32 × List UInt8)) (tag : UInt8)
    (bfield : List UInt8) : FieldRead :=
  match read bfield with
  | none => ⟨{ tag }, bfield, some "Insufficient Data to Determine Length"⟩
  | some (size, after) =>
      if tagGetCountLength tag = 0 then ⟨{ tag, size }, after, none⟩
      else
        match read after with
        | none => ⟨{ tag, size }, after, some "Insufficient Data to Determine Count"⟩
        | some (count, rest) => ⟨{ tag, size, count }, rest, none⟩

/-- `qd_buffer_field_octet` read into a 32-bit size or count field. -/
def octetAsUint32 (bfield : List UInt8) : Option (UInt32 × List UInt8) :=
  (qdBufferFieldOctet bfield).map fun read => (read.1.toUInt32, read.2)

/-- The switch of `parse_amqp_field` on the top four bits of the type code:
the size and count fields, read from `bfield`. -/
def readSizeAndCount (tag : UInt8) (bfield : List UInt8) : FieldRead :=
  match (tag &&& 0xF0).toNat with
  | 0x40 => ⟨{ tag }, bfield, none⟩
  | 0x50 => ⟨{ tag, size := 1 }, bfield, none⟩
  | 0x60 => ⟨{ tag, size := 2 }, bfield, none⟩
  | 0x70 => ⟨{ tag, size := 4 }, bfield, none⟩
  | 0x80 => ⟨{ tag, size := 8 }, bfield, none⟩
  | 0x90 => ⟨{ tag, size := 16 }, bfield, none⟩
  | 0xB0 | 0xD0 | 0xF0 => readSizeThenCount qdBufferFieldUint32 tag bfield
  | 0xA0 | 0xC0 | 0xE0 => readSizeThenCount octetAsUint32 tag bfield
  | _ => ⟨{ tag }, bfield, some "Invalid Tag - No Length Information"⟩

/-- `parse_amqp_field`. The value is the octets that follow the header, as many
as the size announces less the count field; where the field is shorter, the
source's value claims more octets than there are, and the parse fails with
"Truncated field" either way. -/
def parseAmqpField (bfield : List UInt8) : FieldRead :=
  match qdBufferFieldOctet bfield with
  | none => ⟨{}, bfield, some "Insufficient Data to Determine Tag"⟩
  | some (tag, bfield) =>
      let header := readSizeAndCount tag bfield
      let lengthOfCount := tagGetCountLength tag
      match header.error with
      | some _ => header
      | none =>
          if (tag = Tag.map8 ∨ tag = Tag.map32) ∧ header.amqp.count &&& 1 ≠ 0 then
            { header with error := some "Odd Number of Elements in a Map" }
          else if header.amqp.size.toNat < lengthOfCount then
            { header with error := some "Insufficient Length to Determine Count" }
          else
            let remaining := header.amqp.size.toNat - lengthOfCount
            let advanced := qdBufferFieldAdvance header.rest remaining
            ⟨{ header.amqp with value := header.rest.take remaining }, advanced.2,
              if advanced.1 ≠ remaining then some "Truncated field" else none⟩

theorem qdBufferFieldUint32_suffix {bfield rest : List UInt8} {word : UInt32}
    (read : qdBufferFieldUint32 bfield = some (word, rest)) : rest <:+ bfield := by
  match bfield, read with
  | b₀ :: b₁ :: b₂ :: b₃ :: rest, rfl => exact ⟨[b₀, b₁, b₂, b₃], rfl⟩

theorem octetAsUint32_suffix {bfield rest : List UInt8} {word : UInt32}
    (read : octetAsUint32 bfield = some (word, rest)) : rest <:+ bfield := by
  match bfield, read with
  | octet :: rest, rfl => exact List.suffix_cons octet rest

theorem readSizeThenCount_suffix {read : List UInt8 → Option (UInt32 × List UInt8)}
    (forward : ∀ {bfield rest word}, read bfield = some (word, rest) → rest <:+ bfield)
    (tag : UInt8) (bfield : List UInt8) :
    (readSizeThenCount read tag bfield).rest <:+ bfield := by
  unfold readSizeThenCount
  split
  · exact List.suffix_refl bfield
  · rename_i size after readSize
    have first := forward readSize
    split
    · exact first
    · split
      · exact first
      · rename_i count rest readCount
        exact (forward readCount).trans first

/-- Reading the size and count only moves the buffer field forward. -/
theorem readSizeAndCount_suffix (tag : UInt8) (bfield : List UInt8) :
    (readSizeAndCount tag bfield).rest <:+ bfield := by
  unfold readSizeAndCount
  split
  -- the fixed-width codes and the invalid ones read nothing more
  any_goals exact List.suffix_refl bfield
  all_goals first
    | exact readSizeThenCount_suffix qdBufferFieldUint32_suffix tag bfield
    | exact readSizeThenCount_suffix octetAsUint32_suffix tag bfield

/-- The buffer field only moves forward. -/
theorem parseAmqpField_suffix (bfield : List UInt8) :
    (parseAmqpField bfield).rest <:+ bfield := by
  cases bfield with
  | nil => exact List.suffix_refl []
  | cons tag after =>
      have header := (readSizeAndCount_suffix tag after).trans (List.suffix_cons tag after)
      simp only [parseAmqpField, qdBufferFieldOctet, qdBufferFieldAdvance]
      split
      · exact header
      · split
        · exact header
        · split
          · exact header
          · exact (List.drop_suffix _ _).trans header

theorem parseAmqpField_rest_length (bfield : List UInt8) :
    (parseAmqpField bfield).rest.length ≤ bfield.length :=
  (parseAmqpField_suffix bfield).length_le

/-- What a successful `parse_amqp_field` did: it read a type code and the size
and count after it, and stepped over a value as long as the size announces less
the count field, which was all there. -/
theorem parseAmqpField_ok {bfield : List UInt8} (parsed : (parseAmqpField bfield).error = none) :
    ∃ tag after, bfield = tag :: after ∧ (readSizeAndCount tag after).error = none ∧
      tagGetCountLength tag ≤ (readSizeAndCount tag after).amqp.size.toNat ∧
      (readSizeAndCount tag after).amqp.size.toNat - tagGetCountLength tag ≤
        (readSizeAndCount tag after).rest.length ∧
      parseAmqpField bfield =
        ⟨{ (readSizeAndCount tag after).amqp with
            value := (readSizeAndCount tag after).rest.take
              ((readSizeAndCount tag after).amqp.size.toNat - tagGetCountLength tag) },
          (readSizeAndCount tag after).rest.drop
            ((readSizeAndCount tag after).amqp.size.toNat - tagGetCountLength tag), none⟩ := by
  cases bfield with
  | nil => simp [parseAmqpField, qdBufferFieldOctet] at parsed
  | cons tag after =>
      refine ⟨tag, after, rfl, ?_⟩
      simp only [parseAmqpField, qdBufferFieldOctet, qdBufferFieldAdvance] at parsed ⊢
      generalize readSizeAndCount tag after = header at parsed ⊢
      obtain ⟨amqp, rest, error⟩ := header
      cases error with
      | some error => simp at parsed
      | none =>
          simp only at parsed ⊢
          by_cases odd : (tag = Tag.map8 ∨ tag = Tag.map32) ∧ amqp.count &&& 1 ≠ 0
          · simp [odd] at parsed
          by_cases short : amqp.size.toNat < tagGetCountLength tag
          · simp [odd, short] at parsed
          -- the advance did not come up short, so the whole value was there
          have whole : amqp.size.toNat - tagGetCountLength tag ≤ rest.length := by
            by_contra missing
            simp [odd, short, Nat.min_eq_right (Nat.le_of_not_le missing)] at parsed
            omega
          simp [odd, short, Nat.min_eq_left whole]
          omega

/-- The other direction: once the header is read, a value that is all there and
not an odd map makes the read succeed and stop after the value. -/
theorem parseAmqpField_of_header {tag : UInt8} {after content rest : List UInt8}
    {amqp : AmqpField} (header : readSizeAndCount tag after = ⟨amqp, content ++ rest, none⟩)
    (notOddMap : ¬((tag = Tag.map8 ∨ tag = Tag.map32) ∧ amqp.count &&& 1 ≠ 0))
    (size : amqp.size.toNat = tagGetCountLength tag + content.length) :
    parseAmqpField (tag :: after) = ⟨{ amqp with value := content }, rest, none⟩ := by
  have remaining : amqp.size.toNat - tagGetCountLength tag = content.length := by omega
  have notShort : ¬amqp.size.toNat < tagGetCountLength tag := by omega
  simp [parseAmqpField, qdBufferFieldOctet, header, notOddMap, notShort, remaining,
    qdBufferFieldAdvance]

/-- A field that parsed has a value strictly shorter than what it was read from:
the type code at least lies before it. -/
theorem parseAmqpField_value_length (bfield : List UInt8)
    (parsed : (parseAmqpField bfield).error = none) :
    (parseAmqpField bfield).amqp.value.length < bfield.length := by
  obtain ⟨tag, after, rfl, -, -, -, read⟩ := parseAmqpField_ok parsed
  have header := (readSizeAndCount_suffix tag after).length_le
  rw [read, List.length_take, List.length_cons]
  omega

/-! ### Parse trees -/

/-- `qd_parsed_field_t`: the octets of the whole field, its header and value,
the parsed elements of a compound value, and the parse error. -/
structure ParsedField where
  fullField : List UInt8
  amqp : AmqpField
  children : List ParsedField
  parseError : Option String

-- `parsed` is read only by the termination proof
set_option linter.unusedVariables false in
mutual

/-- `qd_parse_internal`. After a successful read the full field is cut down to
the octets the read consumed, and `amqp.count` children are parsed from the
value, one after another. -/
def qdParseInternal (bfield : List UInt8) : ParsedField :=
  let read := parseAmqpField bfield
  match parsed : read.error with
  | some error => ⟨bfield, read.amqp, [], some error⟩
  | none =>
      let children := parseChildren read.amqp.count.toNat read.amqp.value
      ⟨bfield.take (bfield.length - read.rest.length), read.amqp, children.1, children.2⟩
termination_by (bfield.length, 0)
decreasing_by
  exact Prod.Lex.left _ _ (parseAmqpField_value_length bfield parsed)

/-- The loop of `qd_parse_internal` over the children: `count` more elements
from `children`, stopping after the first that fails, with its error. -/
def parseChildren (count : Nat) (children : List UInt8) : List ParsedField × Option String :=
  match count with
  | 0 => ([], none)
  | count + 1 =>
      let child := qdParseInternal children
      match child.parseError with
      | some error => ([child], some error)
      | none =>
          let more := parseChildren count (parseAmqpField children).rest
          (child :: more.1, more.2)
termination_by (children.length, count + 1)
decreasing_by
  · exact Prod.Lex.right _ (Nat.succ_pos _)
  · rcases Nat.lt_or_eq_of_le (parseAmqpField_rest_length children) with shorter | same
    · exact Prod.Lex.left _ _ shorter
    · rw [same]
      exact Prod.Lex.right _ (Nat.lt_succ_self _)

end

/-- A field read without error: its full field is the octets the read consumed,
and its children are parsed from its value. -/
theorem qdParseInternal_of_read {bfield rest : List UInt8} {amqp : AmqpField}
    (read : parseAmqpField bfield = ⟨amqp, rest, none⟩) :
    qdParseInternal bfield =
      ⟨bfield.take (bfield.length - rest.length), amqp,
        (parseChildren amqp.count.toNat amqp.value).1,
        (parseChildren amqp.count.toNat amqp.value).2⟩ := by
  rw [qdParseInternal]
  split
  · rename_i error failed
    rw [read] at failed
    cases failed
  · simp only [read]

/-- A field whose read failed keeps all of the buffer field as its full field,
has no children, and carries the read's error. -/
theorem qdParseInternal_of_error {bfield : List UInt8} {error : String}
    (failed : (parseAmqpField bfield).error = some error) :
    qdParseInternal bfield = ⟨bfield, (parseAmqpField bfield).amqp, [], some error⟩ := by
  rw [qdParseInternal]
  split
  · rename_i other failedOther
    rw [failed] at failedOther
    cases failedOther
    rfl
  · rename_i succeeded
    rw [failed] at succeeded
    cases succeeded

/-- The full field of a parse is where it started, cut short or not. -/
theorem qdParseInternal_fullField_prefixOf (bfield : List UInt8) :
    (qdParseInternal bfield).fullField <+: bfield := by
  cases read : (parseAmqpField bfield).error with
  | some error =>
      rewrite [qdParseInternal_of_error read]
      exact List.prefix_refl bfield
  | none =>
      have whole : parseAmqpField bfield =
          ⟨(parseAmqpField bfield).amqp, (parseAmqpField bfield).rest, none⟩ := by
        rw [← read]
      rw [qdParseInternal_of_read whole]
      exact List.take_prefix _ bfield

@[simp] theorem parseChildren_zero (children : List UInt8) : parseChildren 0 children = ([], none) := by
  rw [parseChildren]

/-- After a child that parsed, the loop goes on from where its read stopped. -/
theorem parseChildren_succ {count : Nat} {children : List UInt8}
    (ok : (qdParseInternal children).parseError = none) :
    parseChildren (count + 1) children =
      (qdParseInternal children :: (parseChildren count (parseAmqpField children).rest).1,
        (parseChildren count (parseAmqpField children).rest).2) := by
  rw [parseChildren]
  simp only [ok]

/-- A child that failed ends the loop, with its error. -/
theorem parseChildren_succ_of_error {count : Nat} {children : List UInt8} {error : String}
    (failed : (qdParseInternal children).parseError = some error) :
    parseChildren (count + 1) children = ([qdParseInternal children], some error) := by
  rw [parseChildren]
  simp only [failed]

/-- `qd_parse` over the octets an iterator views. -/
def qdParse (octets : List UInt8) : ParsedField :=
  qdParseInternal octets

/-- `qd_parse_ok`. -/
def qdParseOk (field : ParsedField) : Bool :=
  field.parseError.isNone

/-- `qd_parse_tag`. -/
def qdParseTag (field : ParsedField) : UInt8 :=
  field.amqp.tag

/-- `qd_parse_raw`: the value without its header. -/
def qdParseRaw (field : ParsedField) : List UInt8 :=
  field.amqp.value

/-- `is_tag_a_map`. -/
def isTagAMap (tag : UInt8) : Bool :=
  tag == Tag.map8 || tag == Tag.map32

/-- `qd_parse_is_map`. -/
def qdParseIsMap (field : ParsedField) : Bool :=
  isTagAMap field.amqp.tag

/-- `qd_parse_is_list`. -/
def qdParseIsList (field : ParsedField) : Bool :=
  field.amqp.tag == Tag.list8 || field.amqp.tag == Tag.list32 || field.amqp.tag == Tag.list0

/-- `qd_parse_sub_count`: elements, or key-value pairs of a map. -/
def qdParseSubCount (field : ParsedField) : Nat :=
  if isTagAMap field.amqp.tag then field.children.length / 2 else field.children.length

/-! ### Scalar accessors -/

/-- `qd_buffer_field_octet` into a variable that keeps `old` when the field is empty. -/
def octetOr (old : UInt8) (field : List UInt8) : UInt8 × List UInt8 :=
  (qdBufferFieldOctet field).getD (old, field)

/-- `qd_buffer_field_uint32` into a variable that keeps `old` when the field is short. -/
def uint32Or (old : UInt32) (field : List UInt8) : UInt32 × List UInt8 :=
  (qdBufferFieldUint32 field).getD (old, field)

/-- The type codes the accessors convert from a string with `sscanf`. -/
def isStringTag (tag : UInt8) : Prop :=
  tag = Tag.str8Utf8 ∨ tag = Tag.str32Utf8 ∨ tag = Tag.sym8 ∨ tag = Tag.sym32

/-- The signed integer codes `qd_parse_as_ulong` hands to `qd_parse_as_long`. -/
def isSignedTag (tag : UInt8) : Prop :=
  tag = Tag.byte ∨ tag = Tag.short ∨ tag = Tag.int ∨ tag = Tag.smallint ∨ tag = Tag.long ∨
    tag = Tag.smalllong

/-- The unsigned integer codes `qd_parse_as_long` hands to `qd_parse_as_ulong`. -/
def isUnsignedTag (tag : UInt8) : Prop :=
  tag = Tag.ubyte ∨ tag = Tag.smalluint ∨ tag = Tag.smallulong ∨ tag = Tag.ushort ∨
    tag = Tag.uint ∨ tag = Tag.ulong

instance (tag : UInt8) : Decidable (isStringTag tag) := inferInstanceAs (Decidable (_ ∨ _))

instance (tag : UInt8) : Decidable (isSignedTag tag) := inferInstanceAs (Decidable (_ ∨ _))

instance (tag : UInt8) : Decidable (isUnsignedTag tag) := inferInstanceAs (Decidable (_ ∨ _))

/-- The cases of `qd_parse_as_ulong` that decode the value's own octets. Each read
goes into a variable that keeps its last value when the field is short. -/
def ulongOfValue (tag : UInt8) (value : List UInt8) : Option UInt64 :=
  if tag = Tag.ulong ∨ tag = Tag.timestamp then
    let high := uint32Or 0 value
    let low := uint32Or high.1 high.2
    some (high.1.toUInt64 <<< 32 ||| low.1.toUInt64)
  else if tag = Tag.uint then some (uint32Or 0 value).1.toUInt64
  else if tag = Tag.ushort then
    -- the source falls through to the one-octet case
    let high := octetOr 0 value
    let low := octetOr high.1 high.2
    some (high.1.toUInt64 <<< 8 ||| low.1.toUInt64)
  else if tag = Tag.boolean ∨ tag = Tag.ubyte ∨ tag = Tag.smalluint ∨ tag = Tag.smallulong then
    some (octetOr 0 value).1.toUInt64
  else if tag = Tag.boolTrue then some 1
  else if tag = Tag.boolFalse ∨ tag = Tag.uint0 ∨ tag = Tag.ulong0 then some 0
  else none

/-- The cases of `qd_parse_as_long` that decode the value's own octets. -/
def longOfValue (tag : UInt8) (value : List UInt8) : Option Int64 :=
  if tag = Tag.long then
    let high := uint32Or 0 value
    let low := uint32Or high.1 high.2
    some (high.1.toUInt64 <<< 32 ||| low.1.toUInt64).toInt64
  else if tag = Tag.int then some (uint32Or 0 value).1.toInt32.toInt64
  else if tag = Tag.short then
    let high := octetOr 0 value
    let low := octetOr high.1 high.2
    some (high.1.toUInt16 <<< 8 ||| low.1.toUInt16).toInt16.toInt64
  else if tag = Tag.byte ∨ tag = Tag.boolean ∨ tag = Tag.smalllong ∨ tag = Tag.smallint then
    some (octetOr 0 value).1.toInt8.toInt64
  else if tag = Tag.boolTrue then some 1
  else if tag = Tag.boolFalse ∨ tag = Tag.uint0 ∨ tag = Tag.ulong0 then some 0
  else none

section Accessors

-- `sscanf` with `SCNu64` and `SCNi64` on the octets of a string field: the
-- number read, or nothing when no conversion was made.
variable (sscanfU64 : List UInt8 → Option UInt64) (sscanfI64 : List UInt8 → Option Int64)

/-- `qd_parse_as_ulong`: the number, and the field's parse error afterwards. -/
def qdParseAsUlong (field : ParsedField) : UInt64 × Option String :=
  let tag := field.amqp.tag
  match ulongOfValue tag field.amqp.value with
  | some result => (result, field.parseError)
  | none =>
      if isStringTag tag then
        match sscanfU64 field.amqp.value with
        | some result => (result, field.parseError)
        | none => (0, some "Cannot convert string to unsigned long")
      else if isSignedTag tag then
        -- a signed integer is accepted when it is not negative
        let signed := (longOfValue tag field.amqp.value).getD 0
        match field.parseError with
        | some error => (0, some error)
        | none =>
            if 0 ≤ signed then (signed.toUInt64, none)
            else (0, some "Unable to parse negative integer as unsigned")
      else (0, some "Unable to parse as an unsigned integer")

/-- `qd_parse_as_long`: the number, and the field's parse error afterwards. -/
def qdParseAsLong (field : ParsedField) : Int64 × Option String :=
  let tag := field.amqp.tag
  match longOfValue tag field.amqp.value with
  | some result => (result, field.parseError)
  | none =>
      if isStringTag tag then
        match sscanfI64 field.amqp.value with
        | some result => (result, field.parseError)
        | none => (0, some "Cannot convert string to long")
      else if isUnsignedTag tag then
        -- an unsigned integer is accepted when it fits the signed type of its width
        let unsigned := (ulongOfValue tag field.amqp.value).getD 0
        let max : UInt64 :=
          if tag = Tag.ushort then 0x7FFF
          else if tag = Tag.uint then 0x7FFFFFFF
          else if tag = Tag.ulong then 0x7FFFFFFFFFFFFFFF
          else 0x7F
        match field.parseError with
        | some error => (0, some error)
        | none =>
            if unsigned ≤ max then (unsigned.toInt64, none)
            else (0, some "Unable to parse unsigned integer as a signed integer")
      else (0, some "Unable to parse as a signed integer")

/-- `qd_parse_as_uint`. -/
def qdParseAsUint (field : ParsedField) : UInt32 × Option String :=
  let wide := qdParseAsUlong sscanfU64 field
  match wide.2 with
  | some error => (0, some error)
  | none =>
      if wide.1 ≤ 0xFFFFFFFF then (wide.1.toUInt32, none)
      else (0, some "Integer value too large to parse as uint")

/-- `qd_parse_as_int`. -/
def qdParseAsInt (field : ParsedField) : Int32 × Option String :=
  let wide := qdParseAsLong sscanfI64 field
  match wide.2 with
  | some error => (0, some error)
  | none =>
      if -0x80000000 ≤ wide.1 ∧ wide.1 ≤ 0x7FFFFFFF then (wide.1.toInt32, none)
      else (0, some "Integer value too large to parse as int")

end Accessors

/-- `qd_parse_as_bool`. -/
def qdParseAsBool (field : ParsedField) : Bool :=
  let tag := field.amqp.tag
  if tag = Tag.byte ∨ tag = Tag.boolean then (octetOr 0 field.amqp.value).1 != 0
  else tag == Tag.boolTrue

end DispatchRouter.Amqp
