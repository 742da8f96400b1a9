/-
# The grammar `qd_parse` reads

An AMQP 1.0 encoded value is laid out by the top four bits of its constructor:
codes `0x40`–`0x9F` are followed by a value of the width those bits fix,
`0xA0`–`0xBF` by a size field and that many octets, `0xC0`–`0xDF` (lists and
maps) by a size field, a count field and that many encoded elements, and
`0xE0`–`0xFF` (arrays) by a size, a count, one element constructor and the
elements without constructors of their own. The size and count fields are one
octet wide when the top four bits are even and four when they are odd.

`Encoding` is this grammar without arrays, over every constructor of each
layout. Every well-formed encoding, whatever follows it, parses: `qd_parse`
reads exactly its octets and takes its elements, in order, as the children.
An array does not: `qd_parse_internal` reads each of its elements as if it had
a constructor of its own, so the octet after the first element is taken for a
type code. Whatever the input, the parse stops, and each child it makes lies
inside its parent's value.
-/

import DispatchRouter.Amqp.RoundTrip

namespace DispatchRouter.Amqp

namespace Tag

def array8 : UInt8 := 0xe0
def array32 : UInt8 := 0xf0

end Tag

/-! ### Layouts by the top four bits -/

/-- The top four bits of a constructor, which fix its layout. -/
def nibble (tag : UInt8) : Nat := tag.toNat / 16

/-- The width of the value a constructor below `0xA0` announces. -/
def fixedWidth (tag : UInt8) : Nat :=
  match nibble tag with
  | 5 => 1
  | 6 => 2
  | 7 => 4
  | 8 => 8
  | 9 => 16
  | _ => 0

/-- The width of the size and count fields of a constructor from `0xA0` on. -/
def fieldWidth (tag : UInt8) : Nat := if nibble tag % 2 = 0 then 1 else 4

/-- A size or count field holding `n`, as wide as `tag` announces. -/
def lengthField (tag : UInt8) (n : Nat) : List UInt8 :=
  if nibble tag % 2 = 0 then [UInt8.ofNat n] else be32 (UInt32.ofNat n)

/-- An encoded value without arrays: a fixed-width scalar, a variable-width
value, or a list or map of encoded elements. -/
inductive Encoding
  | fixed (tag : UInt8) (content : List UInt8)
  | sized (tag : UInt8) (content : List UInt8)
  | compound (tag : UInt8) (elements : List Encoding)

mutual

/-- The octets of an encoded value. A compound's size counts its count field
and its elements. -/
def Encoding.octets : Encoding → List UInt8
  | .fixed tag content => tag :: content
  | .sized tag content => tag :: (lengthField tag content.length ++ content)
  | .compound tag elements =>
      tag :: (lengthField tag (fieldWidth tag + (Encoding.octetsAll elements).length) ++
        (lengthField tag elements.length ++ Encoding.octetsAll elements))

/-- The octets of encoded elements, one after another. -/
def Encoding.octetsAll : List Encoding → List UInt8
  | [] => []
  | value :: more => value.octets ++ Encoding.octetsAll more

end

mutual

/-- A fixed-width value has the width its constructor announces; a size or count
fits its field; a map has an even number of elements; and so on, all the way down. -/
def Encoding.wellFormed : Encoding → Bool
  | .fixed tag content => 4 ≤ nibble tag && nibble tag < 10 && content.length == fixedWidth tag
  | .sized tag content =>
      (nibble tag == 10 || nibble tag == 11) && content.length < 2 ^ (8 * fieldWidth tag)
  | .compound tag elements =>
      (nibble tag == 12 || nibble tag == 13) &&
        fieldWidth tag + (Encoding.octetsAll elements).length < 2 ^ (8 * fieldWidth tag) &&
        elements.length < 2 ^ (8 * fieldWidth tag) &&
        (!(tag == Tag.map8 || tag == Tag.map32) || elements.length % 2 == 0) &&
        Encoding.wellFormedAll elements

/-- Every element is well formed. -/
def Encoding.wellFormedAll : List Encoding → Bool
  | [] => true
  | value :: more => value.wellFormed && Encoding.wellFormedAll more

end

/-- What `parse_amqp_field` should read for an encoded value. -/
def Encoding.header : Encoding → AmqpField
  | .fixed tag content => { tag, size := UInt32.ofNat (fixedWidth tag), value := content }
  | .sized tag content => { tag, size := UInt32.ofNat content.length, value := content }
  | .compound tag elements =>
      { tag, size := UInt32.ofNat (fieldWidth tag + (Encoding.octetsAll elements).length),
        count := UInt32.ofNat elements.length, value := Encoding.octetsAll elements }

@[simp] theorem Encoding.octetsAll_nil : Encoding.octetsAll [] = [] := by
  rw [Encoding.octetsAll]

@[simp] theorem Encoding.octetsAll_cons (value : Encoding) (more : List Encoding) :
    Encoding.octetsAll (value :: more) = value.octets ++ Encoding.octetsAll more := by
  rw [Encoding.octetsAll]

theorem Encoding.octetsAll_append (front back : List Encoding) :
    Encoding.octetsAll (front ++ back) = Encoding.octetsAll front ++ Encoding.octetsAll back := by
  induction front with
  | nil => rfl
  | cons value more ih => rw [List.cons_append, octetsAll_cons, octetsAll_cons, ih, List.append_assoc]

theorem Encoding.wellFormedAll_iff (elements : List Encoding) :
    Encoding.wellFormedAll elements = true ↔ ∀ element ∈ elements, element.wellFormed = true := by
  induction elements with
  | nil => simp [Encoding.wellFormedAll]
  | cons value more ih => simp [Encoding.wellFormedAll, ih]

/-! ### The parser's switch, by the top four bits -/

theorem and_F0_of_lt (n : Nat) (small : n < 256) : n &&& 240 = n / 16 * 16 := by
  revert n
  decide +kernel

theorem and_10_iff (n : Nat) (small : n < 16) : n * 16 &&& 16 = 0 ↔ n % 2 = 0 := by
  revert n
  decide +kernel

theorem toNat_and_F0 (tag : UInt8) : (tag &&& 0xF0).toNat = nibble tag * 16 := by
  rw [UInt8.toNat_and]
  exact and_F0_of_lt _ tag.toNat_lt

theorem nibble_lt (tag : UInt8) : nibble tag < 16 := by
  have := tag.toNat_lt
  unfold nibble
  omega

theorem and_F0_and_10 (tag : UInt8) : tag &&& 0xF0 &&& 0x10 = 0 ↔ nibble tag % 2 = 0 := by
  rw [← UInt8.toNat_inj, UInt8.toNat_and, toNat_and_F0]
  exact and_10_iff _ (nibble_lt tag)

/-- `tag_get_count_length` by the top four bits: no count field below `0xC0`. -/
theorem tagGetCountLength_eq (tag : UInt8) :
    tagGetCountLength tag = if nibble tag < 12 then 0 else fieldWidth tag := by
  have below : tag &&& 0xF0 < 0xC0 ↔ nibble tag < 12 := by
    rw [UInt8.lt_iff_toNat_lt, toNat_and_F0]
    simp only [UInt8.reduceToNat]
    omega
  simp only [tagGetCountLength, fieldWidth, below, and_F0_and_10]

/-- `tag_get_size_length` by the top four bits: no size field below `0xA0`. -/
theorem tagGetSizeLength_eq (tag : UInt8) :
    tagGetSizeLength tag = if nibble tag < 10 then 0 else fieldWidth tag := by
  have below : tag &&& 0xF0 < 0xA0 ↔ nibble tag < 10 := by
    rw [UInt8.lt_iff_toNat_lt, toNat_and_F0]
    simp only [UInt8.reduceToNat]
    omega
  simp only [tagGetSizeLength, fieldWidth, below, and_F0_and_10]

/-- Below `0xA0` the switch reads no size field: the size is the fixed width. -/
theorem readSizeAndCount_fixed {tag : UInt8} (low : 4 ≤ nibble tag) (high : nibble tag < 10)
    (bfield : List UInt8) :
    readSizeAndCount tag bfield = ⟨{ tag, size := UInt32.ofNat (fixedWidth tag) }, bfield, none⟩ := by
  unfold readSizeAndCount fixedWidth
  rw [toNat_and_F0]
  obtain kind | kind | kind | kind | kind | kind :
      nibble tag = 4 ∨ nibble tag = 5 ∨ nibble tag = 6 ∨ nibble tag = 7 ∨ nibble tag = 8 ∨
        nibble tag = 9 := by omega
  all_goals simp only [kind]; rfl

/-- The reader of the size and count fields of a constructor from `0xA0` on. -/
def fieldReader (tag : UInt8) : List UInt8 → Option (UInt32 × List UInt8) :=
  if nibble tag % 2 = 0 then octetAsUint32 else qdBufferFieldUint32

/-- From `0xA0` on the switch reads a size field and, for a compound, a count
field, each as wide as the top four bits say. -/
theorem readSizeAndCount_sized {tag : UInt8} (low : 10 ≤ nibble tag) (bfield : List UInt8) :
    readSizeAndCount tag bfield = readSizeThenCount (fieldReader tag) tag bfield := by
  unfold readSizeAndCount fieldReader
  rw [toNat_and_F0]
  have high := nibble_lt tag
  obtain kind | kind | kind | kind | kind | kind :
      nibble tag = 10 ∨ nibble tag = 11 ∨ nibble tag = 12 ∨ nibble tag = 13 ∨ nibble tag = 14 ∨
        nibble tag = 15 := by omega
  all_goals simp only [kind]; rfl

theorem toUInt32_ofNat_of_lt {n : Nat} (small : n < 256) : (UInt8.ofNat n).toUInt32 = UInt32.ofNat n := by
  apply UInt32.toNat_inj.mp
  simp only [UInt8.toNat_toUInt32, UInt8.toNat_ofNat', UInt32.toNat_ofNat']
  omega

/-- A field written by `lengthField` reads back, when its value fits. -/
theorem fieldReader_lengthField (tag : UInt8) {n : Nat} (fits : n < 2 ^ (8 * fieldWidth tag))
    (rest : List UInt8) :
    fieldReader tag (lengthField tag n ++ rest) = some (UInt32.ofNat n, rest) := by
  unfold fieldReader lengthField
  unfold fieldWidth at fits
  split
  · rename_i even
    rw [if_pos even] at fits
    simp only [List.cons_append, List.nil_append, octetAsUint32, qdBufferFieldOctet, Option.map_some,
      toUInt32_ofNat_of_lt fits]
  · exact qdBufferFieldUint32_be32 _ rest

@[simp] theorem length_lengthField (tag : UInt8) (n : Nat) :
    (lengthField tag n).length = fieldWidth tag := by
  unfold lengthField fieldWidth
  split <;> rfl

theorem toNat_ofNat_of_lt {n : Nat} (small : n < 2 ^ 32) : (UInt32.ofNat n).toNat = n := by
  rw [UInt32.toNat_ofNat', Nat.mod_eq_of_lt small]

theorem pow_fieldWidth_le (tag : UInt8) : 2 ^ (8 * fieldWidth tag) ≤ 2 ^ 32 := by
  unfold fieldWidth
  split <;> decide

/-! ### One value's header -/

/-- A well-formed value, whatever follows it, is read as its header, and the
read stops right after it. -/
theorem parseAmqpField_octets (value : Encoding) (wf : value.wellFormed = true) (rest : List UInt8) :
    parseAmqpField (value.octets ++ rest) = ⟨value.header, rest, none⟩ := by
  cases value with
  | fixed tag content =>
      simp only [Encoding.wellFormed, Bool.and_eq_true, decide_eq_true_eq, beq_iff_eq] at wf
      obtain ⟨⟨low, high⟩, length⟩ := wf
      have width : fixedWidth tag < 2 ^ 32 := by
        unfold fixedWidth
        split <;> decide
      refine parseAmqpField_fixed tag _ content rest (readSizeAndCount_fixed low high) ?_ ?_
      · rw [tagGetCountLength_eq, if_pos (by omega)]
      · rw [toNat_ofNat_of_lt width, length]
  | sized tag content =>
      simp only [Encoding.wellFormed, Bool.and_eq_true, Bool.or_eq_true, beq_iff_eq,
        decide_eq_true_eq] at wf
      obtain ⟨kind, fits⟩ := wf
      have uncounted : tagGetCountLength tag = 0 := by
        rw [tagGetCountLength_eq, if_pos (by omega)]
      have header : readSizeAndCount tag (lengthField tag content.length ++ (content ++ rest)) =
          ⟨{ tag, size := UInt32.ofNat content.length }, content ++ rest, none⟩ := by
        rw [readSizeAndCount_sized (by omega)]
        simp only [readSizeThenCount, fieldReader_lengthField tag fits, uncounted, if_true]
      simp only [Encoding.octets, Encoding.header, List.cons_append, List.append_assoc]
      refine parseAmqpField_of_header header ?_ ?_
      · exact fun odd => odd.2 (show (0 : UInt32) &&& 1 = 0 by decide)
      · rw [uncounted, toNat_ofNat_of_lt (Nat.lt_of_lt_of_le fits (pow_fieldWidth_le tag))]
        omega
  | compound tag elements =>
      simp only [Encoding.wellFormed, Bool.and_eq_true, Bool.or_eq_true, beq_iff_eq,
        decide_eq_true_eq, Bool.not_eq_true', Bool.or_eq_false_iff] at wf
      obtain ⟨⟨⟨⟨kind, size⟩, fewer⟩, maps⟩, -⟩ := wf
      have counted : tagGetCountLength tag = fieldWidth tag := by
        rw [tagGetCountLength_eq, if_neg (by omega)]
      have wide : fieldWidth tag ≠ 0 := by
        unfold fieldWidth
        split <;> decide
      have header : readSizeAndCount tag
          (lengthField tag (fieldWidth tag + (Encoding.octetsAll elements).length) ++
            (lengthField tag elements.length ++ Encoding.octetsAll elements ++ rest)) =
          ⟨{ tag, size := UInt32.ofNat (fieldWidth tag + (Encoding.octetsAll elements).length),
              count := UInt32.ofNat elements.length }, Encoding.octetsAll elements ++ rest, none⟩ := by
        rw [readSizeAndCount_sized (by omega)]
        simp only [readSizeThenCount, fieldReader_lengthField tag size, counted, wide, if_false,
          List.append_assoc, fieldReader_lengthField tag fewer]
      simp only [Encoding.octets, Encoding.header, List.cons_append, List.append_assoc] at header ⊢
      refine parseAmqpField_of_header header ?_ ?_
      · rintro ⟨map, odd⟩
        have even : elements.length % 2 = 0 := by
          rcases maps with notMap | even
          · exact absurd map (by simpa using notMap)
          · exact even
        exact odd (even_count _ even)
      · rw [counted, toNat_ofNat_of_lt (Nat.lt_of_lt_of_le size (pow_fieldWidth_le tag))]

/-! ### Whole values -/

mutual

/-- A parsed field is `value`: it parsed without error, its full field is the
value's octets, its header is the value's, and its children are the value's
elements, each parsed the same way; a scalar has none. -/
def Spans : Encoding → ParsedField → Prop
  | .compound tag elements, field =>
      field.parseError = none ∧ field.fullField = (Encoding.compound tag elements).octets ∧
        field.amqp = (Encoding.compound tag elements).header ∧ SpansAll elements field.children
  | .fixed tag content, field =>
      field.parseError = none ∧ field.fullField = (Encoding.fixed tag content).octets ∧
        field.amqp = (Encoding.fixed tag content).header ∧ field.children = []
  | .sized tag content, field =>
      field.parseError = none ∧ field.fullField = (Encoding.sized tag content).octets ∧
        field.amqp = (Encoding.sized tag content).header ∧ field.children = []

/-- Parsed fields are the elements, one for one. -/
def SpansAll : List Encoding → List ParsedField → Prop
  | [], [] => True
  | value :: more, field :: fields => Spans value field ∧ SpansAll more fields
  | _, _ => False

end

theorem Spans.ok {value : Encoding} {field : ParsedField} (spans : Spans value field) :
    field.parseError = none := by
  cases value <;> exact spans.1

theorem Spans.amqp {value : Encoding} {field : ParsedField} (spans : Spans value field) :
    field.amqp = value.header := by
  cases value <;> exact spans.2.2.1

/-- A scalar is read with no count, so the parse gives it no children. -/
theorem qdParseInternal_scalar {value : Encoding} (rest : List UInt8) (wf : value.wellFormed = true)
    (scalar : value.header.count = 0) :
    qdParseInternal (value.octets ++ rest) = ⟨value.octets, value.header, [], none⟩ := by
  rw [qdParseInternal_of_read (parseAmqpField_octets value wf rest), take_append_length_sub, scalar,
    UInt32.toNat_zero, parseChildren_zero]

mutual

/-- A well-formed value, whatever follows it, parses to itself. -/
theorem qdParseInternal_octets : ∀ (value : Encoding) (rest : List UInt8),
    value.wellFormed = true → Spans value (qdParseInternal (value.octets ++ rest))
  | .fixed tag content, rest, wf => by
      rw [qdParseInternal_scalar rest wf rfl]
      exact ⟨rfl, rfl, rfl, rfl⟩
  | .sized tag content, rest, wf => by
      rw [qdParseInternal_scalar rest wf rfl]
      exact ⟨rfl, rfl, rfl, rfl⟩
  | .compound tag elements, rest, wf => by
      have read := parseAmqpField_octets (.compound tag elements) wf rest
      simp only [Encoding.wellFormed, Bool.and_eq_true, decide_eq_true_eq] at wf
      obtain ⟨⟨⟨⟨-, -⟩, fewer⟩, -⟩, wfAll⟩ := wf
      have count : (UInt32.ofNat elements.length).toNat = elements.length :=
        toNat_ofNat_of_lt (Nat.lt_of_lt_of_le fewer (pow_fieldWidth_le tag))
      have children := parseChildren_octetsAll elements [] wfAll
      rw [List.append_nil] at children
      rw [qdParseInternal_of_read read, take_append_length_sub]
      simp only [Encoding.header, count]
      exact ⟨children.1, rfl, rfl, children.2⟩

/-- The elements of a compound, parsed as its children, are the elements. -/
theorem parseChildren_octetsAll : ∀ (elements : List Encoding) (rest : List UInt8),
    Encoding.wellFormedAll elements = true →
    (parseChildren elements.length (Encoding.octetsAll elements ++ rest)).2 = none ∧
      SpansAll elements (parseChildren elements.length (Encoding.octetsAll elements ++ rest)).1
  | [], rest, _ => by
      rw [List.length_nil, parseChildren_zero]
      exact ⟨rfl, trivial⟩
  | value :: more, rest, wf => by
      simp only [Encoding.wellFormedAll, Bool.and_eq_true] at wf
      have head := qdParseInternal_octets value (Encoding.octetsAll more ++ rest) wf.1
      have tail := parseChildren_octetsAll more rest wf.2
      rw [Encoding.octetsAll_cons, List.append_assoc, List.length_cons, parseChildren_succ head.ok,
        parseAmqpField_octets value wf.1]
      exact ⟨tail.1, head, tail.2⟩

end

/-! ### Any input -/

mutual

/-- Each child of a parsed field lies inside the field's value, and so on all
the way down. -/
def ParsedField.Nested : ParsedField → Prop
  | ⟨_, amqp, children, _⟩ => NestedIn amqp.value children

/-- Each of `children` lies inside `region` and is nested itself. -/
def NestedIn (region : List UInt8) : List ParsedField → Prop
  | [] => True
  | child :: more => child.fullField <:+: region ∧ child.Nested ∧ NestedIn region more

end

/-- The children's loop reads from a suffix of the parent's value; each child
starts where the loop stands, and the loop only moves forward. -/
theorem parseChildren_nestedIn {region : List UInt8} (count : Nat) (children : List UInt8)
    (inside : children <:+ region)
    (nested : ∀ bfield : List UInt8, bfield.length ≤ children.length → (qdParseInternal bfield).Nested) :
    NestedIn region (parseChildren count children).1 := by
  induction count generalizing children with
  | zero => simp only [parseChildren_zero, NestedIn]
  | succ count more =>
      have first : (qdParseInternal children).fullField <:+: region :=
        (qdParseInternal_fullField_prefixOf children).isInfix.trans inside.isInfix
      cases failed : (qdParseInternal children).parseError with
      | some error =>
          rw [parseChildren_succ_of_error failed]
          exact ⟨first, nested children le_rfl, trivial⟩
      | none =>
          have after := parseAmqpField_suffix children
          rw [parseChildren_succ failed]
          refine ⟨first, nested children le_rfl, more _ (after.trans inside) ?_⟩
          intro bfield shorter
          exact nested bfield (shorter.trans after.length_le)

/-- Whatever the input, every child of the parse lies inside its parent's value.
The induction is on the length of the input: children are parsed from the
value, which is shorter. -/
theorem qdParseInternal_nested (bfield : List UInt8) : (qdParseInternal bfield).Nested := by
  induction h : bfield.length using Nat.strong_induction_on generalizing bfield with
  | _ length shorter =>
      cases read : (parseAmqpField bfield).error with
      | some error =>
          rw [qdParseInternal_of_error read]
          trivial
      | none =>
          have whole : parseAmqpField bfield =
              ⟨(parseAmqpField bfield).amqp, (parseAmqpField bfield).rest, none⟩ := by
            rw [← read]
          have smaller := parseAmqpField_value_length bfield read
          rw [qdParseInternal_of_read whole]
          refine parseChildren_nestedIn _ _ (List.suffix_refl _) fun value within => ?_
          exact shorter value.length (by omega) value rfl

/-! ### `qd_parse` -/

/-- `qd_parse` on an octet string that starts with a well-formed value without
arrays succeeds, its field spans exactly the value's octets and its children are
the value's elements, in order; on any octet string, every child lies inside
its parent's value. -/
theorem qd_parse_accepts_grammar :
    (∀ (value : Encoding) (rest : List UInt8), value.wellFormed = true →
      Spans value (qdParse (value.octets ++ rest))) ∧
      ∀ octets : List UInt8, (qdParse octets).Nested :=
  ⟨fun value rest wf => qdParseInternal_octets value rest wf, fun octets => qdParseInternal_nested octets⟩

/-- A map from the symbol `k` to a list of a `uint` and the string `hi`, followed
by a `null` that is not part of it. -/
theorem qd_parse_accepts_grammar_map :
    (Encoding.compound Tag.map8 [.sized Tag.sym8 [107],
        .compound Tag.list32 [.fixed Tag.uint [0, 0, 1, 44], .sized Tag.str8Utf8 [104, 105]]]).wellFormed =
        true ∧
      Spans (.compound Tag.map8 [.sized Tag.sym8 [107],
          .compound Tag.list32 [.fixed Tag.uint [0, 0, 1, 44], .sized Tag.str8Utf8 [104, 105]]])
        (qdParse ((Encoding.compound Tag.map8 [.sized Tag.sym8 [107],
          .compound Tag.list32 [.fixed Tag.uint [0, 0, 1, 44], .sized Tag.str8Utf8 [104, 105]]]).octets ++
          [Tag.null])) :=
  ⟨by decide, qd_parse_accepts_grammar.1 _ _ (by decide)⟩

/-- The array `e0 04 02 50 07 08` holds two `ubyte`s, 7 and 8, after one element
constructor. The parse reads the constructor and 7 as its first child, then takes
8 for the type code of the second, and fails. -/
theorem qd_parse_rejects_array :
    (qdParse [Tag.array8, 4, 2, Tag.ubyte, 7, 8]).parseError =
        some "Invalid Tag - No Length Information" ∧
      (qdParse [Tag.array8, 4, 2, Tag.ubyte, 7, 8]).children.map ParsedField.fullField =
        [[Tag.ubyte, 7], [8]] := by
  have array : parseAmqpField [Tag.array8, 4, 2, Tag.ubyte, 7, 8] =
      ⟨{ tag := Tag.array8, size := 4, count := 2, value := [Tag.ubyte, 7, 8] }, [], none⟩ := by
    decide
  have first : parseAmqpField [Tag.ubyte, 7, 8] = ⟨{ tag := Tag.ubyte, size := 1, value := [7] }, [8], none⟩ := by
    decide
  have second : (parseAmqpField [8]).error = some "Invalid Tag - No Length Information" := by
    decide
  -- the first child has no count, so no children of its own, and parses
  have firstChild : qdParseInternal [Tag.ubyte, 7, 8] =
      ⟨[Tag.ubyte, 7], { tag := Tag.ubyte, size := 1, value := [7] }, [], none⟩ := by
    rw [qdParseInternal_of_read first]
    simp only [UInt32.toNat_zero, parseChildren_zero]
    rfl
  have secondChild := qdParseInternal_of_error second
  have children : parseChildren 2 [Tag.ubyte, 7, 8] =
      ([qdParseInternal [Tag.ubyte, 7, 8], qdParseInternal [8]], some "Invalid Tag - No Length Information") := by
    rw [parseChildren_succ (by rw [firstChild]), first,
      parseChildren_succ_of_error (by rw [secondChild])]
  rw [qdParse, qdParseInternal_of_read array]
  simp only [UInt32.reduceToNat, children]
  rw [firstChild, secondChild]
  exact ⟨trivial, rfl⟩

end DispatchRouter.Amqp
