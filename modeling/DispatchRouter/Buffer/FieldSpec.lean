/-
# Buffer fields refine octet lists

A well-formed field (valid for its chain and normalized) stands for the list
of its octets. Each loop of `buffer_field_api.h` moves the field on by some
octets (`Advanced`): the chain from the new cursor is the rest of the old one,
the count is that much lower, and the field is again well formed. The fast path
moves inside the cursor's buffer (`Advanced.skip`); the slow path passes the
rest of the buffer and normalizes (`skip_normalize`), which lands strictly
further down the chain while octets remain, so one round per buffer is enough
for the loops.

Read through `octets`, each operation is then the list operation the parsers
of `Amqp` use.
-/

import DispatchRouter.Buffer.Field

namespace DispatchRouter.Buffer

open QdBufferField

namespace QdBufferField

/-- A field both valid for its chain and normalized, as `qd_buffer_field`
builds it. -/
structure WellFormed (field : QdBufferField) : Prop where
  valid : field.Valid
  normal : field.Normal

/-! ### The chain from the cursor -/

theorem length_drop_cursor (field : QdBufferField) :
    (field.buffer.drop field.cursor).length = field.avail := by
  simp only [List.length_drop, avail]

theorem stream_skip {field : QdBufferField} {count : Nat} (le : count ≤ field.avail) :
    (field.skip count).stream = field.stream.drop count := by
  have inBuffer : count ≤ (field.buffer.drop field.cursor).length := by
    rw [length_drop_cursor]; exact le
  simp only [stream, skip]
  rw [List.drop_append_of_le_length inBuffer, List.drop_drop]

theorem take_stream {field : QdBufferField} {count : Nat} (le : count ≤ field.avail) :
    field.stream.take count = (field.buffer.drop field.cursor).take count := by
  apply List.take_append_of_le_length
  rw [length_drop_cursor]; exact le

/-- Past the rest of the cursor's buffer, a copy goes on in the chain after
it. -/
theorem take_stream_of_avail_le {field : QdBufferField} {count : Nat} (le : field.avail ≤ count) :
    field.stream.take count =
      field.buffer.drop field.cursor ++ (field.stream.drop field.avail).take (count - field.avail) := by
  have whole : (field.buffer.drop field.cursor).take count = field.buffer.drop field.cursor := by
    apply List.take_of_length_le
    rw [length_drop_cursor]; exact le
  rw [stream, List.take_append, whole, length_drop_cursor, List.drop_left' (length_drop_cursor field)]

theorem length_octets {field : QdBufferField} (valid : field.Valid) :
    field.octets.length = field.remaining := by
  simp only [octets, List.length_take]
  have := valid.remaining_le
  omega

theorem Valid.skip {field : QdBufferField} (valid : field.Valid) {count : Nat} (le : count ≤ field.avail) :
    (field.skip count).Valid := by
  have := valid.remaining_le
  have := valid.cursor_le
  constructor
  · simp only [QdBufferField.skip, avail] at le ⊢
    omega
  · rw [stream_skip le, List.length_drop]
    simp only [QdBufferField.skip]
    omega

/-! ### Moving a field on -/

/-- `after` is `field` moved on by `count` octets: the chain from its cursor
is the rest of the old one, it holds `count` octets fewer, and it is well
formed. -/
structure Advanced (field after : QdBufferField) (count : Nat) : Prop where
  stream_eq : after.stream = field.stream.drop count
  remaining_eq : after.remaining = field.remaining - count
  wellFormed : after.WellFormed

theorem Advanced.refl {field : QdBufferField} (wellFormed : field.WellFormed) : Advanced field field 0 :=
  ⟨rfl, rfl, wellFormed⟩

theorem Advanced.trans {field middle after : QdBufferField} {first second : Nat}
    (toMiddle : Advanced field middle first) (toAfter : Advanced middle after second) :
    Advanced field after (first + second) where
  stream_eq := by rw [toAfter.stream_eq, toMiddle.stream_eq, List.drop_drop]
  remaining_eq := by rw [toAfter.remaining_eq, toMiddle.remaining_eq, Nat.sub_sub]
  wellFormed := toAfter.wellFormed

/-- The fast path: a count short of the end of the cursor's buffer. -/
theorem Advanced.skip {field : QdBufferField} (wellFormed : field.WellFormed) {count : Nat}
    (lt : count < field.avail) : Advanced field (field.skip count) count where
  stream_eq := stream_skip lt.le
  remaining_eq := rfl
  wellFormed := by
    refine ⟨wellFormed.valid.skip lt.le, fun _ => ?_⟩
    simp only [QdBufferField.skip, avail] at lt ⊢
    omega

/-- What is left of the octets of a field moved on. -/
theorem Advanced.octets {field after : QdBufferField} {count : Nat} (advanced : Advanced field after count) :
    after.octets = field.octets.drop count := by
  rw [QdBufferField.octets, QdBufferField.octets, advanced.stream_eq, advanced.remaining_eq, List.drop_take]

end QdBufferField

/-! ### Normalizing -/

/-- The loop of `qd_buffer_field_normalize` on a chain with an octet after the
cursor: it stops at an octet, the chain from the cursor unchanged, and lands
further down the chain if it starts at the end of a buffer. -/
theorem normalizeLoop_spec (next : List (List UInt8)) :
    ∀ (cursor : Nat) (buffer : List UInt8), cursor ≤ buffer.length →
      buffer.drop cursor ++ next.flatten ≠ [] →
      ∃ moved, normalizeLoop cursor buffer next = some moved ∧
        moved.1.drop moved.2.2 ++ moved.2.1.flatten = buffer.drop cursor ++ next.flatten ∧
        moved.2.2 < moved.1.length ∧ moved.2.1.length ≤ next.length ∧
        (cursor = buffer.length → moved.2.1.length < next.length) := by
  induction next with
  | nil =>
      intro cursor buffer le nonempty
      have notEnd : cursor ≠ buffer.length := by
        intro atEnd
        simp [atEnd] at nonempty
      refine ⟨(buffer, [], cursor), by simp [normalizeLoop, notEnd], rfl, show cursor < buffer.length by omega,
        le_refl _, ?_⟩
      exact fun atEnd => absurd atEnd notEnd
  | cons following rest ih =>
      intro cursor buffer le nonempty
      by_cases atEnd : cursor = buffer.length
      · -- the rest of this buffer is empty: the chain goes on in `following`
        have sameStream : buffer.drop cursor ++ (following :: rest).flatten = following.drop 0 ++ rest.flatten := by
          simp [atEnd]
        obtain ⟨moved, loop, stream, inside, shorter, -⟩ :=
          ih 0 following (Nat.zero_le _) (by rw [← sameStream]; exact nonempty)
        refine ⟨moved, by rw [normalizeLoop, if_pos atEnd, loop], by rw [stream, sameStream], inside, ?_, ?_⟩
        · simp only [List.length_cons]; omega
        · intro _; simp only [List.length_cons]; omega
      · refine ⟨(buffer, following :: rest, cursor), by rw [normalizeLoop, if_neg atEnd], rfl,
          show cursor < buffer.length by omega, le_refl _, fun atEnd' => absurd atEnd' atEnd⟩

/-- `qd_buffer_field_normalize` on a valid field: the field is the same octets
and well formed, and lands further down the chain if it starts non-empty at the
end of a buffer. -/
theorem qdBufferFieldNormalize_spec {field : QdBufferField} (valid : field.Valid) :
    ∃ moved, qdBufferFieldNormalize field = some moved ∧ Advanced field moved 0 ∧
      (field.remaining ≠ 0 → field.cursor = field.buffer.length → moved.next.length < field.next.length) := by
  by_cases empty : field.remaining = 0
  · refine ⟨field, by simp [qdBufferFieldNormalize, empty], ⟨rfl, rfl, valid, fun nonzero => ?_⟩,
      fun nonzero => absurd empty nonzero⟩
    exact absurd empty nonzero
  · have nonempty : field.buffer.drop field.cursor ++ field.next.flatten ≠ [] := by
      intro empty
      have := valid.remaining_le
      rw [stream, empty, List.length_nil] at this
      omega
    obtain ⟨moved, loop, sameStream, inside, -, further⟩ :=
      normalizeLoop_spec field.next field.cursor field.buffer valid.cursor_le nonempty
    refine ⟨{ field with buffer := moved.1, next := moved.2.1, cursor := moved.2.2 }, ?_, ?_, ?_⟩
    · simp [qdBufferFieldNormalize, empty, loop]
    · have movedStream : ({ field with buffer := moved.1, next := moved.2.1, cursor := moved.2.2 } :
          QdBufferField).stream = field.stream := sameStream
      refine ⟨by rw [movedStream, List.drop_zero], rfl, ⟨⟨inside.le, ?_⟩, fun _ => inside⟩⟩
      rw [movedStream]
      exact valid.remaining_le
    · exact fun _ atEnd => further atEnd

/-- The slow path of the loops, and the step of `qd_buffer_field_octet`: a
count within the cursor's buffer passed and the field normalized. Passing the
whole rest of the buffer with octets left lands further down the chain. -/
theorem skip_normalize {field : QdBufferField} (valid : field.Valid) {count : Nat}
    (le : count ≤ field.avail) (within : count ≤ field.remaining) :
    ∃ moved, qdBufferFieldNormalize (field.skip count) = some moved ∧ Advanced field moved count ∧
      (count = field.avail → field.remaining - count ≠ 0 → moved.next.length < field.next.length) := by
  obtain ⟨moved, normalized, advanced, further⟩ := qdBufferFieldNormalize_spec (valid.skip le)
  refine ⟨moved, normalized, ⟨?_, advanced.remaining_eq, advanced.wellFormed⟩, ?_⟩
  · rw [advanced.stream_eq, List.drop_zero, stream_skip le]
  · intro whole left
    apply further left
    have := valid.cursor_le
    simp only [QdBufferField.skip, avail] at whole ⊢
    omega

/-! ### The loops -/

section Loops

variable {fuel : Nat}

/-- The loop of `qd_buffer_field_ncopy` copies the next `count` octets of the
chain and moves the field past them. -/
theorem ncopyLoop_spec (fuel count : Nat) (field : QdBufferField) (wellFormed : field.WellFormed)
    (within : count ≤ field.remaining) (enough : field.remaining ≠ 0 → field.next.length < fuel) :
    ∃ after, ncopyLoop fuel count field = some (field.stream.take count, after) ∧
      Advanced field after count := by
  induction fuel generalizing count field with
  | zero =>
      by_cases finished : count = 0
      · subst finished
        exact ⟨field, by simp [ncopyLoop], Advanced.refl wellFormed⟩
      · have := enough (by omega)
        omega
  | succ fuel ih =>
      by_cases finished : count = 0
      · subst finished
        exact ⟨field, by simp [ncopyLoop], Advanced.refl wellFormed⟩
      by_cases fast : count < field.avail
      · refine ⟨field.skip count, ?_, Advanced.skip wellFormed fast⟩
        rw [ncopyLoop, if_neg finished, if_pos fast, take_stream fast.le]
      · -- the slow path: the rest of the buffer, then the rest of the count from the next
        obtain ⟨moved, normalized, passed, further⟩ := skip_normalize wellFormed.valid le_rfl (by omega)
        have movedEnough : moved.remaining ≠ 0 → moved.next.length < fuel := by
          intro left
          rw [passed.remaining_eq] at left
          have := further rfl left
          have := enough (by omega)
          omega
        obtain ⟨after, copied, rest⟩ :=
          ih (count - field.avail) moved passed.wellFormed (by rw [passed.remaining_eq]; omega) movedEnough
        have whole := passed.trans rest
        rw [Nat.add_sub_cancel' (by omega)] at whole
        refine ⟨after, ?_, whole⟩
        rw [ncopyLoop, if_neg finished, if_neg fast]
        simp only [normalized, Option.bind_some, copied, Option.map_some, passed.stream_eq]
        rw [take_stream_of_avail_le (by omega)]

/-- `qd_buffer_field_advance`'s loop is `qd_buffer_field_ncopy`'s without the
copy. -/
theorem advanceLoop_eq_ncopyLoop (fuel count : Nat) (field : QdBufferField) :
    advanceLoop fuel count field = (ncopyLoop fuel count field).map (·.2) := by
  induction fuel generalizing count field with
  | zero =>
      by_cases finished : count = 0
      · simp [advanceLoop, ncopyLoop, finished]
      · simp [advanceLoop, ncopyLoop, finished, Nat.pos_of_ne_zero finished]
  | succ fuel ih =>
      by_cases finished : count = 0
      · simp [advanceLoop, ncopyLoop, finished]
      rw [advanceLoop, ncopyLoop, if_pos (Nat.pos_of_ne_zero finished), if_neg finished]
      by_cases fast : count < field.avail
      · simp [fast]
      · simp only [fast, if_false]
        cases qdBufferFieldNormalize (field.skip field.avail) with
        | none => rfl
        | some moved => simp [ih, Function.comp_def]

/-- The loop of `qd_buffer_field_equal` finds whether the chain starts with
`data`; it moves the field past `data` if so. -/
theorem equalLoop_spec (fuel : Nat) (data : List UInt8) (field : QdBufferField) (wellFormed : field.WellFormed)
    (within : data.length ≤ field.remaining) (enough : field.remaining ≠ 0 → field.next.length < fuel) :
    (data <+: field.stream → ∃ after, equalLoop fuel data field = some (some after) ∧
      Advanced field after data.length) ∧
    (¬ data <+: field.stream → equalLoop fuel data field = some none) := by
  induction fuel generalizing data field with
  | zero =>
      by_cases finished : data.length = 0
      · rw [List.length_eq_zero_iff] at finished
        subst finished
        exact ⟨fun _ => ⟨field, by simp [equalLoop], Advanced.refl wellFormed⟩,
          fun notPrefix => absurd List.nil_prefix notPrefix⟩
      · have := enough (by omega)
        omega
  | succ fuel ih =>
      by_cases finished : data.length = 0
      · rw [List.length_eq_zero_iff] at finished
        subst finished
        exact ⟨fun _ => ⟨field, by simp [equalLoop], Advanced.refl wellFormed⟩,
          fun notPrefix => absurd List.nil_prefix notPrefix⟩
      by_cases fast : data.length < field.avail
      · -- one comparison inside the cursor's buffer
        have loop : equalLoop (fuel + 1) data field =
            if data ≠ (field.buffer.drop field.cursor).take data.length then some none
            else some (some (field.skip data.length)) := by
          rw [equalLoop, if_pos finished, if_pos fast]
        have prefixIff : data <+: field.stream ↔ data = (field.buffer.drop field.cursor).take data.length := by
          rw [List.prefix_iff_eq_take, take_stream fast.le]
        rw [loop]
        by_cases same : data = (field.buffer.drop field.cursor).take data.length
        · rw [if_neg (not_not.mpr same)]
          exact ⟨fun _ => ⟨field.skip _, rfl, Advanced.skip wellFormed fast⟩,
            fun notPrefix => absurd (prefixIff.mpr same) notPrefix⟩
        · rw [if_pos same]
          exact ⟨fun isPrefix => absurd (prefixIff.mp isPrefix) same, fun _ => rfl⟩
      · -- the rest of the buffer compared, then the rest of `data` from the next
        have loop : equalLoop (fuel + 1) data field =
            if data.take field.avail ≠ field.buffer.drop field.cursor then some none
            else (qdBufferFieldNormalize (field.skip field.avail)).bind
              (equalLoop fuel (data.drop field.avail)) := by
          rw [equalLoop, if_pos finished, if_neg fast]
        have restOfBuffer : field.stream.take field.avail = field.buffer.drop field.cursor := by
          rw [take_stream le_rfl]
          apply List.take_of_length_le
          rw [length_drop_cursor]
        rw [loop]
        by_cases same : data.take field.avail = field.buffer.drop field.cursor
        · rw [if_neg (not_not.mpr same)]
          obtain ⟨moved, normalized, passed, further⟩ := skip_normalize wellFormed.valid le_rfl (by omega)
          have movedEnough : moved.remaining ≠ 0 → moved.next.length < fuel := by
            intro left
            rw [passed.remaining_eq] at left
            have := further rfl left
            have := enough (by omega)
            omega
          -- both lists start with the rest of the cursor's buffer
          have streamSplit : field.stream = field.buffer.drop field.cursor ++ field.stream.drop field.avail := by
            rw [stream, List.drop_left' (length_drop_cursor field)]
          have dataSplit : data = field.buffer.drop field.cursor ++ data.drop field.avail := by
            rw [← same, List.take_append_drop]
          have prefixIff : data <+: field.stream ↔ data.drop field.avail <+: moved.stream := by
            rw [passed.stream_eq]
            conv_lhs => rw [dataSplit, streamSplit]
            exact List.prefix_append_right_inj _
          obtain ⟨found, notFound⟩ := ih (data.drop field.avail) moved passed.wellFormed
            (by rw [List.length_drop, passed.remaining_eq]; omega) movedEnough
          rw [normalized, Option.bind_some]
          refine ⟨fun isPrefix => ?_, fun notPrefix => notFound (fun isPrefix => notPrefix (prefixIff.mpr isPrefix))⟩
          obtain ⟨after, found, rest⟩ := found (prefixIff.mp isPrefix)
          have whole := passed.trans rest
          rw [List.length_drop, Nat.add_sub_cancel' (by omega)] at whole
          exact ⟨after, found, whole⟩
        · rw [if_pos same]
          refine ⟨fun isPrefix => absurd ?_ same, fun _ => rfl⟩
          rw [← restOfBuffer]
          obtain ⟨rest, eq⟩ := isPrefix
          rw [← eq, List.take_append_of_le_length (by omega)]

end Loops

/-! ### Appending to a buffer list -/

section Append

variable (bufferSize : Nat) [NeZero bufferSize]

theorem flatten_appendNewBuffers (data : List UInt8) : (appendNewBuffers bufferSize data).flatten = data := by
  fun_induction appendNewBuffers bufferSize data with
  | case1 data toCopy more ih => rw [List.flatten_cons, ih, List.take_append_drop]
  | case2 data toCopy last =>
      have rest : data.drop toCopy = [] := by
        apply List.drop_eq_nil_of_le
        omega
      rw [List.flatten_cons, List.flatten_nil, List.append_nil, ← List.append_nil (data.take toCopy), ← rest,
        List.take_append_drop]

/-- `qd_buffer_list_append` puts `data` after the octets of the list, however
it splits them into buffers. -/
theorem flatten_qdBufferListAppend (buflist : List (List UInt8)) (data : List UInt8) :
    (qdBufferListAppend bufferSize buflist data).flatten = buflist.flatten ++ data := by
  by_cases noData : data.length = 0
  · rw [qdBufferListAppend, if_pos noData, List.eq_nil_of_length_eq_zero noData, List.append_nil]
  rw [qdBufferListAppend, if_neg noData]
  -- an empty list is given one empty buffer, which adds no octets
  obtain ⟨front, tail, withTail⟩ : ∃ front tail,
      (if buflist.length = 0 then [[]] else buflist) = front ++ [tail] ∧ buflist.flatten = front.flatten ++ tail := by
    by_cases empty : buflist.length = 0
    · rw [List.eq_nil_of_length_eq_zero empty]
      exact ⟨[], [], by simp⟩
    · rcases List.eq_nil_or_concat buflist with isNil | ⟨front, tail, isConcat⟩
      · exact absurd (by rw [isNil]; rfl) empty
      · refine ⟨front, tail, by rw [if_neg empty, isConcat, List.concat_eq_append], ?_⟩
        rw [isConcat, List.concat_eq_append, List.flatten_append, List.flatten_singleton]
  simp only [withTail.1, List.dropLast_concat, List.getLastD_concat, List.flatten_append, List.flatten_cons,
    withTail.2, List.append_assoc]
  congr 2
  split
  · rw [flatten_appendNewBuffers, List.take_append_drop]
  · rename_i noMore
    have rest : data.drop (min data.length (bufferSize - tail.length)) = [] := by
      apply List.eq_nil_of_length_eq_zero
      omega
    rw [List.flatten_nil, List.append_nil, ← List.append_nil (data.take _), ← rest, List.take_append_drop]

/-- The loop of `qd_buffer_list_append_field` appends the octets the field
counts from the cursor on, and leaves the field empty with its cursor in its
buffer. -/
theorem appendFieldLoop_spec (next : List (List UInt8)) :
    ∀ (buflist : List (List UInt8)) (buffer : List UInt8) (cursor remaining : Nat),
      cursor ≤ buffer.length → remaining ≤ (buffer.drop cursor ++ next.flatten).length →
      ∃ out after, appendFieldLoop bufferSize buflist buffer cursor remaining next = some (out, after) ∧
        out.flatten = buflist.flatten ++ (buffer.drop cursor ++ next.flatten).take remaining ∧
        after.remaining = 0 ∧ after.Valid := by
  induction next with
  | nil =>
      intro buflist buffer cursor remaining le within
      by_cases empty : remaining = 0
      · refine ⟨buflist, ⟨buffer, [], cursor, remaining⟩, by rw [appendFieldLoop, if_neg (not_not.mpr empty)],
          by rw [empty, List.take_zero, List.append_nil], empty, ⟨le, by simp [empty]⟩⟩
      · have fits : remaining ≤ buffer.length - cursor := by
          simpa using within
        refine ⟨qdBufferListAppend bufferSize buflist ((buffer.drop cursor).take (min remaining (buffer.length - cursor))),
          ⟨buffer, [], cursor + min remaining (buffer.length - cursor), 0⟩, ?_, ?_, rfl, ?_⟩
        · rw [appendFieldLoop, if_pos empty, if_pos (by omega)]
        · rw [flatten_qdBufferListAppend, List.flatten_nil, List.append_nil, Nat.min_eq_left fits]
        · exact ⟨by simp only; omega, by simp [QdBufferField.stream]⟩
  | cons following rest ih =>
      intro buflist buffer cursor remaining le within
      by_cases empty : remaining = 0
      · refine ⟨buflist, ⟨buffer, following :: rest, cursor, remaining⟩,
          by rw [appendFieldLoop, if_neg (not_not.mpr empty)], by rw [empty, List.take_zero, List.append_nil],
          empty, ⟨le, by simp [empty]⟩⟩
      by_cases fits : remaining ≤ buffer.length - cursor
      · refine ⟨qdBufferListAppend bufferSize buflist ((buffer.drop cursor).take (min remaining (buffer.length - cursor))),
          ⟨buffer, following :: rest, cursor + min remaining (buffer.length - cursor), 0⟩, ?_, ?_, rfl, ?_⟩
        · rw [appendFieldLoop, if_pos empty, if_pos (by omega)]
        · rw [flatten_qdBufferListAppend, Nat.min_eq_left fits,
            List.take_append_of_le_length (by rw [List.length_drop]; exact fits)]
        · exact ⟨by simp only; omega, by simp [QdBufferField.stream]⟩
      · -- the whole rest of this buffer goes, and the loop goes on in `following`
        have whole : min remaining (buffer.length - cursor) = buffer.length - cursor := by omega
        have restWithin : remaining - (buffer.length - cursor) ≤ (following.drop 0 ++ rest.flatten).length := by
          simp only [List.length_append, List.length_drop, List.flatten_cons] at within ⊢
          omega
        obtain ⟨out, after, loop, appended, emptied, valid⟩ :=
          ih (qdBufferListAppend bufferSize buflist ((buffer.drop cursor).take (buffer.length - cursor)))
            following 0 (remaining - (buffer.length - cursor)) (Nat.zero_le _) restWithin
        refine ⟨out, after, ?_, ?_, emptied, valid⟩
        · rw [appendFieldLoop, if_pos empty, whole, if_neg (by omega)]
          exact loop
        · have wholeBuffer : (buffer.drop cursor).take (buffer.length - cursor) = buffer.drop cursor :=
            List.take_of_length_le (by simp)
          have split : (buffer.drop cursor ++ (following :: rest).flatten).take remaining =
              buffer.drop cursor ++ (following ++ rest.flatten).take (remaining - (buffer.length - cursor)) := by
            rw [List.take_append, List.take_of_length_le (by simp; omega), List.length_drop, List.flatten_cons]
          rw [appended, flatten_qdBufferListAppend, wholeBuffer, List.drop_zero, split, List.append_assoc]

end Append

/-! ### The operations, read as lists -/

/-- What an operation gives on a well-formed field, read as lists: its result
and the octets it leaves are `spec`, and the field it leaves is well formed. -/
def Refines {α : Type} (impl : Option (α × QdBufferField)) (spec : α × List UInt8) : Prop :=
  ∃ out after, impl = some (out, after) ∧ out = spec.1 ∧ after.octets = spec.2 ∧ after.WellFormed

theorem drop_min_remaining {field : QdBufferField} (valid : field.Valid) (n : Nat) :
    field.octets.drop (min n field.remaining) = field.octets.drop n := by
  rw [← length_octets valid]
  rcases Nat.le_total n field.octets.length with le | ge
  · rw [Nat.min_eq_left le]
  · rw [Nat.min_eq_right ge, List.drop_length, List.drop_eq_nil_of_le ge]

section Operations

variable {field : QdBufferField} (wellFormed : field.WellFormed)
include wellFormed

theorem qdBufferFieldNcopy_spec (n : Nat) :
    Refines (qdBufferFieldNcopy field n) (field.octets.take n, field.octets.drop n) := by
  obtain ⟨after, copied, advanced⟩ := ncopyLoop_spec (field.next.length + 1) (min n field.remaining) field
    wellFormed (Nat.min_le_right _ _) (fun _ => Nat.lt_succ_self _)
  refine ⟨_, after, copied, ?_, ?_, advanced.wellFormed⟩
  · rw [QdBufferField.octets, List.take_take]
  · rw [advanced.octets, drop_min_remaining wellFormed.valid]

theorem qdBufferFieldAdvance_spec (amount : Nat) :
    Refines (qdBufferFieldAdvance field amount) (Amqp.qdBufferFieldAdvance field.octets amount) := by
  obtain ⟨after, copied, advanced⟩ := ncopyLoop_spec (field.next.length + 1) (min amount field.remaining) field
    wellFormed (Nat.min_le_right _ _) (fun _ => Nat.lt_succ_self _)
  refine ⟨field.remaining - after.remaining, after, ?_, ?_, ?_, advanced.wellFormed⟩
  · rw [qdBufferFieldAdvance, advanceLoop_eq_ncopyLoop, copied]
    rfl
  · rw [Amqp.qdBufferFieldAdvance, length_octets wellFormed.valid, advanced.remaining_eq]
    have := Nat.min_le_right amount field.remaining
    simp only
    omega
  · rw [advanced.octets, drop_min_remaining wellFormed.valid]
    rfl

theorem qdBufferFieldOctet_spec :
    Refines (qdBufferFieldOctet field) (field.octets.head?, field.octets.tail) := by
  by_cases empty : field.remaining = 0
  · have noOctets : field.octets = [] := by
      rw [QdBufferField.octets, empty, List.take_zero]
    refine ⟨none, field, by rw [qdBufferFieldOctet, if_neg (not_not.mpr empty)], ?_, ?_, wellFormed⟩ <;>
      rw [noOctets] <;> rfl
  · have inside := wellFormed.normal empty
    obtain ⟨moved, normalized, advanced, -⟩ := skip_normalize wellFormed.valid
      (show 1 ≤ field.avail by simp only [avail]; omega) (by omega)
    refine ⟨_, moved, by rw [qdBufferFieldOctet, if_pos empty, if_pos inside, normalized]; rfl, ?_, ?_,
      advanced.wellFormed⟩
    · rw [QdBufferField.octets, List.head?_take, if_neg empty, stream, List.head?_append, List.head?_drop]
      simp [List.getElem?_eq_getElem inside]
    · rw [advanced.octets, List.drop_one]

theorem qdBufferFieldUint32_spec :
    (∀ value rest, Amqp.qdBufferFieldUint32 field.octets = some (value, rest) →
      Refines (qdBufferFieldUint32 field) (some value, rest)) ∧
    (Amqp.qdBufferFieldUint32 field.octets = none → qdBufferFieldUint32 field = some (none, field)) := by
  constructor
  · intro value rest read
    -- four octets and the rest
    obtain ⟨b₀, b₁, b₂, b₃, isFour, decoded⟩ : ∃ b₀ b₁ b₂ b₃, field.octets = b₀ :: b₁ :: b₂ :: b₃ :: rest ∧
        value = Amqp.qdParseUint32Decode b₀ b₁ b₂ b₃ := by
      match octets : field.octets, read with
      | b₀ :: b₁ :: b₂ :: b₃ :: more, read =>
          simp only [Amqp.qdBufferFieldUint32, Option.some.injEq, Prod.mk.injEq] at read
          exact ⟨b₀, b₁, b₂, b₃, by rw [read.2], read.1.symm⟩
    have four : field.remaining ≥ 4 := by
      rw [← length_octets wellFormed.valid, isFour]
      simp
    obtain ⟨copied, after, ncopy, isCopied, left, afterWellFormed⟩ := qdBufferFieldNcopy_spec wellFormed 4
    refine ⟨_, after, by rw [qdBufferFieldUint32, if_pos four, ncopy]; rfl, ?_, ?_, afterWellFormed⟩
    · rw [isCopied, isFour, decoded]
      rfl
    · rw [left, isFour]
      rfl
  · intro short
    have few : ¬ field.remaining ≥ 4 := by
      rw [← length_octets wellFormed.valid]
      match octets : field.octets, short with
      | b₀ :: b₁ :: b₂ :: b₃ :: more, short => simp [Amqp.qdBufferFieldUint32] at short
      | [], _ => simp
      | [_], _ => simp
      | [_, _], _ => simp
      | [_, _, _], _ => simp
    rw [qdBufferFieldUint32, if_neg few]

theorem qdBufferFieldEqual_spec (data : List UInt8) :
    Refines (qdBufferFieldEqual field data) (Amqp.qdBufferFieldEqual field.octets data,
      if Amqp.qdBufferFieldEqual field.octets data then field.octets.drop data.length else field.octets) ∧
    (Amqp.qdBufferFieldEqual field.octets data = false → qdBufferFieldEqual field data = some (false, field)) := by
  have prefixIff : Amqp.qdBufferFieldEqual field.octets data = true ↔
      data <+: field.stream ∧ data.length ≤ field.remaining := by
    rw [Amqp.qdBufferFieldEqual, List.isPrefixOf_iff_prefix, QdBufferField.octets, List.prefix_take_iff]
  by_cases short : field.remaining < data.length
  · have differs : Amqp.qdBufferFieldEqual field.octets data = false := by
      rw [Bool.eq_false_iff, ne_eq, prefixIff]
      omega
    have restored : qdBufferFieldEqual field data = some (false, field) := by
      rw [qdBufferFieldEqual, if_pos short]
    rw [differs]
    exact ⟨⟨false, field, restored, rfl, rfl, wellFormed⟩, fun _ => restored⟩
  · obtain ⟨found, notFound⟩ := equalLoop_spec (field.next.length + 1) data field wellFormed (by omega)
      (fun _ => Nat.lt_succ_self _)
    by_cases isPrefix : data <+: field.stream
    · obtain ⟨after, loop, advanced⟩ := found isPrefix
      have same : Amqp.qdBufferFieldEqual field.octets data = true := prefixIff.mpr ⟨isPrefix, by omega⟩
      rw [same]
      refine ⟨⟨true, after, by rw [qdBufferFieldEqual, if_neg short, loop]; rfl, rfl, advanced.octets,
        advanced.wellFormed⟩, fun differs => absurd differs (by simp)⟩
    · have differs : Amqp.qdBufferFieldEqual field.octets data = false := by
        rw [Bool.eq_false_iff, ne_eq, prefixIff]
        exact fun both => isPrefix both.1
      have restored : qdBufferFieldEqual field data = some (false, field) := by
        rw [qdBufferFieldEqual, if_neg short, notFound isPrefix]
        rfl
      rw [differs]
      exact ⟨⟨false, field, restored, rfl, rfl, wellFormed⟩, fun _ => restored⟩

theorem qdBufferListAppendField_spec (bufferSize : Nat) [NeZero bufferSize] (buflist : List (List UInt8)) :
    Refines ((qdBufferListAppendField bufferSize buflist field).map fun appended => (appended.1.flatten, appended.2))
      (buflist.flatten ++ field.octets, []) := by
  obtain ⟨out, after, loop, appended, emptied, valid⟩ := appendFieldLoop_spec bufferSize field.next buflist
    field.buffer field.cursor field.remaining wellFormed.valid.cursor_le wellFormed.valid.remaining_le
  refine ⟨out.flatten, after, by rw [qdBufferListAppendField, loop]; rfl, appended, ?_, valid,
    fun nonzero => absurd emptied nonzero⟩
  rw [QdBufferField.octets, emptied, List.take_zero]

end Operations

/-- Read as the list of its octets, each operation on a well-formed field is
the list operation the parsers use, and leaves a well-formed field. -/
theorem buffer_field_ops_refine_octet_lists (bufferSize : Nat) [NeZero bufferSize] (field : QdBufferField)
    (wellFormed : field.WellFormed) :
    (∀ n, Refines (qdBufferFieldNcopy field n) (field.octets.take n, field.octets.drop n)) ∧
    (∀ amount, Refines (qdBufferFieldAdvance field amount) (Amqp.qdBufferFieldAdvance field.octets amount)) ∧
    Refines (qdBufferFieldOctet field) (field.octets.head?, field.octets.tail) ∧
    ((∀ value rest, Amqp.qdBufferFieldUint32 field.octets = some (value, rest) →
        Refines (qdBufferFieldUint32 field) (some value, rest)) ∧
      (Amqp.qdBufferFieldUint32 field.octets = none → qdBufferFieldUint32 field = some (none, field))) ∧
    (∀ data, Refines (qdBufferFieldEqual field data) (Amqp.qdBufferFieldEqual field.octets data,
        if Amqp.qdBufferFieldEqual field.octets data then field.octets.drop data.length else field.octets) ∧
      (Amqp.qdBufferFieldEqual field.octets data = false → qdBufferFieldEqual field data = some (false, field))) ∧
    (∀ buflist, Refines ((qdBufferListAppendField bufferSize buflist field).map fun appended =>
      (appended.1.flatten, appended.2)) (buflist.flatten ++ field.octets, [])) :=
  ⟨qdBufferFieldNcopy_spec wellFormed, qdBufferFieldAdvance_spec wellFormed, qdBufferFieldOctet_spec wellFormed,
    qdBufferFieldUint32_spec wellFormed, qdBufferFieldEqual_spec wellFormed,
    qdBufferListAppendField_spec wellFormed bufferSize⟩

/-- A field of four octets that starts inside a buffer of two and runs on past
an empty buffer into one of three. -/
theorem buffer_field_ops_refine_octet_lists_chain :
    QdBufferField.WellFormed ⟨[1, 2], [[], [3, 4, 5]], 1, 4⟩ ∧
    (∀ n, Refines (qdBufferFieldNcopy ⟨[1, 2], [[], [3, 4, 5]], 1, 4⟩ n)
      ((QdBufferField.octets ⟨[1, 2], [[], [3, 4, 5]], 1, 4⟩).take n,
        (QdBufferField.octets ⟨[1, 2], [[], [3, 4, 5]], 1, 4⟩).drop n)) ∧
    (∀ amount, Refines (qdBufferFieldAdvance ⟨[1, 2], [[], [3, 4, 5]], 1, 4⟩ amount)
      (Amqp.qdBufferFieldAdvance (QdBufferField.octets ⟨[1, 2], [[], [3, 4, 5]], 1, 4⟩) amount)) ∧
    Refines (qdBufferFieldOctet ⟨[1, 2], [[], [3, 4, 5]], 1, 4⟩)
      ((QdBufferField.octets ⟨[1, 2], [[], [3, 4, 5]], 1, 4⟩).head?,
        (QdBufferField.octets ⟨[1, 2], [[], [3, 4, 5]], 1, 4⟩).tail) ∧
    ((∀ value rest, Amqp.qdBufferFieldUint32 (QdBufferField.octets ⟨[1, 2], [[], [3, 4, 5]], 1, 4⟩) =
          some (value, rest) →
        Refines (qdBufferFieldUint32 ⟨[1, 2], [[], [3, 4, 5]], 1, 4⟩) (some value, rest)) ∧
      (Amqp.qdBufferFieldUint32 (QdBufferField.octets ⟨[1, 2], [[], [3, 4, 5]], 1, 4⟩) = none →
        qdBufferFieldUint32 ⟨[1, 2], [[], [3, 4, 5]], 1, 4⟩ = some (none, ⟨[1, 2], [[], [3, 4, 5]], 1, 4⟩))) ∧
    (∀ data, Refines (qdBufferFieldEqual ⟨[1, 2], [[], [3, 4, 5]], 1, 4⟩ data)
        (Amqp.qdBufferFieldEqual (QdBufferField.octets ⟨[1, 2], [[], [3, 4, 5]], 1, 4⟩) data,
          if Amqp.qdBufferFieldEqual (QdBufferField.octets ⟨[1, 2], [[], [3, 4, 5]], 1, 4⟩) data then
            (QdBufferField.octets ⟨[1, 2], [[], [3, 4, 5]], 1, 4⟩).drop data.length
          else QdBufferField.octets ⟨[1, 2], [[], [3, 4, 5]], 1, 4⟩) ∧
      (Amqp.qdBufferFieldEqual (QdBufferField.octets ⟨[1, 2], [[], [3, 4, 5]], 1, 4⟩) data = false →
        qdBufferFieldEqual ⟨[1, 2], [[], [3, 4, 5]], 1, 4⟩ data = some (false, ⟨[1, 2], [[], [3, 4, 5]], 1, 4⟩))) ∧
    (∀ buflist, Refines ((qdBufferListAppendField 512 buflist ⟨[1, 2], [[], [3, 4, 5]], 1, 4⟩).map fun appended =>
      (appended.1.flatten, appended.2))
        (buflist.flatten ++ QdBufferField.octets ⟨[1, 2], [[], [3, 4, 5]], 1, 4⟩, [])) := by
  have wellFormed : QdBufferField.WellFormed ⟨[1, 2], [[], [3, 4, 5]], 1, 4⟩ :=
    ⟨⟨by decide, by decide⟩, fun _ => by decide⟩
  exact ⟨wellFormed, buffer_field_ops_refine_octet_lists 512 _ wellFormed⟩

end DispatchRouter.Buffer
