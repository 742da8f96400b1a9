/-
# The bulk paths of an iterator

`qd_iterator_octet` reads a view one octet at a time through its annotation
(the hash prefix, the phase and the tenant space) and then its body. Once the
iterator is in the field data (`in_field_data`: a view of everything, or a
body read to its end) the copies, the comparison, the advance and the hash of
`iterator.c` stop calling it and work on the view pointer at once:
`iterator_field_ncopy`, `iterator_field_equal` and
`iterator_field_move_cursor`.

Each bulk path gives what the octet loop (`readToEnd`) gives, octets and
iterator alike, from every iterator that is `Coherent`: the annotation left to
read is as long as the annotation count says or the view is at its end, and a
view of everything is in a body read to its end. An octet read before the end
keeps that and lowers what is left (`Coherent.octet`), which carries each
bulk path, by induction on its bound, through the annotation to the field
data, where the field data is the rest of the view pointer
(`Coherent.raw_of_inFieldData`). So `qd_iterator_ncopy`, `qd_iterator_copy`,
`qd_iterator_equal` and `qd_iterator_hash_view` act on a view whose reset is
coherent as the hash table's model of them acts on the octets of the view.

As in `Iterator.View`, the field is one piece of memory; iterators over buffer
chains are not modelled.
-/

import DispatchRouter.Iterator.Trim
import DispatchRouter.Hash.Table

namespace DispatchRouter.Iterator

open QdIterator
open Amqp (CString)

/-! ### The model -/

/-- `iterator_field_ncopy` on a string or binary iterator: up to `n` octets
from the cursor, and the cursor past them. -/
def iteratorFieldNcopy (iter : QdIterator) (n : Nat) : List UInt8 × QdIterator :=
  (iter.viewPointer.take n, { iter with viewPointer := iter.viewPointer.drop n })

/-- `iterator_field_move_cursor` on a string or binary iterator. -/
def iteratorFieldMoveCursor (iter : QdIterator) (length : Nat) : QdIterator :=
  { iter with viewPointer := iter.viewPointer.drop length }

/-- `iterator_field_equal(iter, buffer, count)`, with `count` the length of
the buffer: the cursor passes the octets only when they are all there and
equal. -/
def iteratorFieldEqual (iter : QdIterator) (buffer : List UInt8) : Bool × QdIterator :=
  if iter.viewPointer.length < buffer.length then (false, iter)
  else if buffer ≠ iter.viewPointer.take buffer.length then (false, iter)
  else (true, { iter with viewPointer := iter.viewPointer.drop buffer.length })

/-- `iterator_view_copy(iter, buffer, n)`, with `n` the room the buffer has
left: one octet at a time until the field data, then the rest at once. -/
def iteratorViewCopy (iter : QdIterator) : Nat → List UInt8 × QdIterator
  | 0 => ([], iter)
  | room + 1 =>
      if iter.atEnd then ([], iter)
      else if !iter.inFieldData then
        let (octet, next) := qdIteratorOctet iter
        let (rest, last) := iteratorViewCopy next room
        (octet :: rest, last)
      else iteratorFieldNcopy iter (room + 1)

/-- `qd_iterator_advance`: one octet at a time until the field data, then the
cursor moved by what is left of the length. -/
def qdIteratorAdvance (iter : QdIterator) : Nat → QdIterator
  | 0 => iter
  | length + 1 =>
      if iter.atEnd then iter
      else if !iter.inFieldData then qdIteratorAdvance (qdIteratorOctet iter).2 length
      else iteratorFieldMoveCursor iter (length + 1)

/-- `qd_iterator_ncopy`: the view from its start, up to `n` octets. -/
def qdIteratorNcopy (iter : QdIterator) (n : Nat) : List UInt8 × QdIterator :=
  iteratorViewCopy (qdIteratorReset iter) n

/-- `qd_iterator_ncopy_octets`: up to `n` octets from where the iterator is. -/
def qdIteratorNcopyOctets (iter : QdIterator) (n : Nat) : List UInt8 × QdIterator :=
  iteratorViewCopy iter n

/-- `qd_iterator_copy`: the view copied into a buffer one octet longer than the
view; the octets copied, which the zero written after them ends. -/
def qdIteratorCopy (iter : QdIterator) : List UInt8 × QdIterator :=
  qdIteratorNcopy iter (iter.length + 1)

/-- `qd_iterator_uint8`: the first octet of the view, zero for an empty one. -/
def qdIteratorUint8 (iter : QdIterator) : UInt8 × QdIterator :=
  let iter := qdIteratorReset iter
  if iter.atEnd then (0, iter) else qdIteratorOctet iter

/-- The loop of `qd_iterator_equal`: octets compared one at a time with the
string until the field data, the end of the string or the end of the view;
`none` at an octet that differs, else what is left of the string. -/
def equalLoop (iter : QdIterator) : List UInt8 → Option (List UInt8) × QdIterator
  | [] => (some [], iter)
  | c :: cs =>
      if !iter.inFieldData && !iter.atEnd then
        let (octet, next) := qdIteratorOctet iter
        if c ≠ octet then (none, next) else equalLoop next cs
      else (some (c :: cs), iter)

/-- What `qd_iterator_equal` makes of the end of its loop, before the reset: a
match when string and view end together, else the rest of the string compared
with the field data, which must then be at its end. -/
def equalFinish : Option (List UInt8) × QdIterator → Bool × QdIterator
  | (none, iter) => (false, iter)
  | (some rest, iter) =>
      if rest = [] ∧ iter.atEnd then (true, iter)
      else if iter.inFieldData then
        let (equal, next) := iteratorFieldEqual iter rest
        (equal && next.atEnd, next)
      else (false, iter)

/-- `qd_iterator_equal(iter, string)`: whether the view is the string; the
iterator is left reset. -/
def qdIteratorEqual (iter : QdIterator) (string : CString) : Bool × QdIterator :=
  let (matched, last) := equalFinish (equalLoop (qdIteratorReset iter) string.octets)
  (matched, qdIteratorReset last)

/-- The loop of `qd_iterator_hash_view`: the view copied out 64 octets at a
time and each copy folded into the hash until the end of the view. `fuel`
bounds the rounds; each reads an octet at least, so the octets left are
enough (`Coherent.hashViewLoop_eq`). -/
def hashViewLoop : Nat → UInt32 → QdIterator → UInt32
  | 0, hash, _ => hash
  | fuel + 1, hash, iter =>
      if iter.atEnd then hash
      else
        let (copied, next) := iteratorViewCopy iter 64
        hashViewLoop fuel (copied.foldl Hash.hashCompute hash) next

/-- `qd_iterator_hash_view`. -/
def qdIteratorHashView (iter : QdIterator) : UInt32 :=
  let iter := qdIteratorReset iter
  hashViewLoop iter.remaining Hash.hashInit iter

/-! ### Coherent iterators -/

/-- What the bulk paths need of an iterator: the annotation the state machine
has left to read is at least as long as the count of it, and longer only once
the view pointer is at its end; and a view of everything is in a body read to
its end. -/
structure QdIterator.Coherent (iter : QdIterator) : Prop where
  annotation : ∃ front, annotationOctets iter = some front ∧ iter.annotationRemaining ≤ front.length ∧
    (iter.annotationRemaining < front.length → iter.viewPointer = [])
  all : iter.view = .all → iter.state = .inBody ∧ iter.mode = .toEnd

namespace QdIterator

variable {iter : QdIterator}

/-- An octet leaves the view alone. -/
@[simp]
theorem octet_view (iter : QdIterator) : (qdIteratorOctet iter).2.view = iter.view := by
  unfold qdIteratorOctet
  split
  · split <;> rfl
  all_goals rfl

/-- In the field data the iterator is in a body read to its end with no
annotation left, and what is left of the view is the view pointer. -/
theorem Coherent.raw_of_inFieldData (coherent : iter.Coherent) (field : iter.inFieldData = true) : iter.Raw := by
  have body : iter.state = .inBody ∧ iter.mode = .toEnd := by
    simp only [inFieldData, Bool.or_eq_true, beq_iff_eq, Bool.and_eq_true] at field
    rcases field with all | body
    · exact coherent.all all
    · exact body
  obtain ⟨front, annotated, within, -⟩ := coherent.annotation
  have noFront : front = [] := by simpa [annotationOctets, body.1] using annotated.symm
  exact ⟨body.1, body.2, by simpa [noFront] using within⟩

/-- An octet read before the end keeps the iterator coherent and lowers what
is left of the view. -/
theorem Coherent.octet (coherent : iter.Coherent) (notEnd : iter.atEnd = false) :
    (qdIteratorOctet iter).2.Coherent ∧ (qdIteratorOctet iter).2.remaining < iter.remaining := by
  obtain ⟨front, annotated, within, short⟩ := coherent.annotation
  have left : 0 < iter.remaining := Nat.pos_of_ne_zero (by simpa [atEnd] using notEnd)
  by_cases body : iter.state = .inBody
  · -- in the body the octet is the head of the view pointer, and a view read
    -- to the next slash may drop the rest
    have noFront : front = [] := by simpa [annotationOctets, body] using annotated.symm
    have counted : iter.annotationRemaining = 0 := by simpa [noFront] using within
    obtain ⟨c, rest, atC⟩ : ∃ c rest, iter.viewPointer = c :: rest := by
      cases pointer : iter.viewPointer with
      | nil => simp [remaining, pointer, counted] at left
      | cons c rest => exact ⟨c, rest, rfl⟩
    have stepped : qdIteratorOctet iter = (c, { iter with
        viewPointer := (if iter.mode = .toSlash ∧ rest.head? = some slash then [] else rest) }) := by
      simp only [qdIteratorOctet, body, atC]
    have shorter : (if iter.mode = .toSlash ∧ rest.head? = some slash then [] else rest).length ≤ rest.length := by
      split_ifs <;> simp
    rw [stepped]
    refine ⟨⟨⟨[], by simp [annotationOctets, body], by simp [counted], by simp [counted]⟩, coherent.all⟩, ?_⟩
    simp only [remaining, counted, atC, List.length_cons]
    omega
  · -- in the annotation the octet is the head of what is left of it
    obtain ⟨rest, rfl, next⟩ := octet_annotation body annotated
    obtain ⟨samePointer, -, counted⟩ := octet_annotation_frame body
    have started : 0 < iter.annotationRemaining := by
      by_contra none
      have empty : iter.viewPointer = [] := short (by simp at none ⊢; omega)
      simp [remaining, empty] at left
      omega
    refine ⟨⟨⟨rest, next, ?_, ?_⟩, ?_⟩, ?_⟩
    · simp only [List.length_cons] at within
      omega
    · intro fewer
      rw [samePointer]
      exact short (by simp only [List.length_cons] at fewer ⊢; omega)
    · intro all
      exact absurd (coherent.all (by simpa using all)).1 body
    · simp only [remaining, counted, samePointer]
      omega

/-! ### The octet loop -/

/-- At the end of the view the loop reads nothing. -/
theorem readToEnd_of_atEnd (ended : iter.atEnd = true) (fuel : Nat) : readToEnd fuel iter = ([], iter) := by
  cases fuel <;> simp [readToEnd, ended]

/-- Before the end the loop reads an octet, then goes on. -/
theorem readToEnd_succ (notEnd : iter.atEnd = false) (fuel : Nat) :
    readToEnd (fuel + 1) iter = ((qdIteratorOctet iter).1 :: (readToEnd fuel (qdIteratorOctet iter).2).1,
      (readToEnd fuel (qdIteratorOctet iter).2).2) := by
  simp [readToEnd, notEnd]

/-- The loop reads no more octets than its fuel. -/
theorem length_readToEnd_le (fuel : Nat) (iter : QdIterator) : (readToEnd fuel iter).1.length ≤ fuel := by
  induction fuel generalizing iter with
  | zero => simp [readToEnd]
  | succ fuel ih =>
      by_cases ended : iter.atEnd = true
      · simp [readToEnd_of_atEnd ended]
      · rw [readToEnd_succ (by simpa using ended)]
        simpa using ih _

/-- In a body read to its end the loop reads the view pointer. -/
theorem readToEnd_raw_take (n : Nat) :
    ∀ iter : QdIterator, iter.Raw →
      readToEnd n iter = (iter.viewPointer.take n, { iter with viewPointer := iter.viewPointer.drop n }) := by
  induction n with
  | zero => intro iter _; rfl
  | succ n ih =>
      intro iter raw
      cases pointer : iter.viewPointer with
      | nil =>
          have ended : iter.atEnd = true := by simp [atEnd_of_raw raw, pointer]
          have same : { iter with viewPointer := ([] : List UInt8) } = iter := by rw [← pointer]
          simp [readToEnd_of_atEnd ended, same]
      | cons c rest =>
          have notEnd : iter.atEnd = false := by simp [atEnd_of_raw raw, pointer]
          rw [readToEnd_succ notEnd, octet_raw raw pointer, ih _ (raw.with_viewPointer rest)]
          rfl

/-- Any fuel from the octets left up reads a coherent view to the same end: by
induction on the fuel, each octet lowering what is left. -/
theorem Coherent.readToEnd_fuel {fuel : Nat} :
    ∀ {iter : QdIterator} {fuel' : Nat}, iter.Coherent → iter.remaining ≤ fuel → iter.remaining ≤ fuel' →
      readToEnd fuel iter = readToEnd fuel' iter := by
  induction fuel with
  | zero =>
      intro iter fuel' _ enough _
      have ended : iter.atEnd = true := by simpa [atEnd] using enough
      rw [readToEnd_of_atEnd ended, readToEnd_of_atEnd ended]
  | succ fuel ih =>
      intro iter fuel' coherent enough enough'
      by_cases ended : iter.atEnd = true
      · rw [readToEnd_of_atEnd ended, readToEnd_of_atEnd ended]
      have notEnd : iter.atEnd = false := by simpa using ended
      obtain ⟨nextCoherent, lower⟩ := coherent.octet notEnd
      obtain ⟨fuel', rfl⟩ : ∃ f, fuel' = f + 1 :=
        Nat.exists_eq_succ_of_ne_zero (by simp [atEnd] at notEnd; omega)
      rw [readToEnd_succ notEnd, readToEnd_succ notEnd, @ih _ fuel' nextCoherent (by omega) (by omega)]

/-- What is left of a coherent view before its end: the next octet, then what
is left after it. -/
theorem Coherent.octets_cons (coherent : iter.Coherent) (notEnd : iter.atEnd = false) :
    (qdIteratorOctets iter).1 = (qdIteratorOctet iter).1 :: (qdIteratorOctets (qdIteratorOctet iter).2).1 := by
  obtain ⟨nextCoherent, lower⟩ := coherent.octet notEnd
  obtain ⟨left, isLeft⟩ : ∃ r, iter.remaining = r + 1 :=
    Nat.exists_eq_succ_of_ne_zero (by simpa [atEnd] using notEnd)
  rw [qdIteratorOctets, isLeft, readToEnd_succ notEnd,
    nextCoherent.readToEnd_fuel (by omega) (Nat.le_refl _)]
  rfl

/-- Nothing is left of a coherent view exactly at its end. -/
theorem Coherent.octets_eq_nil_iff (coherent : iter.Coherent) :
    (qdIteratorOctets iter).1 = [] ↔ iter.atEnd = true := by
  by_cases ended : iter.atEnd = true
  · simp [qdIteratorOctets, readToEnd_of_atEnd ended, ended]
  · simp [coherent.octets_cons (by simpa using ended), ended]

/-- Reading `n` octets of a coherent view one at a time takes the first `n` of
what is left, and leaves a coherent iterator with the rest. -/
theorem Coherent.readToEnd_take_drop (n : Nat) :
    ∀ {iter : QdIterator}, iter.Coherent →
      (readToEnd n iter).2.Coherent ∧ (readToEnd n iter).1 = (qdIteratorOctets iter).1.take n ∧
        (qdIteratorOctets (readToEnd n iter).2).1 = (qdIteratorOctets iter).1.drop n := by
  induction n with
  | zero => intro iter coherent; exact ⟨coherent, rfl, rfl⟩
  | succ n ih =>
      intro iter coherent
      by_cases ended : iter.atEnd = true
      · have empty := coherent.octets_eq_nil_iff.mpr ended
        rw [readToEnd_of_atEnd ended, empty]
        exact ⟨coherent, rfl, by simp⟩
      have notEnd : iter.atEnd = false := by simpa using ended
      obtain ⟨coherentAfter, taken, dropped⟩ := ih (coherent.octet notEnd).1
      rw [readToEnd_succ notEnd, coherent.octets_cons notEnd, List.take_succ_cons, List.drop_succ_cons]
      exact ⟨coherentAfter, by rw [taken], dropped⟩

/-- In a body read to its end what is left of the view is the view pointer. -/
theorem octets_of_raw (raw : iter.Raw) : (qdIteratorOctets iter).1 = iter.viewPointer := by
  rw [qdIteratorOctets, readToEnd_raw_take _ _ raw, remaining_of_raw raw, List.take_length]

/-- Read to its end, a coherent view read to its end gives as many octets as
it has left. -/
theorem Coherent.length_octets (coherent : iter.Coherent) (toEnd : iter.mode = .toEnd) :
    (qdIteratorOctets iter).1.length = iter.remaining := by
  obtain ⟨front, annotated, within, short⟩ := coherent.annotation
  rw [qdIteratorOctets, readToEnd_annotated _ iter front annotated toEnd within short (Nat.le_refl _),
    List.length_take, List.length_append]
  simp only [remaining]
  omega

/-! ### The bulk paths read as the octet loop does -/

/-- `iterator_view_copy` gives what reading up to `n` octets one at a time
gives, octets and iterator: by induction on the room, the field data copied at
once being the rest of the view pointer. -/
theorem Coherent.iteratorViewCopy_eq (n : Nat) :
    ∀ {iter : QdIterator}, iter.Coherent → iteratorViewCopy iter n = readToEnd n iter := by
  induction n with
  | zero => intro iter _; rfl
  | succ n ih =>
      intro iter coherent
      by_cases ended : iter.atEnd = true
      · rw [readToEnd_of_atEnd ended]
        simp [iteratorViewCopy, ended]
      have notEnd : iter.atEnd = false := by simpa using ended
      by_cases field : iter.inFieldData = true
      · -- the field data: the rest of the view pointer at once
        rw [readToEnd_raw_take _ _ (coherent.raw_of_inFieldData field)]
        simp [iteratorViewCopy, notEnd, field, iteratorFieldNcopy]
      · rw [readToEnd_succ notEnd, ← ih (coherent.octet notEnd).1]
        simp [iteratorViewCopy, notEnd, field]

/-- `qd_iterator_advance` leaves the iterator where reading `length` octets
one at a time does: by induction on the length, the field data passed at once. -/
theorem Coherent.qdIteratorAdvance_eq (length : Nat) :
    ∀ {iter : QdIterator}, iter.Coherent → qdIteratorAdvance iter length = (readToEnd length iter).2 := by
  induction length with
  | zero => intro iter _; rfl
  | succ length ih =>
      intro iter coherent
      by_cases ended : iter.atEnd = true
      · rw [readToEnd_of_atEnd ended]
        simp [qdIteratorAdvance, ended]
      have notEnd : iter.atEnd = false := by simpa using ended
      by_cases field : iter.inFieldData = true
      · rw [readToEnd_raw_take _ _ (coherent.raw_of_inFieldData field)]
        simp [qdIteratorAdvance, notEnd, field, iteratorFieldMoveCursor]
      · rw [readToEnd_succ notEnd, ← ih (coherent.octet notEnd).1]
        simp [qdIteratorAdvance, notEnd, field]

/-- In a body read to its end, `iterator_field_equal` followed by the test for
the end says whether the view pointer is the buffer. -/
theorem iteratorFieldEqual_atEnd (raw : iter.Raw) (buffer : List UInt8) :
    ((iteratorFieldEqual iter buffer).1 && (iteratorFieldEqual iter buffer).2.atEnd) =
      decide (iter.viewPointer = buffer) := by
  unfold iteratorFieldEqual
  by_cases fewer : iter.viewPointer.length < buffer.length
  · -- too few octets left
    have differ : iter.viewPointer ≠ buffer := fun same => by simp [same] at fewer
    simp [fewer, differ]
  by_cases differ : buffer ≠ iter.viewPointer.take buffer.length
  · have notSame : iter.viewPointer ≠ buffer := fun same => differ (by simp [same])
    simp [fewer, differ, notSame]
  · -- the buffer is the front of the view pointer; the rest must be empty
    have front : buffer = iter.viewPointer.take buffer.length := by simpa using differ
    have ends : ({ iter with viewPointer := iter.viewPointer.drop buffer.length } : QdIterator).atEnd =
        decide (iter.viewPointer.length ≤ buffer.length) := by
      rw [Bool.eq_iff_iff]
      simp [atEnd, remaining, raw.2.2]
      omega
    have whole : iter.viewPointer = buffer ↔ iter.viewPointer.length ≤ buffer.length := by
      constructor
      · intro same
        simp [same]
      · intro shorter
        rw [front, List.take_of_length_le shorter]
    simp only [fewer, differ, if_false, ends, Bool.true_and, decide_eq_decide]
    exact whole.symm

/-- The loop of `qd_iterator_equal` and what is made of its end say whether
what is left of a coherent view is the string: by induction on the string, an
octet at a time until the field data, which is compared at once. -/
theorem Coherent.equalFinish_equalLoop (string : List UInt8) :
    ∀ {iter : QdIterator}, iter.Coherent →
      (equalFinish (equalLoop iter string)).1 = decide ((qdIteratorOctets iter).1 = string) := by
  induction string with
  | nil =>
      intro iter coherent
      by_cases ended : iter.atEnd = true
      · simp [equalLoop, equalFinish, ended, coherent.octets_eq_nil_iff.mpr ended]
      have left : (qdIteratorOctets iter).1 ≠ [] := fun empty => ended (coherent.octets_eq_nil_iff.mp empty)
      by_cases field : iter.inFieldData = true
      · have matched := iteratorFieldEqual_atEnd (coherent.raw_of_inFieldData field) []
        have nonempty : iter.viewPointer ≠ [] := by rwa [← octets_of_raw (coherent.raw_of_inFieldData field)]
        simp only [nonempty, decide_false] at matched
        simp [equalLoop, equalFinish, ended, field, matched, left]
      · simp [equalLoop, equalFinish, ended, field, left]
  | cons c cs ih =>
      intro iter coherent
      by_cases go : (!iter.inFieldData && !iter.atEnd) = true
      · -- before the field data: one octet compared
        have notEnd : iter.atEnd = false := by simp_all
        rw [coherent.octets_cons notEnd]
        by_cases same : c = (qdIteratorOctet iter).1
        · have rest := ih (coherent.octet notEnd).1
          simp only [equalLoop, go, if_true, same, ne_eq, not_true_eq_false, if_false] at rest ⊢
          rw [rest]
          simp
        · simp [equalLoop, go, same, equalFinish, Ne.symm same]
      · -- the field data, or the end of the view
        simp only [Bool.and_eq_true, Bool.not_eq_true', not_and, Bool.not_eq_false] at go
        by_cases field : iter.inFieldData = true
        · have raw := coherent.raw_of_inFieldData field
          have matched := iteratorFieldEqual_atEnd raw (c :: cs)
          simp only [equalLoop, field, Bool.not_true, Bool.false_and, Bool.false_eq_true, if_false, equalFinish,
            reduceCtorEq, false_and, if_true]
          rw [matched, octets_of_raw raw]
        · have ended : iter.atEnd = true := go (by simpa using field)
          simp [equalLoop, field, ended, equalFinish, coherent.octets_eq_nil_iff.mpr ended]

/-- The loop of `qd_iterator_hash_view` folds what is left of a coherent view
into the hash 64 octets at a time, as the hash table's model does: by induction
on the fuel, each round taking the next 64 octets. -/
theorem Coherent.hashViewLoop_eq (fuel : Nat) :
    ∀ {iter : QdIterator} (hash : UInt32), iter.Coherent → (qdIteratorOctets iter).1.length ≤ fuel →
      hashViewLoop fuel hash iter = Hash.hashViewChunks hash (qdIteratorOctets iter).1 := by
  induction fuel with
  | zero =>
      intro iter hash _ enough
      rw [List.eq_nil_of_length_eq_zero (Nat.le_zero.mp enough), Hash.hashViewChunks, dif_pos rfl]
      rfl
  | succ fuel ih =>
      intro iter hash coherent enough
      by_cases ended : iter.atEnd = true
      · rw [coherent.octets_eq_nil_iff.mpr ended, Hash.hashViewChunks, dif_pos rfl]
        simp [hashViewLoop, ended]
      have notEnd : iter.atEnd = false := by simpa using ended
      have left : (qdIteratorOctets iter).1 ≠ [] := fun empty => ended (coherent.octets_eq_nil_iff.mp empty)
      obtain ⟨nextCoherent, taken, dropped⟩ := coherent.readToEnd_take_drop 64
      have fewer : ((qdIteratorOctets iter).1.drop 64).length ≤ fuel := by
        have : 0 < (qdIteratorOctets iter).1.length := List.length_pos_iff.mpr left
        simp only [List.length_drop]
        omega
      rw [Hash.hashViewChunks, dif_neg left]
      simp only [hashViewLoop, notEnd, Bool.false_eq_true, if_false, coherent.iteratorViewCopy_eq, taken]
      rw [ih _ nextCoherent (by rwa [dropped]), dropped]

end QdIterator

/-! ### The public interface

`qd_iterator_ncopy`, `qd_iterator_copy`, `qd_iterator_uint8`,
`qd_iterator_equal` and `qd_iterator_hash_view` start from
`qd_iterator_reset`; from a reset that is coherent each gives what the octets
of the view give, as the hash table's model of it says. -/

section Public

variable {iter : QdIterator}

/-- A view gives no more octets than it is long. -/
theorem length_viewOctets_le (iter : QdIterator) : (viewOctets iter).length ≤ iter.length := by
  obtain ⟨pointer, counted, -, -, -⟩ := qdIteratorReset_frame iter
  have fuel : (qdIteratorReset iter).remaining = iter.length := by
    simp [remaining, QdIterator.length, pointer, counted]
  calc (viewOctets iter).length ≤ (qdIteratorReset iter).remaining := length_readToEnd_le _ _
    _ = iter.length := fuel

/-- `qd_iterator_ncopy` copies the first `n` octets of the view. -/
theorem qdIteratorNcopy_eq_take (coherent : (qdIteratorReset iter).Coherent) (n : Nat) :
    (qdIteratorNcopy iter n).1 = (viewOctets iter).take n := by
  rw [qdIteratorNcopy, coherent.iteratorViewCopy_eq, (coherent.readToEnd_take_drop n).2.1]
  rfl

/-- `qd_iterator_copy` copies the whole view. -/
theorem qdIteratorCopy_eq_viewOctets (coherent : (qdIteratorReset iter).Coherent) :
    (qdIteratorCopy iter).1 = viewOctets iter := by
  rw [qdIteratorCopy, qdIteratorNcopy_eq_take coherent,
    List.take_of_length_le (Nat.le_succ_of_le (length_viewOctets_le iter))]

/-- `qd_iterator_uint8` is the first octet of the view, zero for an empty one. -/
theorem qdIteratorUint8_eq_head (coherent : (qdIteratorReset iter).Coherent) :
    (qdIteratorUint8 iter).1 = (viewOctets iter).headD 0 := by
  by_cases ended : (qdIteratorReset iter).atEnd = true
  · rw [viewOctets, coherent.octets_eq_nil_iff.mpr ended]
    simp [qdIteratorUint8, ended]
  · rw [viewOctets, coherent.octets_cons (by simpa using ended)]
    simp [qdIteratorUint8, ended]

/-- `qd_iterator_equal` says whether the view is the string, as the hash
table's model of it does on the octets of the view. -/
theorem qdIteratorEqual_eq (coherent : (qdIteratorReset iter).Coherent) (string : CString) :
    (qdIteratorEqual iter string).1 = Hash.qdIteratorEqual (viewOctets iter) string := by
  have answer := coherent.equalFinish_equalLoop string.octets
  simp only [qdIteratorEqual, Hash.qdIteratorEqual, answer, viewOctets]
  exact (beq_eq_decide _ _).symm

/-- `qd_iterator_hash_view` is the hash the hash table's model gives the
octets of the view. -/
theorem qdIteratorHashView_eq (coherent : (qdIteratorReset iter).Coherent) :
    qdIteratorHashView iter = Hash.qdIteratorHashView (viewOctets iter) :=
  coherent.hashViewLoop_eq _ Hash.hashInit (length_readToEnd_le _ _)

/-- After `qd_iterator_reset` a view read to its end has as many octets left
as it gives; a view read to the next slash can have more. -/
theorem remaining_reset_eq_length (coherent : (qdIteratorReset iter).Coherent) (toEnd : iter.mode = .toEnd) :
    (qdIteratorReset iter).remaining = (viewOctets iter).length :=
  (coherent.length_octets ((qdIteratorReset_frame iter).2.2.1.trans toEnd)).symm

/-- `qd_iterator_advance` passes the first `length` octets of what is left. -/
theorem QdIterator.Coherent.octets_qdIteratorAdvance (coherent : iter.Coherent) (length : Nat) :
    (qdIteratorOctets (qdIteratorAdvance iter length)).1 = (qdIteratorOctets iter).1.drop length := by
  rw [coherent.qdIteratorAdvance_eq, (coherent.readToEnd_take_drop length).2.2]

/-- `qd_iterator_ncopy_octets` copies the first `n` octets of what is left and
passes them. -/
theorem QdIterator.Coherent.qdIteratorNcopyOctets_eq (coherent : iter.Coherent) (n : Nat) :
    (qdIteratorNcopyOctets iter n).1 = (qdIteratorOctets iter).1.take n ∧
      (qdIteratorOctets (qdIteratorNcopyOctets iter n).2).1 = (qdIteratorOctets iter).1.drop n := by
  rw [qdIteratorNcopyOctets, coherent.iteratorViewCopy_eq]
  exact (coherent.readToEnd_take_drop n).2

end Public

end DispatchRouter.Iterator
