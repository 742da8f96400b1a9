/-
# Trimming a view

`qd_iterator_trim_view` cuts the view it is called on to a length: inside the
annotation (the hash prefix, the phase and the tenant space) when the length is
that short, and otherwise in the body. What the octet state machine reads of a
view is its annotation followed by its body, as many octets as the view is
long; a view fits when its annotation length is the length of the annotation
the machine reads. A trim at the start of a view that fits keeps the first
octets of the view, and a second trim keeps the first octets of the first.
-/

import DispatchRouter.Iterator.Address

namespace DispatchRouter.Iterator

open QdIterator

/-! ### The annotation the state machine reads -/

/-- The rest of the space from the cursor, while the cursor is inside it. -/
def spaceRest (iter : QdIterator) : Option (List UInt8) :=
  if iter.spaceCursor < (iter.space.getD []).length then some ((iter.space.getD []).drop iter.spaceCursor)
  else none

/-- What is read after the prefix and the phase: the whole space, if it is shown. -/
def afterAnnotationOctets (iter : QdIterator) : Option (List UInt8) :=
  if iter.viewSpace && iter.space.isSome then spaceRest { iter with spaceCursor := 0 } else some []

/-- The octets `qd_iterator_octet` reads from the iterator's state on, before it
reaches the body; none where it would read past the end of its space. -/
def annotationOctets (iter : QdIterator) : Option (List UInt8) :=
  match iter.state with
  | .inBody => some []
  | .inSpace => spaceRest iter
  | .atPhase => (afterAnnotationOctets iter).map (iter.phase :: ·)
  | .atPrefix =>
      (if iter.hashPrefix = prefixMobile then (afterAnnotationOctets iter).map (iter.phase :: ·)
        else afterAnnotationOctets iter).map (iter.hashPrefix :: ·)

/-- A view fits when its annotation length is the length of the annotation the
state machine reads after `qd_iterator_reset`. -/
def ViewFits (iter : QdIterator) : Prop :=
  (annotationOctets (qdIteratorReset iter)).map List.length = some iter.annotationLength

instance (iter : QdIterator) : Decidable (ViewFits iter) :=
  inferInstanceAs (Decidable (_ = _))

variable {iter : QdIterator}

/-- Past the prefix and the phase the machine reads the space, if it is shown. -/
theorem annotationOctets_after (r : Nat) :
    annotationOctets { iter with state := iter.afterAnnotation, spaceCursor := 0, annotationRemaining := r } =
      afterAnnotationOctets iter := by
  unfold afterAnnotation afterAnnotationOctets
  split <;> simp_all [annotationOctets, spaceRest]

/-- In the annotation an octet leaves the view pointer and the mode alone and
counts one annotation octet off. -/
theorem octet_annotation_frame (notBody : iter.state ≠ .inBody) :
    (qdIteratorOctet iter).2.viewPointer = iter.viewPointer ∧ (qdIteratorOctet iter).2.mode = iter.mode ∧
      (qdIteratorOctet iter).2.annotationRemaining = iter.annotationRemaining - 1 := by
  cases state : iter.state with
  | inBody => exact absurd state notBody
  | atPrefix | atPhase | inSpace => simp [qdIteratorOctet, state]

/-- An octet of the annotation: the first octet of what is left of it is read,
and the machine goes on with the rest. -/
theorem octet_annotation (notBody : iter.state ≠ .inBody) {front : List UInt8}
    (annotated : annotationOctets iter = some front) :
    ∃ rest, front = (qdIteratorOctet iter).1 :: rest ∧ annotationOctets (qdIteratorOctet iter).2 = some rest := by
  cases state : iter.state with
  | inBody => exact absurd state notBody
  | atPrefix =>
      simp only [annotationOctets, state] at annotated
      by_cases mobile : iter.hashPrefix = prefixMobile
      · -- `M`, then the phase
        simp only [mobile, if_true, Option.map_map, Option.map_eq_some_iff] at annotated
        obtain ⟨after, isAfter, rfl⟩ := annotated
        refine ⟨iter.phase :: after, by simp [qdIteratorOctet, state, mobile], ?_⟩
        have next : annotationOctets (qdIteratorOctet iter).2 = (afterAnnotationOctets iter).map (iter.phase :: ·) := by
          simp only [qdIteratorOctet, state, mobile, if_true]
          rfl
        rw [next, isAfter]
        rfl
      · simp only [mobile, if_false, Option.map_eq_some_iff] at annotated
        obtain ⟨after, isAfter, rfl⟩ := annotated
        refine ⟨after, by simp [qdIteratorOctet, state], ?_⟩
        simp only [qdIteratorOctet, state, mobile, if_false]
        rw [annotationOctets_after, isAfter]
  | atPhase =>
      simp only [annotationOctets, state, Option.map_eq_some_iff] at annotated
      obtain ⟨after, isAfter, rfl⟩ := annotated
      refine ⟨after, by simp [qdIteratorOctet, state], ?_⟩
      simp only [qdIteratorOctet, state]
      rw [annotationOctets_after, isAfter]
  | inSpace =>
      simp only [annotationOctets, state, spaceRest] at annotated
      split at annotated
      · rename_i inside
        obtain rfl := Option.some.inj annotated
        -- the octet under the cursor; the last one of the space leads into the body
        have dropped : (iter.space.getD []).drop iter.spaceCursor =
            (iter.space.getD []).getD iter.spaceCursor 0 :: (iter.space.getD []).drop (iter.spaceCursor + 1) := by
          rw [List.drop_eq_getElem_cons inside, List.getD_eq_getElem?_getD, List.getElem?_eq_getElem inside,
            Option.getD_some]
        refine ⟨(iter.space.getD []).drop (iter.spaceCursor + 1), by simp [qdIteratorOctet, state, dropped], ?_⟩
        by_cases last : iter.spaceCursor + 1 = (iter.space.getD []).length
        · simp [qdIteratorOctet, state, last, annotationOctets]
        · have more : iter.spaceCursor + 1 < (iter.space.getD []).length := by omega
          simp [qdIteratorOctet, state, last, annotationOctets, spaceRest, more]
      · cases annotated

/-- Read to its end, a view read to its end gives what is left of its
annotation and then its body, as many octets as it has left: by induction on
the fuel, one octet of the annotation at a time, and the body at once. -/
theorem readToEnd_annotated (fuel : Nat) :
    ∀ (iter : QdIterator) (front : List UInt8), annotationOctets iter = some front →
      iter.mode = .toEnd → iter.annotationRemaining ≤ front.length →
      (iter.annotationRemaining < front.length → iter.viewPointer = []) → iter.remaining ≤ fuel →
      (readToEnd fuel iter).1 = (front ++ iter.viewPointer).take iter.remaining := by
  induction fuel with
  | zero =>
      intro iter front _ _ _ _ enough
      rw [Nat.le_zero.mp enough]
      rfl
  | succ fuel ih =>
      intro iter front annotated toEnd within short enough
      by_cases ended : iter.atEnd = true
      · have empty : iter.remaining = 0 := by simpa [atEnd] using ended
        rw [empty, readToEnd, if_pos ended]
        rfl
      by_cases body : iter.state = .inBody
      · -- in the body nothing is left of the annotation
        have noFront : front = [] := by
          simpa [annotationOctets, body] using annotated.symm
        subst noFront
        have raw : iter.Raw := ⟨body, toEnd, Nat.le_zero.mp within⟩
        rw [readToEnd_raw iter.viewPointer iter (fuel + 1) raw rfl (by simpa [remaining_of_raw raw] using enough),
          remaining_of_raw raw]
        simp
      · obtain ⟨rest, rfl, next⟩ := octet_annotation body annotated
        obtain ⟨samePointer, sameMode, counted⟩ := octet_annotation_frame body
        have started : 0 < iter.annotationRemaining := by
          by_contra none
          have empty : iter.viewPointer = [] := short (by simp at none ⊢; omega)
          exact ended (by simp [atEnd, remaining, empty]; omega)
        have read := ih (qdIteratorOctet iter).2 rest next (sameMode.trans toEnd)
          (by simp only [List.length_cons] at within; omega)
          (fun fewer => samePointer.trans (short (by simp only [List.length_cons] at fewer ⊢; omega)))
          (by simp only [remaining, counted, samePointer] at enough ⊢; omega)
        have left : iter.remaining = ((qdIteratorOctet iter).2.remaining) + 1 := by
          simp only [remaining, counted, samePointer]
          omega
        rw [readToEnd, if_neg ended]
        simp only [read, samePointer, left, List.cons_append, List.take_succ_cons]

/-- `qd_iterator_reset` puts the view pointer at the start of the view and the
whole annotation back, and keeps the mode. -/
theorem qdIteratorReset_frame (iter : QdIterator) :
    (qdIteratorReset iter).viewPointer = iter.viewStartPointer ∧
      (qdIteratorReset iter).annotationRemaining = iter.annotationLength ∧ (qdIteratorReset iter).mode = iter.mode ∧
      (qdIteratorReset iter).viewStartPointer = iter.viewStartPointer ∧
      (qdIteratorReset iter).annotationLength = iter.annotationLength := by
  dsimp only [qdIteratorReset]
  split_ifs <;> exact ⟨rfl, rfl, rfl, rfl, rfl⟩

/-- A view trimmed at its start is still at its start. -/
theorem reset_trimView_reset (n : Nat) :
    qdIteratorReset (qdIteratorTrimView (qdIteratorReset iter) n) = qdIteratorTrimView (qdIteratorReset iter) n := by
  dsimp only [qdIteratorTrimView, qdIteratorReset]
  split_ifs <;> simp_all

/-- Trimming leaves the annotation alone: the state, the prefix, the phase and
the space. -/
theorem annotationOctets_trimView (n : Nat) :
    annotationOctets (qdIteratorTrimView iter n) = annotationOctets iter ∧ (qdIteratorTrimView iter n).mode = iter.mode := by
  dsimp only [qdIteratorTrimView]
  split_ifs <;> exact ⟨rfl, rfl⟩

/-- A trim at the start of a view: the annotation cut to the length, and the
body cut to what the annotation leaves of it. -/
theorem trimView_cut (atStart : iter.viewPointer = iter.viewStartPointer) (n : Nat) :
    (qdIteratorTrimView iter n).annotationLength = min iter.annotationLength n ∧
      (qdIteratorTrimView iter n).viewStartPointer =
        if n < iter.annotationLength then [] else iter.viewStartPointer.take (n - iter.annotationLength) := by
  have viewLength : ({ iter with viewStartPointer := iter.viewPointer } : QdIterator).length =
      iter.annotationLength + iter.viewStartPointer.length := by
    simp [QdIterator.length, atStart]
  dsimp only [qdIteratorTrimView]
  rw [viewLength]
  by_cases longer : iter.annotationLength + iter.viewStartPointer.length > n
  · by_cases inFront : iter.annotationLength > n
    · -- the length falls in the annotation: no body is left
      simp only [longer, inFront, if_true]
      exact ⟨(Nat.min_eq_right (by omega)).symm, trivial⟩
    · -- the length falls in the body
      simp only [longer, inFront, if_true, if_false]
      refine ⟨(Nat.min_eq_left (by omega)).symm, ?_⟩
      rw [atStart]
      congr 1
      omega
  · simp only [longer, if_false]
    refine ⟨(Nat.min_eq_left (by omega)).symm, ?_⟩
    rw [if_neg (by omega), atStart, List.take_of_length_le (by omega)]

/-- The octets of a view read to its end: its annotation and then its body, as
many octets as the view is long. -/
theorem viewOctets_annotated {front : List UInt8}
    (annotated : annotationOctets (qdIteratorReset iter) = some front) (toEnd : iter.mode = .toEnd)
    (within : iter.annotationLength ≤ front.length)
    (short : iter.annotationLength < front.length → iter.viewStartPointer = []) :
    viewOctets iter = (front ++ iter.viewStartPointer).take iter.length := by
  obtain ⟨pointer, counted, mode, -, -⟩ := qdIteratorReset_frame iter
  have fuel : (qdIteratorReset iter).remaining = iter.length := by
    simp [remaining, QdIterator.length, pointer, counted]
  rw [viewOctets, qdIteratorOctets,
    readToEnd_annotated _ _ front annotated (mode.trans toEnd) (by rwa [counted])
      (by rw [counted, pointer]; exact short) (Nat.le_refl _), fuel, pointer]

example : viewOctets (qdIteratorAnnotateSpace
    (qdIteratorString (qdIteratorSetAddress false [48] [82]) [98, 99] .addressHash) [116, 47]) = [77, 48, 116, 47, 98, 99] := by
  decide

/-- Cutting the annotation and the body as a trim does keeps the first octets of
what they give. -/
theorem take_trimmed {front body : List UInt8} {length n : Nat} (within : length ≤ front.length)
    (short : length < front.length → body = []) :
    (front ++ if n < length then [] else body.take (n - length)).take
        (min length n + (if n < length then [] else body.take (n - length)).length) =
      ((front ++ body).take (length + body.length)).take n := by
  rw [List.take_take]
  by_cases inFront : n < length
  · simp only [inFront, if_true, List.append_nil, List.length_nil, Nat.add_zero]
    rw [Nat.min_eq_right (Nat.le_of_lt inFront), Nat.min_eq_left (by omega),
      List.take_append_of_le_length (by omega)]
  · simp only [inFront, if_false, List.length_take]
    rcases Nat.lt_or_ge length front.length with shorter | whole
    · -- a cut annotation has no body after it
      simp only [short shorter, List.take_nil, List.append_nil, List.length_nil]
      congr 1
      omega
    · -- the whole annotation, then the body up to the length
      have same : length = front.length := by omega
      subst same
      rw [List.take_of_length_le (by simp; omega), List.take_append,
        List.take_of_length_le (l := front) (by omega),
        show min n (front.length + body.length) - front.length = min (n - front.length) body.length
          by omega,
        ← List.take_take, List.take_length]

/-- A trim at the start of a view keeps the first octets of the view, and the
view it leaves is again at its start with the same annotation. -/
theorem viewOctets_trimView {front : List UInt8}
    (annotated : annotationOctets (qdIteratorReset iter) = some front) (toEnd : iter.mode = .toEnd)
    (within : iter.annotationLength ≤ front.length)
    (short : iter.annotationLength < front.length → iter.viewStartPointer = []) (n : Nat) :
    viewOctets (qdIteratorTrimView (qdIteratorReset iter) n) = (viewOctets iter).take n ∧
      annotationOctets (qdIteratorReset (qdIteratorTrimView (qdIteratorReset iter) n)) = some front ∧
      (qdIteratorTrimView (qdIteratorReset iter) n).mode = .toEnd ∧
      (qdIteratorTrimView (qdIteratorReset iter) n).annotationLength ≤ front.length ∧
      ((qdIteratorTrimView (qdIteratorReset iter) n).annotationLength < front.length →
        (qdIteratorTrimView (qdIteratorReset iter) n).viewStartPointer = []) := by
  obtain ⟨pointer, -, mode, start, length⟩ := qdIteratorReset_frame iter
  obtain ⟨cutLength, cutBody⟩ := trimView_cut (pointer.trans start.symm) n
  rw [start, length] at cutBody
  rw [length] at cutLength
  obtain ⟨sameFront, sameMode⟩ := @annotationOctets_trimView (qdIteratorReset iter) n
  have trimmedAnnotated : annotationOctets (qdIteratorReset (qdIteratorTrimView (qdIteratorReset iter) n)) =
      some front := by
    rw [reset_trimView_reset, sameFront, annotated]
  have trimmedMode : (qdIteratorTrimView (qdIteratorReset iter) n).mode = .toEnd := by
    rw [sameMode, mode, toEnd]
  have trimmedWithin : (qdIteratorTrimView (qdIteratorReset iter) n).annotationLength ≤ front.length := by
    rw [cutLength]
    omega
  -- a cut annotation leaves no body, and a whole one shorter than what is read has none
  have trimmedShort : (qdIteratorTrimView (qdIteratorReset iter) n).annotationLength < front.length →
      (qdIteratorTrimView (qdIteratorReset iter) n).viewStartPointer = [] := by
    intro shorter
    rw [cutBody]
    split
    · rfl
    · rw [short (by rw [cutLength] at shorter; omega), List.take_nil]
  refine ⟨?_, trimmedAnnotated, trimmedMode, trimmedWithin, trimmedShort⟩
  rw [viewOctets_annotated trimmedAnnotated trimmedMode trimmedWithin trimmedShort,
    viewOctets_annotated annotated toEnd within short, QdIterator.length, QdIterator.length, cutLength, cutBody]
  exact take_trimmed within short

/-- `qd_iterator_trim_view` at the start of a view that fits keeps the first
`n` octets of the view, in the annotation too, and a second trim to `m` keeps
the first `min m n`. -/
theorem trim_view_keeps_prefix (iter : QdIterator) (fits : ViewFits iter) (toEnd : iter.mode = .toEnd) (n m : Nat) :
    viewOctets (qdIteratorTrimView (qdIteratorReset iter) n) = (viewOctets iter).take n ∧
      viewOctets (qdIteratorTrimView (qdIteratorTrimView (qdIteratorReset iter) n) m) =
        (viewOctets iter).take (min m n) := by
  obtain ⟨front, annotated, fitting⟩ := Option.map_eq_some_iff.mp fits
  obtain ⟨first, trimmedAnnotated, trimmedMode, trimmedWithin, trimmedShort⟩ :=
    viewOctets_trimView annotated toEnd (Nat.le_of_eq fitting.symm) (fun shorter => absurd fitting (Nat.ne_of_gt shorter)) n
  refine ⟨first, ?_⟩
  -- the first trim leaves the view at its start: the second trims it as a reset view
  have second := (viewOctets_trimView trimmedAnnotated trimmedMode trimmedWithin trimmedShort m).1
  rw [reset_trimView_reset] at second
  rw [second, first, List.take_take]

/-- The mobile address `bc` of the tenant `t/`: its view `M0t/bc` trimmed to
three octets, inside the space, and then to one. -/
theorem trim_view_keeps_prefix_tenant :
    ViewFits (qdIteratorAnnotateSpace (qdIteratorString (qdIteratorSetAddress false [48] [82]) [98, 99] .addressHash)
        [116, 47]) ∧
      (qdIteratorAnnotateSpace (qdIteratorString (qdIteratorSetAddress false [48] [82]) [98, 99] .addressHash)
        [116, 47]).mode = .toEnd ∧
      viewOctets (qdIteratorTrimView (qdIteratorReset (qdIteratorAnnotateSpace
          (qdIteratorString (qdIteratorSetAddress false [48] [82]) [98, 99] .addressHash) [116, 47])) 3) =
        (viewOctets (qdIteratorAnnotateSpace
          (qdIteratorString (qdIteratorSetAddress false [48] [82]) [98, 99] .addressHash) [116, 47])).take 3 ∧
      viewOctets (qdIteratorTrimView (qdIteratorTrimView (qdIteratorReset (qdIteratorAnnotateSpace
          (qdIteratorString (qdIteratorSetAddress false [48] [82]) [98, 99] .addressHash) [116, 47])) 3) 1) =
        (viewOctets (qdIteratorAnnotateSpace
          (qdIteratorString (qdIteratorSetAddress false [48] [82]) [98, 99] .addressHash) [116, 47])).take (min 1 3) :=
  ⟨by decide, by decide, trim_view_keeps_prefix _ (by decide) (by decide) 3 1⟩

end DispatchRouter.Iterator
