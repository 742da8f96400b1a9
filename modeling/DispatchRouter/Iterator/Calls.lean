/-
# The calls on a view, over every run

The router builds an iterator with `qd_iterator_string` (or
`qd_iterator_binary`) and then reworks its view with the calls that set it up
again or annotate it: `qd_iterator_reset`, `qd_iterator_annotate_phase`,
`qd_iterator_annotate_prefix`, `qd_iterator_annotate_space` with a tenant
space, and `qd_iterator_trim_view`, which `qd_iterator_next_segment` calls on
a view it has just reset. Each of them keeps `QdIterator.Sound`; so every
iterator a run of them reaches is sound (`Reachable.sound`), and on it the bulk
paths of `qd_iterator_copy`, `qd_iterator_ncopy`, `qd_iterator_uint8`,
`qd_iterator_advance`, `qd_iterator_equal` and `qd_iterator_hash_view` read
the view as `qd_iterator_octet` does, one octet at a time.
-/

import DispatchRouter.Iterator.Views

namespace DispatchRouter.Iterator

open QdIterator

namespace QdIterator

variable {iter : QdIterator}

/-! ### What the calls change -/

theorem qdIteratorReset_labels (iter : QdIterator) :
    (qdIteratorReset iter).hashPrefix = iter.hashPrefix ∧ (qdIteratorReset iter).space = iter.space ∧
      (qdIteratorReset iter).viewSpace = iter.viewSpace := by
  dsimp only [qdIteratorReset]
  split_ifs <;> exact ⟨rfl, rfl, rfl⟩

theorem qdIteratorReset_idem (iter : QdIterator) : qdIteratorReset (qdIteratorReset iter) = qdIteratorReset iter := by
  dsimp only [qdIteratorReset]
  split_ifs <;> rfl

theorem qdIteratorReset_annotatePhase (iter : QdIterator) (phase : UInt8) :
    qdIteratorReset (qdIteratorAnnotatePhase iter phase) = qdIteratorAnnotatePhase (qdIteratorReset iter) phase := by
  dsimp only [qdIteratorReset, qdIteratorAnnotatePhase]
  split_ifs <;> rfl

/-- `qd_iterator_annotate_space` sets the space and the count, and nothing else. -/
theorem qdIteratorAnnotateSpace_frame (iter : QdIterator) (space : List UInt8) :
    qdIteratorAnnotateSpace iter space =
      { iter with space := some space, annotationLength := (qdIteratorAnnotateSpace iter space).annotationLength } := by
  dsimp only [qdIteratorAnnotateSpace]
  split_ifs <;> rfl

/-- A space set on a view that shows none changes no count. -/
theorem qdIteratorAnnotateSpace_plain (notHash : iter.view ≠ .addressHash)
    (notShown : ¬(iter.view = .addressWithSpace ∧ iter.viewSpace = true)) (space : List UInt8) :
    qdIteratorAnnotateSpace iter space = { iter with space := some space } := by
  by_cases isSpace : iter.view = .addressWithSpace
  · have hidden : iter.viewSpace = false := by simpa [isSpace] using notShown
    simp [qdIteratorAnnotateSpace, isSpace, hidden]
  · simp [qdIteratorAnnotateSpace, notHash, isSpace]

/-- `qd_iterator_trim_view` moves the start and cuts the counts, and nothing else. -/
theorem qdIteratorTrimView_frame (iter : QdIterator) (n : Nat) :
    qdIteratorTrimView iter n =
      { iter with
        viewStartPointer := (qdIteratorTrimView iter n).viewStartPointer
        viewPointer := (qdIteratorTrimView iter n).viewPointer
        annotationLength := (qdIteratorTrimView iter n).annotationLength
        annotationRemaining := (qdIteratorTrimView iter n).annotationRemaining } := by
  dsimp only [qdIteratorTrimView]
  split_ifs <;> rfl

theorem trimView_atStart (iter : QdIterator) (n : Nat) :
    (qdIteratorTrimView iter n).viewPointer = (qdIteratorTrimView iter n).viewStartPointer := by
  dsimp only [qdIteratorTrimView]
  split_ifs <;> rfl

/-- The reset of a trimmed view is the reset of the view with the trimmed start
and count. -/
theorem qdIteratorReset_trimView (iter : QdIterator) (n : Nat) :
    qdIteratorReset (qdIteratorTrimView iter n) =
      { qdIteratorReset iter with
        viewStartPointer := (qdIteratorTrimView iter n).viewStartPointer
        viewPointer := (qdIteratorTrimView iter n).viewStartPointer
        annotationLength := (qdIteratorTrimView iter n).annotationLength
        annotationRemaining := (qdIteratorTrimView iter n).annotationLength } := by
  dsimp only [qdIteratorReset, qdIteratorTrimView]
  split_ifs <;> rfl

/-- The reset of a view that shows no space does not read the space. -/
theorem qdIteratorReset_space (hidden : iter.viewSpace = false) (space : Option (List UInt8)) :
    qdIteratorReset { iter with space } = { qdIteratorReset iter with space } := by
  dsimp only [qdIteratorReset]
  split_ifs <;> simp_all

/-! ### The annotation they leave -/

/-- The phase is one octet of the annotation, whatever octet it is. -/
theorem annotationOctets_annotatePhase_length (x : QdIterator) (phase : UInt8) :
    (annotationOctets (qdIteratorAnnotatePhase x phase)).map List.length = (annotationOctets x).map List.length := by
  cases isState : x.state with
  | atPrefix =>
      -- the phase is read after the mobile prefix only
      by_cases mobile : x.hashPrefix = prefixMobile <;>
        simp [annotationOctets, qdIteratorAnnotatePhase, isState, afterAnnotationOctets, spaceRest, mobile,
          Option.map_map, Function.comp_def]
  | _ =>
      simp [annotationOctets, qdIteratorAnnotatePhase, isState, afterAnnotationOctets, spaceRest, Option.map_map,
        Function.comp_def]

/-- Where no space is shown or being read, the annotation does not read the space. -/
theorem annotationOctets_space {x : QdIterator} (hidden : x.viewSpace = false) (notInSpace : x.state ≠ .inSpace)
    (space : Option (List UInt8)) : annotationOctets { x with space } = annotationOctets x := by
  cases isState : x.state with
  | inBody => simp [annotationOctets, isState]
  | inSpace => exact absurd isState notInSpace
  | atPhase => simp [annotationOctets, isState, afterAnnotationOctets, hidden]
  | atPrefix => simp [annotationOctets, isState, afterAnnotationOctets, hidden]

/-- Coherence reads the annotation only through its length. -/
theorem Coherent.of_lengths {x y : QdIterator} (coherent : x.Coherent)
    (lengths : (annotationOctets y).map List.length = (annotationOctets x).map List.length)
    (remaining : y.annotationRemaining = x.annotationRemaining) (pointer : y.viewPointer = x.viewPointer)
    (view : y.view = x.view) (state : y.state = x.state) (mode : y.mode = x.mode) : y.Coherent := by
  obtain ⟨⟨front, annotated, within, short⟩, all⟩ := coherent
  rw [annotated, Option.map_some] at lengths
  obtain ⟨front', annotated', sameLength⟩ := Option.map_eq_some_iff.mp lengths
  refine ⟨⟨front', annotated', by omega, fun fewer => pointer.trans (short (by omega))⟩, fun isAll => ?_⟩
  rw [state, mode]
  exact all (view.symm.trans isAll)

/-- A view that fits has a coherent reset, when a view of everything has no
prefix and is read to its end. -/
theorem coherent_reset_of_fits (fits : ViewFits iter)
    (all : iter.view = .all → iter.hashPrefix = 0 ∧ iter.mode = .toEnd) : (qdIteratorReset iter).Coherent := by
  obtain ⟨front, annotated, counted⟩ := Option.map_eq_some_iff.mp fits
  exact coherent_reset_of_exact annotated counted all

/-- The count `qd_iterator_annotate_space` gives a hash view is what its reset
reads: the prefix, the phase of a mobile address, and the space if shown. -/
theorem viewFits_annotateSpace_hash (isHash : iter.view = .addressHash) (nonzero : iter.hashPrefix ≠ 0)
    {space : List UInt8} (nonempty : space ≠ []) : ViewFits (qdIteratorAnnotateSpace iter space) := by
  have frame := qdIteratorAnnotateSpace_frame iter space
  have counted : (qdIteratorAnnotateSpace iter space).annotationLength =
      (if iter.viewSpace then space.length else 0) + (if iter.hashPrefix = prefixMobile then 2 else 1) := by
    simp [qdIteratorAnnotateSpace, isHash]
  set y := qdIteratorAnnotateSpace iter space
  have after : afterAnnotationOctets y = some (if iter.viewSpace then space else []) := by
    cases shown : iter.viewSpace
    · exact afterAnnotationOctets_hidden (by rw [frame]; exact shown)
    · rw [afterAnnotationOctets_shown (by rw [frame]; simpa using nonempty) (by rw [frame]; exact shown), frame]
      rfl
  have samePrefix : y.hashPrefix = iter.hashPrefix := by rw [frame]
  unfold ViewFits
  rw [annotationOctets_reset_prefixed (by rw [frame, isHash]; decide) (samePrefix ▸ nonzero), after, counted,
    samePrefix]
  split_ifs <;> simp

/-- ... and a view with a space that shows it, the space. -/
theorem viewFits_annotateSpace_shown (isSpace : iter.view = .addressWithSpace) (shown : iter.viewSpace = true)
    {space : List UInt8} (nonempty : space ≠ []) : ViewFits (qdIteratorAnnotateSpace iter space) := by
  have frame := qdIteratorAnnotateSpace_frame iter space
  have counted : (qdIteratorAnnotateSpace iter space).annotationLength = space.length := by
    simp [qdIteratorAnnotateSpace, isSpace, shown]
  unfold ViewFits
  rw [annotationOctets_reset_spaceShown (by rw [frame]; exact isSpace) (by rw [frame]) nonempty
    (by rw [frame]; exact shown), counted]
  rfl

/-! ### Each call keeps a view sound -/

/-- A sound view of everything has no prefix and is read to its end. -/
theorem Sound.all (sound : iter.Sound) (isAll : iter.view = .all) : iter.hashPrefix = 0 ∧ iter.mode = .toEnd := by
  obtain ⟨body, toEnd⟩ := sound.coherent.all (by rw [qdIteratorReset_view]; exact isAll)
  obtain ⟨-, -, mode, -, -⟩ := qdIteratorReset_frame iter
  refine ⟨?_, mode.symm.trans toEnd⟩
  by_contra nonzero
  simp [qdIteratorReset, isAll, nonzero] at body

theorem Sound.reset (sound : iter.Sound) : (qdIteratorReset iter).Sound := by
  obtain ⟨pointer, -, -, start, -⟩ := qdIteratorReset_frame iter
  obtain ⟨hashPrefix, space, viewSpace⟩ := qdIteratorReset_labels iter
  refine ⟨pointer.trans start.symm, by rw [qdIteratorReset_idem]; exact sound.coherent, space ▸ sound.space, ?_, ?_, ?_⟩
  · rw [qdIteratorReset_view, hashPrefix]
    exact sound.hashed
  · rw [qdIteratorReset_view, viewSpace, space]
    intro isSpace
    -- the reset starts a shown space again, and leaves the state else
    by_cases shown : iter.space.isSome = true ∧ iter.viewSpace = true
    · have inSpace : (qdIteratorReset iter).state = .inSpace := by
        simp only [qdIteratorReset, isSpace, if_true, if_pos shown]
      exact .inr ⟨inSpace, shown.2, shown.1⟩
    · have same : (qdIteratorReset iter).state = iter.state := by
        simp only [qdIteratorReset, isSpace, if_true, if_neg shown]
      rw [same]
      exact sound.spaced isSpace
  · rw [qdIteratorReset_view, viewSpace]
    exact sound.unspaced

/-- A sound view that shows no space is not reset into one. -/
theorem Sound.reset_state_ne_inSpace (sound : iter.Sound) (hidden : iter.viewSpace = false) :
    (qdIteratorReset iter).state ≠ .inSpace := by
  by_cases isSpace : iter.view = .addressWithSpace
  · rcases sound.reset.spaced (by rw [qdIteratorReset_view]; exact isSpace) with body | ⟨-, shown, -⟩
    · rw [body]
      decide
    · rw [(qdIteratorReset_labels iter).2.2, hidden] at shown
      cases shown
  · simp only [qdIteratorReset, isSpace, if_false]
    split_ifs <;> decide

theorem Sound.annotatePhase (sound : iter.Sound) (phase : UInt8) : (qdIteratorAnnotatePhase iter phase).Sound where
  atStart := sound.atStart
  coherent := by
    rw [qdIteratorReset_annotatePhase]
    exact sound.coherent.of_lengths (annotationOctets_annotatePhase_length _ phase) rfl rfl rfl rfl rfl
  space := sound.space
  hashed := sound.hashed
  spaced := sound.spaced
  unspaced := sound.unspaced

theorem Sound.annotatePrefix (sound : iter.Sound) (config : AddressConfig) (hashPrefix : UInt8) :
    (qdIteratorAnnotatePrefix config iter hashPrefix).Sound :=
  sound_resetView config { iter with prefixOverride := hashPrefix } sound.space iter.view

/-- A tenant space set on a sound view: a hash view and a view that shows the
space are counted again, any other changes no count. -/
theorem Sound.annotateSpace (sound : iter.Sound) {space : List UInt8} (nonempty : space ≠ []) :
    (qdIteratorAnnotateSpace iter space).Sound := by
  have frame := qdIteratorAnnotateSpace_frame iter space
  have coherent : (qdIteratorReset (qdIteratorAnnotateSpace iter space)).Coherent := by
    by_cases isHash : iter.view = .addressHash
    · refine coherent_reset_of_fits (viewFits_annotateSpace_hash isHash (sound.hashed isHash) nonempty) ?_
      rw [frame, isHash]
      intro isAll
      cases isAll
    by_cases shownSpace : iter.view = .addressWithSpace ∧ iter.viewSpace = true
    · refine coherent_reset_of_fits (viewFits_annotateSpace_shown shownSpace.1 shownSpace.2 nonempty) ?_
      rw [frame, shownSpace.1]
      intro isAll
      cases isAll
    have hidden : iter.viewSpace = false := by
      by_cases isSpace : iter.view = .addressWithSpace
      · simpa [isSpace] using shownSpace
      · exact sound.unspaced isHash isSpace
    rw [qdIteratorAnnotateSpace_plain isHash shownSpace, qdIteratorReset_space hidden]
    have lengths := annotationOctets_space ((qdIteratorReset_labels iter).2.2.trans hidden)
      (sound.reset_state_ne_inSpace hidden) (some space)
    exact sound.coherent.of_lengths (by rw [lengths]) rfl rfl rfl rfl rfl
  refine ⟨by rw [frame]; exact sound.atStart, coherent, by rw [frame]; simpa using nonempty, ?_, ?_, ?_⟩ <;>
    rw [frame]
  · exact sound.hashed
  · intro isSpace
    rcases sound.spaced isSpace with body | ⟨inSpace, shown, -⟩
    · exact .inl body
    · exact .inr ⟨inSpace, shown, rfl⟩
  · exact sound.unspaced

/-- A trim at the start of a sound view keeps its reset coherent: a cut in the
annotation leaves no body. -/
theorem Sound.coherent_trimView (sound : iter.Sound) (n : Nat) :
    (qdIteratorReset (qdIteratorTrimView iter n)).Coherent := by
  obtain ⟨⟨front, annotated, within, short⟩, all⟩ := sound.coherent
  obtain ⟨pointer, counted, -, -, -⟩ := qdIteratorReset_frame iter
  obtain ⟨cutLength, cutStart⟩ := trimView_cut sound.atStart n
  rw [qdIteratorReset_trimView]
  refine ⟨⟨front, annotated, ?_, fun fewer => ?_⟩, all⟩
  · change (qdIteratorTrimView iter n).annotationLength ≤ front.length
    rw [cutLength]
    omega
  · change (qdIteratorTrimView iter n).annotationLength < front.length at fewer
    change (qdIteratorTrimView iter n).viewStartPointer = []
    rw [cutStart]
    split_ifs with inFront
    · rfl
    · -- the whole annotation is kept, so it is shorter than what the reset reads
      have empty : iter.viewStartPointer = [] := pointer.symm.trans (short (by omega))
      rw [empty, List.take_nil]

theorem Sound.trimView (sound : iter.Sound) (n : Nat) : (qdIteratorTrimView iter n).Sound := by
  have frame := qdIteratorTrimView_frame iter n
  refine ⟨trimView_atStart iter n, sound.coherent_trimView n, ?_, ?_, ?_, ?_⟩ <;> rw [frame]
  · exact sound.space
  · exact sound.hashed
  · exact sound.spaced
  · exact sound.unspaced

end QdIterator

/-! ### Runs of calls -/

/-- The calls that rework a view, each with what it is given. -/
inductive ViewCall
  | reset
  | annotatePhase (phase : UInt8)
  | annotatePrefix (hashPrefix : UInt8)
  | annotateSpace (space : List UInt8)
  | trimView (length : Nat)
  deriving DecidableEq, Repr

/-- A call made on the iterator. -/
def viewCall (config : AddressConfig) (iter : QdIterator) : ViewCall → QdIterator
  | .reset => qdIteratorReset iter
  | .annotatePhase phase => qdIteratorAnnotatePhase iter phase
  | .annotatePrefix hashPrefix => qdIteratorAnnotatePrefix config iter hashPrefix
  | .annotateSpace space => qdIteratorAnnotateSpace iter space
  | .trimView length => qdIteratorTrimView iter length

/-- The calls the router makes: a tenant space is a vhost and a `/`, never empty. -/
def ViewCall.Allowed : ViewCall → Prop
  | .annotateSpace space => space ≠ []
  | _ => True

instance : DecidablePred ViewCall.Allowed := fun call =>
  match call with
  | .reset => isTrue trivial
  | .annotatePhase _ => isTrue trivial
  | .annotatePrefix _ => isTrue trivial
  | .annotateSpace space => inferInstanceAs (Decidable (space ≠ []))
  | .trimView _ => isTrue trivial

/-- The iterators a run of allowed calls reaches from a new one. -/
inductive Reachable (config : AddressConfig) : QdIterator → Prop
  | string (text : List UInt8) (view : IteratorView) : Reachable config (qdIteratorString config text view)
  | call {iter : QdIterator} {call : ViewCall} :
      Reachable config iter → call.Allowed → Reachable config (viewCall config iter call)

theorem QdIterator.Sound.viewCall {iter : QdIterator} (sound : iter.Sound) (config : AddressConfig) {call : ViewCall}
    (allowed : call.Allowed) : (viewCall config iter call).Sound := by
  cases call with
  | reset => exact sound.reset
  | annotatePhase phase => exact sound.annotatePhase phase
  | annotatePrefix hashPrefix => exact sound.annotatePrefix config hashPrefix
  | annotateSpace space => exact sound.annotateSpace allowed
  | trimView length => exact sound.trimView length

/-- Every iterator a run reaches is sound; by induction on the run. -/
theorem Reachable.sound {config : AddressConfig} {iter : QdIterator} (reachable : Reachable config iter) : iter.Sound := by
  induction reachable with
  | string text view => exact sound_resetView config _ (by simp) view
  | call _ allowed ih => exact ih.viewCall config allowed

/-! ### The bulk paths on every reachable view -/

open Amqp (CString)

/-- The bulk paths read the view as `qd_iterator_octet` does, and the octets
left after a reset of a view read to its end are the octets it gives. -/
structure BulkReadsAgree (iter : QdIterator) : Prop where
  copy : (qdIteratorCopy iter).1 = viewOctets iter
  ncopy : ∀ n, (qdIteratorNcopy iter n).1 = (viewOctets iter).take n
  uint8 : (qdIteratorUint8 iter).1 = (viewOctets iter).headD 0
  advance : ∀ n, (qdIteratorOctets (qdIteratorAdvance (qdIteratorReset iter) n)).1 = (viewOctets iter).drop n
  equal : ∀ string : CString, (qdIteratorEqual iter string).1 = Hash.qdIteratorEqual (viewOctets iter) string
  hashView : qdIteratorHashView iter = Hash.qdIteratorHashView (viewOctets iter)
  remaining : iter.mode = .toEnd → (qdIteratorReset iter).remaining = (viewOctets iter).length

/-- Over every run of the calls that rework a view, from any address text and
view, the bulk paths of the iterator read the view as its octets. -/
theorem bulk_reads_agree_on_reachable_views {config : AddressConfig} {iter : QdIterator}
    (reachable : Reachable config iter) : BulkReadsAgree iter := by
  have coherent := reachable.sound.coherent
  exact ⟨qdIteratorCopy_eq_viewOctets coherent, qdIteratorNcopy_eq_take coherent, qdIteratorUint8_eq_head coherent,
    coherent.octets_qdIteratorAdvance, qdIteratorEqual_eq coherent, qdIteratorHashView_eq coherent,
    remaining_reset_eq_length coherent⟩

/-- The mobile address `bc` in the tenant space `t/`: the view `M0t/bc`. -/
theorem bulk_reads_agree_tenant :
    Reachable (qdIteratorSetAddress false [48] [82])
        (viewCall (qdIteratorSetAddress false [48] [82])
          (qdIteratorString (qdIteratorSetAddress false [48] [82]) [98, 99] .addressHash) (.annotateSpace [116, 47])) ∧
      BulkReadsAgree (viewCall (qdIteratorSetAddress false [48] [82])
        (qdIteratorString (qdIteratorSetAddress false [48] [82]) [98, 99] .addressHash) (.annotateSpace [116, 47])) :=
  have reachable := Reachable.call (.string _ _) (by decide)
  ⟨reachable, bulk_reads_agree_on_reachable_views reachable⟩

end DispatchRouter.Iterator
