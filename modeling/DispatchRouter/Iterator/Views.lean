/-
# The views the router builds

`qd_iterator_reset_view` sets a view up again from the start of the field,
and every iterator the router reads is built by it (`qd_iterator_string` and
`qd_iterator_binary`) and then changed by the calls that rework the view:
`qd_iterator_annotate_prefix`, which sets the view up again with an override,
`qd_iterator_annotate_phase`, `qd_iterator_annotate_space`,
`qd_iterator_reset`, and `qd_iterator_trim_view` at the start of the view.

`QdIterator.Sound` is what these calls keep: the view is at its start, the
reset of it is coherent in the sense of `Iterator.Fast`, and the facts about
the hash prefix and the space that `qd_iterator_annotate_space` needs to count
the annotation again. Setting a view up keeps it whatever the view and the
address (`sound_resetView`): while `view_initialize` walks the address the
iterator differs from where the walk began only in its view pointer
(`Walked`), and `parse_address_view` leaves one of four kinds of view
(`Parsed`), each sound. So over any run of these calls from a new iterator
the bulk paths read the view as its octets do.

The space is taken not to be empty, as `QdIterator.Sound` says: the router's
tenant spaces are a vhost followed by `/`.
-/

import DispatchRouter.Iterator.Fast

namespace DispatchRouter.Iterator

open QdIterator

/-! ### The walks of `view_initialize` -/

/-- `it` is `base` with its view pointer moved: what the walks of
`view_initialize` leave, which read the body of a view read to its end. -/
def QdIterator.Walked (base it : QdIterator) : Prop :=
  ∃ vp, it = { base with viewPointer := vp }

namespace QdIterator.Walked

variable {base it : QdIterator}

theorem refl (base : QdIterator) : Walked base base :=
  ⟨base.viewPointer, rfl⟩

theorem pointer (walked : Walked base it) (vp : List UInt8) : Walked base { it with viewPointer := vp } := by
  obtain ⟨_, rfl⟩ := walked
  exact ⟨vp, rfl⟩

theorem view (walked : Walked base it) : it.view = base.view := by
  obtain ⟨_, rfl⟩ := walked
  rfl

theorem viewSpace (walked : Walked base it) : it.viewSpace = base.viewSpace := by
  obtain ⟨_, rfl⟩ := walked
  rfl

theorem space (walked : Walked base it) : it.space = base.space := by
  obtain ⟨_, rfl⟩ := walked
  rfl

theorem annotationLength (walked : Walked base it) : it.annotationLength = base.annotationLength := by
  obtain ⟨_, rfl⟩ := walked
  rfl

theorem raw (raw : base.Raw) (walked : Walked base it) : it.Raw := by
  obtain ⟨vp, rfl⟩ := walked
  exact raw.with_viewPointer vp

/-- An octet read in the walk moves the view pointer only. -/
theorem octet (raw : base.Raw) (walked : Walked base it) : Walked base (qdIteratorOctet it).2 := by
  have itRaw := walked.raw raw
  cases vp : it.viewPointer with
  | nil => rw [octet_raw_nil itRaw vp]; exact walked
  | cons c rest => rw [octet_raw itRaw vp]; exact walked.pointer rest

theorem prefixLoop (raw : base.Raw) (text : List UInt8) :
    ∀ {it : QdIterator}, Walked base it → Walked base (Iterator.prefixLoop text it).2 := by
  induction text with
  | nil => intro it walked; exact walked
  | cons c cs ih =>
      intro it walked
      have next := walked.octet raw
      simp only [Iterator.prefixLoop]
      split_ifs
      · exact next
      · exact ih next

/-- `qd_iterator_prefix` in the walk: an answer, and the view pointer moved. -/
theorem qdIteratorPrefix (raw : base.Raw) (walked : Walked base it) (text : List UInt8) :
    ∃ matched next, Iterator.qdIteratorPrefix it text = (matched, next) ∧ Walked base next := by
  have looped := walked.prefixLoop raw text
  unfold Iterator.qdIteratorPrefix
  cases loop : Iterator.prefixLoop text it with
  | mk matched next =>
      rw [loop] at looped
      cases matched
      · exact ⟨false, _, rfl, looped.pointer _⟩
      · exact ⟨true, _, rfl, looped⟩

theorem readToEnd (raw : base.Raw) (fuel : Nat) :
    ∀ {it : QdIterator}, Walked base it → Walked base (Iterator.readToEnd fuel it).2 := by
  induction fuel with
  | zero => intro it walked; exact walked
  | succ fuel ih =>
      intro it walked
      by_cases ended : it.atEnd = true
      · rw [readToEnd_of_atEnd ended]; exact walked
      · rw [readToEnd_succ (by simpa using ended)]
        exact ih (walked.octet raw)

theorem schemeLoop (raw : base.Raw) (fuel : Nat) :
    ∀ {it : QdIterator} (state : SchemeState) (save : List UInt8), Walked base it →
      Walked base (Iterator.schemeLoop fuel state save it).2 := by
  induction fuel with
  | zero => intro it _ _ walked; exact walked
  | succ fuel ih =>
      intro it state save walked
      have next := walked.octet raw
      -- every branch goes on from the octet read, with the view pointer put
      -- back to the saved one at the node id
      unfold Iterator.schemeLoop
      split_ifs
      · exact walked
      · cases state <;> simp only <;> (try split_ifs) <;> first | exact ih _ _ next | exact ih _ _ (next.pointer _)

theorem removeTrailingSeparator (raw : base.Raw) (walked : Walked base it) :
    Walked base (qdIteratorRemoveTrailingSeparator it) := by
  have read := walked.readToEnd raw it.remaining
  unfold qdIteratorRemoveTrailingSeparator qdIteratorOctets
  dsimp only
  split_ifs
  · exact (read.pointer _).pointer _
  · exact read.pointer _

theorem advanceToNodeId (raw : base.Raw) (walked : Walked base it) : Walked base (Iterator.advanceToNodeId it) := by
  have walkedLoop := walked.schemeLoop raw it.remaining .start []
  unfold Iterator.advanceToNodeId
  dsimp only
  split_ifs
  · exact walkedLoop.pointer _
  · exact walkedLoop

end QdIterator.Walked

/-! ### What `parse_address_view` leaves -/

/-- What `parse_address_view` leaves of a view whose walk began at `base`: a
hash prefix other than the mobile one, the view of an edge connection, the
mobile view, or, in a view with a space, an address that starts with `_` and
has no annotation. -/
inductive Parsed (base : QdIterator) : QdIterator → Prop
  | prefixed {w : QdIterator} (hashPrefix : UInt8) (mode : ParseMode) :
      base.Walked w → hashPrefix ≠ 0 → hashPrefix ≠ prefixMobile →
      Parsed base { w with hashPrefix, state := .atPrefix, mode }
  | edge {w : QdIterator} : base.Walked w → Parsed base (setToEdgeConnection w)
  | mobile {w : QdIterator} : base.Walked w → Parsed base (mobileView w)
  | unannotated {w : QdIterator} : base.Walked w → w.view = .addressWithSpace →
      Parsed base { w with viewSpace := false, annotationLength := 0 }

namespace Parsed

variable {base p : QdIterator}

theorem view (parsed : Parsed base p) : p.view = base.view := by
  cases parsed with
  | prefixed _ _ walked => exact walked.view
  | edge walked => exact walked.view
  | mobile walked => exact walked.view
  | unannotated walked => exact walked.view

theorem space (parsed : Parsed base p) : p.space = base.space := by
  cases parsed with
  | prefixed _ _ walked => exact walked.space
  | edge walked => exact walked.space
  | mobile walked => exact walked.space
  | unannotated walked => exact walked.space

/-- Only the mobile view shows a space the walk did not. -/
theorem hidden_or_mobile (parsed : Parsed base p) (hidden : base.viewSpace = false) :
    p.viewSpace = false ∨ ∃ w, base.Walked w ∧ p = mobileView w := by
  cases parsed with
  | prefixed _ _ walked => exact .inl (walked.viewSpace.trans hidden)
  | edge walked => exact .inl (walked.viewSpace.trans hidden)
  | mobile walked => exact .inr ⟨_, walked, rfl⟩
  | unannotated _ _ => exact .inl rfl

end Parsed

/-- A test of the walk that answered leaves the view pointer moved. -/
theorem QdIterator.Walked.of_prefix {base it next : QdIterator} (raw : base.Raw) (walked : base.Walked it)
    {text : List UInt8} {matched : Bool} (tested : Iterator.qdIteratorPrefix it text = (matched, next)) : base.Walked next := by
  obtain ⟨_, next', isNext, walkedNext⟩ := walked.qdIteratorPrefix raw text
  rw [isNext, Prod.mk.injEq] at tested
  exact tested.2 ▸ walkedNext

/-- The edge connection or a prefix read to the next slash: the branches after
`_topo/` and `_edge/` that name another router or area. -/
theorem Parsed.routed {base w : QdIterator} (edgeMode : Bool) (hashPrefix : UInt8) (walked : base.Walked w)
    (nonzero : hashPrefix ≠ 0) (notMobile : hashPrefix ≠ prefixMobile) :
    Parsed base (if edgeMode then setToEdgeConnection w
      else { w with hashPrefix, state := .atPrefix, mode := .toSlash }) := by
  split
  · exact .edge walked
  · exact .prefixed hashPrefix .toSlash walked nonzero notMobile

/-- Every branch of `parse_address_view` leaves one of the four kinds of view:
the tests for `_`, `local/`, `topo/`, `all/`, the area, the router and `edge/`
each move the view pointer only. The cases follow the tests in order. -/
theorem parseAddressView_parsed (config : AddressConfig) {base it : QdIterator} (raw : base.Raw)
    (walked : base.Walked it) : Parsed { base with annotationLength := 1 } (parseAddressView config it) := by
  have raw1 : ({ base with annotationLength := 1 } : QdIterator).Raw := raw
  have walked1 : Walked { base with annotationLength := 1 } { it with annotationLength := 1 } := by
    obtain ⟨vp, rfl⟩ := walked
    exact ⟨vp, rfl⟩
  unfold parseAddressView
  dsimp -iota only
  split
  case isFalse => exact .mobile walked1
  split
  rename_i isUnderscore it2 tested2
  have walked2 := walked1.of_prefix raw1 tested2
  split
  case isFalse => exact .mobile walked2
  split
  case isTrue withSpace => exact .unannotated (walked2.pointer it.viewPointer) withSpace
  split
  rename_i isLocal it3 tested3
  have walked3 := walked2.of_prefix raw1 tested3
  split
  case isTrue => exact .prefixed prefixLocal it3.mode walked3 (by decide) (by decide)
  split
  rename_i isTopo it4 tested4
  have walked4 := walked3.of_prefix raw1 tested4
  split
  · -- `_topo/`: all routers, this area and this router, or another
    split
    rename_i isAll it5 tested5
    have walked5 := walked4.of_prefix raw1 tested5
    split
    rename_i areaMatched it6 tested6
    have walked6 : Walked { base with annotationLength := 1 } it6 := by
      split at tested6
      · exact (Prod.mk.inj tested6).2 ▸ walked5
      · exact walked5.of_prefix raw1 tested6
    split
    case isFalse => exact Parsed.routed config.edgeMode prefixArea walked6 (by decide) (by decide)
    split
    rename_i isAllAgain it7 tested7
    have walked7 := walked6.of_prefix raw1 tested7
    split
    case isTrue => exact .prefixed prefixTopological it7.mode walked7 (by decide) (by decide)
    split
    rename_i isOwn it8 tested8
    have walked8 := walked7.of_prefix raw1 tested8
    split
    · exact .prefixed prefixLocal it8.mode walked8 (by decide) (by decide)
    · exact Parsed.routed config.edgeMode prefixRouter walked8 (by decide) (by decide)
  · -- `_edge/`: this router, or another; else a mobile address after all
    split
    rename_i isEdge it5 tested5
    have walked5 := walked4.of_prefix raw1 tested5
    split
    case isFalse => exact .mobile (walked5.pointer _)
    split
    rename_i isOwn it6 tested6
    have walked6 := walked5.of_prefix raw1 tested6
    split
    · exact .prefixed prefixLocal it6.mode walked6 (by decide) (by decide)
    · exact Parsed.routed config.edgeMode prefixEdgeSummary walked6 (by decide) (by decide)

/-! ### Sound views -/

/-- What the calls that rework a view keep: the view is at its start, its
reset is coherent, a space once set is not empty, a hash view has a prefix, a
view with a space is in its body or in a space it shows, and only the hash
views show a space. -/
structure QdIterator.Sound (iter : QdIterator) : Prop where
  atStart : iter.viewPointer = iter.viewStartPointer
  coherent : (qdIteratorReset iter).Coherent
  space : iter.space ≠ some []
  hashed : iter.view = .addressHash → iter.hashPrefix ≠ 0
  spaced : iter.view = .addressWithSpace →
    iter.state = .inBody ∨ (iter.state = .inSpace ∧ iter.viewSpace = true ∧ iter.space.isSome = true)
  unspaced : iter.view ≠ .addressHash → iter.view ≠ .addressWithSpace → iter.viewSpace = false

namespace QdIterator

variable {iter : QdIterator}

@[simp]
theorem qdIteratorReset_view (iter : QdIterator) : (qdIteratorReset iter).view = iter.view := by
  dsimp only [qdIteratorReset]
  split_ifs <;> rfl

/-- Past the prefix and the phase the shown space is read whole. -/
theorem afterAnnotationOctets_shown (space : iter.space ≠ some []) (shown : iter.viewSpace = true) :
    afterAnnotationOctets iter = some (iter.space.getD []) := by
  cases isSpace : iter.space with
  | none => simp [afterAnnotationOctets, isSpace]
  | some text =>
      have nonempty : text ≠ [] := fun empty => space (by rw [isSpace, empty])
      simp [afterAnnotationOctets, spaceRest, isSpace, shown, List.length_pos_iff.mpr nonempty]

theorem afterAnnotationOctets_hidden (hidden : iter.viewSpace = false) : afterAnnotationOctets iter = some [] := by
  simp [afterAnnotationOctets, hidden]

/-- The annotation after a reset, for a view without a space of its own: the
prefix, the phase of a mobile address, and what is shown of the space. -/
theorem annotationOctets_reset_prefixed (notSpace : iter.view ≠ .addressWithSpace) (nonzero : iter.hashPrefix ≠ 0) :
    annotationOctets (qdIteratorReset iter) =
      (if iter.hashPrefix = prefixMobile then (afterAnnotationOctets iter).map (iter.phase :: ·)
        else afterAnnotationOctets iter).map (iter.hashPrefix :: ·) := by
  simp only [qdIteratorReset, notSpace, if_false, nonzero, ne_eq, not_false_eq_true, if_true]
  rfl

theorem annotationOctets_reset_unprefixed (notSpace : iter.view ≠ .addressWithSpace) (zero : iter.hashPrefix = 0) :
    annotationOctets (qdIteratorReset iter) = some [] := by
  simp [qdIteratorReset, notSpace, zero, annotationOctets]

/-- A prefix other than the mobile one with no space shown: the prefix alone. -/
theorem annotationOctets_reset_single {hashPrefix : UInt8} (notSpace : iter.view ≠ .addressWithSpace)
    (nonzero : hashPrefix ≠ 0) (notMobile : hashPrefix ≠ prefixMobile) (isPrefix : iter.hashPrefix = hashPrefix)
    (hidden : iter.viewSpace = false) : annotationOctets (qdIteratorReset iter) = some [hashPrefix] := by
  rw [annotationOctets_reset_prefixed notSpace (isPrefix ▸ nonzero), isPrefix, if_neg notMobile,
    afterAnnotationOctets_hidden hidden]
  rfl

/-- A reset whose annotation is as long as its count is coherent, when a view
of everything has no prefix and is read to its end. -/
theorem coherent_reset_of_exact {front : List UInt8} (annotated : annotationOctets (qdIteratorReset iter) = some front)
    (counted : front.length = iter.annotationLength)
    (all : iter.view = .all → iter.hashPrefix = 0 ∧ iter.mode = .toEnd) : (qdIteratorReset iter).Coherent := by
  obtain ⟨-, resetCounted, resetMode, -, -⟩ := qdIteratorReset_frame iter
  refine ⟨⟨front, annotated, by omega, fun fewer => by omega⟩, fun isAll => ?_⟩
  rw [qdIteratorReset_view] at isAll
  obtain ⟨zero, toEnd⟩ := all isAll
  refine ⟨by simp [qdIteratorReset, isAll, zero], resetMode.trans toEnd⟩

end QdIterator

/-! ### Setting a view up -/

/-- What `qd_iterator_reset_view` does after `view_initialize`: the view
starts where the walk left the pointer, with its whole annotation to read. -/
def finishView (iter : QdIterator) : QdIterator :=
  { iter with viewStartPointer := iter.viewPointer, annotationRemaining := iter.annotationLength }

theorem qdIteratorResetView_eq (config : AddressConfig) (iter : QdIterator) (view : IteratorView) :
    qdIteratorResetView config iter view = finishView (viewInitialize config { iter with viewPointer := iter.startPointer, view }) :=
  rfl

/-- Where the view starts does not change the annotation a reset reads. -/
theorem annotationOctets_reset_finishView (iter : QdIterator) :
    annotationOctets (qdIteratorReset (finishView iter)) = annotationOctets (qdIteratorReset iter) := by
  dsimp only [qdIteratorReset, finishView]
  split_ifs <;> rfl

/-- A view set up with an annotation as long as its count, and the facts about
its prefix and space, is sound. -/
theorem sound_finishView {iter : QdIterator} {front : List UInt8}
    (annotated : annotationOctets (qdIteratorReset iter) = some front) (counted : front.length = iter.annotationLength)
    (all : iter.view = .all → iter.hashPrefix = 0 ∧ iter.mode = .toEnd) (space : iter.space ≠ some [])
    (hashed : iter.view = .addressHash → iter.hashPrefix ≠ 0)
    (spaced : iter.view = .addressWithSpace →
      iter.state = .inBody ∨ (iter.state = .inSpace ∧ iter.viewSpace = true ∧ iter.space.isSome = true))
    (unspaced : iter.view ≠ .addressHash → iter.view ≠ .addressWithSpace → iter.viewSpace = false) :
    (finishView iter).Sound where
  atStart := rfl
  coherent := coherent_reset_of_exact (by rw [annotationOctets_reset_finishView]; exact annotated) counted all
  space := space
  hashed := hashed
  spaced := spaced
  unspaced := unspaced

/-- The iterator `view_initialize` walks: no prefix, no annotation, no space
shown, a body read to its end. -/
def initialWalk (iter : QdIterator) : QdIterator :=
  { iter with
    state := .inBody, hashPrefix := 0, mode := .toEnd, annotationLength := 0, annotationRemaining := 0
    viewSpace := false }

theorem raw_initialWalk (iter : QdIterator) : (initialWalk iter).Raw :=
  ⟨rfl, rfl, rfl⟩

variable {start r : QdIterator}

/-- A view of everything, or without its scheme and host: no annotation. -/
theorem sound_plain (walked : (initialWalk start).Walked r) (notHash : start.view ≠ .addressHash)
    (notSpace : start.view ≠ .addressWithSpace) (space : start.space ≠ some []) : (finishView r).Sound := by
  obtain ⟨vp, rfl⟩ := walked
  exact sound_finishView (annotationOctets_reset_unprefixed notSpace rfl) rfl (fun _ => ⟨rfl, rfl⟩) space
    (fun isHash => absurd isHash notHash) (fun isSpace => absurd isSpace notSpace) (fun _ _ => rfl)

/-- The walk of a view whose annotation counts one octet. -/
abbrev WalkedOne (start w : QdIterator) : Prop :=
  Walked { initialWalk start with annotationLength := 1 } w

/-- A prefix other than the mobile one, shown without a space: one octet. -/
theorem sound_prefixed {w : QdIterator} (walked : WalkedOne start w) (hashPrefix : UInt8) (mode : ParseMode)
    (notAll : start.view ≠ .all) (notSpace : start.view ≠ .addressWithSpace) (space : start.space ≠ some [])
    (nonzero : hashPrefix ≠ 0) (notMobile : hashPrefix ≠ prefixMobile) :
    (finishView { w with hashPrefix, state := .atPrefix, mode }).Sound := by
  have sameView : w.view = start.view := walked.view
  have hidden : w.viewSpace = false := walked.viewSpace
  have annotated : annotationOctets (qdIteratorReset { w with hashPrefix, state := .atPrefix, mode }) =
      some [hashPrefix] :=
    annotationOctets_reset_single (by exact sameView ▸ notSpace) nonzero notMobile rfl hidden
  exact sound_finishView annotated walked.annotationLength.symm (fun isAll => absurd (sameView ▸ isAll) notAll)
    (fun isEmpty => space (walked.space.symm.trans isEmpty)) (fun _ => nonzero)
    (fun isSpace => absurd (sameView ▸ isSpace) notSpace) (fun _ _ => hidden)

/-- The view of an edge connection: the local prefix on `_edge`. -/
theorem sound_setToEdgeConnection {w : QdIterator} (walked : WalkedOne start w) (notAll : start.view ≠ .all)
    (notSpace : start.view ≠ .addressWithSpace) (space : start.space ≠ some []) :
    (finishView (setToEdgeConnection w)).Sound :=
  sound_prefixed (walked.pointer edgeConnection) prefixLocal w.mode notAll notSpace space (by decide) (by decide)

/-- A node view: the prefix of a router or an area. -/
theorem sound_parseNodeView (config : AddressConfig) (isNode : start.view = .nodeHash)
    (space : start.space ≠ some []) : (finishView (parseNodeView config (initialWalk start))).Sound := by
  have raw1 : ({ initialWalk start with annotationLength := 1 } : QdIterator).Raw := raw_initialWalk start
  obtain ⟨inArea, tested, isTested, walked⟩ := (Walked.refl _).qdIteratorPrefix raw1 config.myArea
  have notAll : start.view ≠ .all := by simp [isNode]
  have notSpace : start.view ≠ .addressWithSpace := by simp [isNode]
  unfold parseNodeView
  dsimp -iota only
  rw [isTested]
  cases inArea
  · exact sound_prefixed walked prefixArea .toSlash notAll notSpace space (by decide) (by decide)
  · exact sound_prefixed walked prefixRouter .toEnd notAll notSpace space (by decide) (by decide)

theorem spaceLength_eq (iter : QdIterator) : iter.spaceLength = (iter.space.getD []).length := by
  cases isSpace : iter.space <;> simp [spaceLength, isSpace]

/-- The mobile view, or one with a prefix override: the prefix, the phase of
a mobile address, and the whole space. -/
theorem sound_mobileView {w : QdIterator} (walked : WalkedOne start w) (isHash : start.view = .addressHash)
    (space : start.space ≠ some []) : (finishView (mobileView w)).Sound := by
  have viewIs : w.view = .addressHash := walked.view.trans isHash
  have sameSpace : w.space = start.space := walked.space
  have nonzero : (mobileView w).hashPrefix ≠ 0 := by
    simp only [mobileView]
    split_ifs with override
    · exact override
    · decide
  have annotated : annotationOctets (qdIteratorReset (mobileView w)) =
      some ((mobileView w).hashPrefix ::
        ((if (mobileView w).hashPrefix = prefixMobile then [w.phase] else []) ++ w.space.getD [])) := by
    rw [annotationOctets_reset_prefixed (by exact viewIs ▸ (by decide)) nonzero,
      afterAnnotationOctets_shown (by exact sameSpace ▸ space) rfl]
    split_ifs <;> rfl
  refine sound_finishView annotated ?_ (fun isAll => by rw [show (mobileView w).view = w.view from rfl, viewIs] at isAll; cases isAll)
    (sameSpace ▸ space) (fun _ => nonzero)
    (fun isSpace => by rw [show (mobileView w).view = w.view from rfl, viewIs] at isSpace; cases isSpace)
    (fun notHash _ => absurd viewIs notHash)
  -- the count: the space, and one or two octets before it
  have counted : (mobileView w).annotationLength =
      w.spaceLength + (if (mobileView w).hashPrefix = prefixMobile then 2 else 1) := rfl
  rw [counted, spaceLength_eq]
  split_ifs <;> simp

/-- A view with a space that shows none: no annotation, in the body. -/
theorem annotationOctets_reset_spaceHidden {x : QdIterator} (isSpace : x.view = .addressWithSpace)
    (hidden : x.space.isSome = false ∨ x.viewSpace = false) (body : x.state = .inBody) :
    annotationOctets (qdIteratorReset x) = some [] := by
  have notShown : ¬(x.space.isSome = true ∧ x.viewSpace = true) := by
    rcases hidden with hidden | hidden <;> simp [hidden]
  simp only [qdIteratorReset, isSpace, if_true, if_neg notShown, annotationOctets, body]

/-- A view with a space that shows it: the space, from its start. -/
theorem annotationOctets_reset_spaceShown {x : QdIterator} {text : List UInt8} (isSpace : x.view = .addressWithSpace)
    (isText : x.space = some text) (nonempty : text ≠ []) (shown : x.viewSpace = true) :
    annotationOctets (qdIteratorReset x) = some text := by
  simp [qdIteratorReset, isSpace, isText, shown, annotationOctets, spaceRest, List.length_pos_iff.mpr nonempty]

theorem sound_spaceHidden {x : QdIterator} (isSpace : x.view = .addressWithSpace) (hidden : x.viewSpace = false)
    (body : x.state = .inBody) (empty : x.annotationLength = 0) (space : x.space ≠ some []) :
    (finishView x).Sound :=
  sound_finishView (annotationOctets_reset_spaceHidden isSpace (.inr hidden) body) empty.symm
    (fun isAll => by rw [isSpace] at isAll; cases isAll) space (fun isHash => by rw [isSpace] at isHash; cases isHash)
    (fun _ => .inl body) (fun _ notSpace => absurd isSpace notSpace)

/-- The view with a space of a mobile address: the space it shows, from its
start. -/
theorem sound_adjust_mobileView {w : QdIterator} (walked : WalkedOne start w)
    (isSpace : start.view = .addressWithSpace) (space : start.space ≠ some []) :
    (finishView (adjustAddressWithSpace (mobileView w))).Sound := by
  have sameView : w.view = .addressWithSpace := walked.view.trans isSpace
  have sameSpace : w.space = start.space := walked.space
  -- the mobile view shows its space, so the adjustment takes the prefix and
  -- the phase off the count and starts in the space if there is one
  have taken : (mobileView w).annotationLength - (if (mobileView w).hashPrefix = prefixMobile then 2 else 1) =
      w.spaceLength := by
    simp only [mobileView]
    exact Nat.add_sub_cancel _ _
  set x := adjustAddressWithSpace (mobileView w) with isX
  have adjusted : x = { mobileView w with
      annotationLength := w.spaceLength, state := if w.space.isSome then .inSpace else .inBody } := by
    have shown : (mobileView w).viewSpace = true := rfl
    rw [isX, adjustAddressWithSpace, if_pos shown, taken]
    rfl
  have xView : x.view = .addressWithSpace := by rw [adjusted]; exact sameView
  have xShown : x.viewSpace = true := by rw [adjusted]; rfl
  have xSpace : x.space = w.space := by rw [adjusted]; rfl
  have xState : x.state = if w.space.isSome then .inSpace else .inBody := by rw [adjusted]
  have xCount : x.annotationLength = w.spaceLength := by rw [adjusted]
  have xSound : x.space ≠ some [] := by rw [xSpace, sameSpace]; exact space
  cases isShown : w.space with
  | none =>
      have body : x.state = .inBody := by rw [xState, isShown]; rfl
      exact sound_finishView (annotationOctets_reset_spaceHidden xView (.inl (by rw [xSpace, isShown]; rfl)) body)
        (by rw [xCount, spaceLength_eq, isShown]; rfl) (fun isAll => by rw [xView] at isAll; cases isAll) xSound
        (fun isHash => by rw [xView] at isHash; cases isHash) (fun _ => .inl body) (fun _ notSpace => absurd xView notSpace)
  | some text =>
      have nonempty : text ≠ [] := fun none => space (by rw [← sameSpace, isShown, none])
      have inSpace : x.state = .inSpace := by rw [xState, isShown]; rfl
      exact sound_finishView (annotationOctets_reset_spaceShown xView (by rw [xSpace, isShown]) nonempty xShown)
        (by rw [xCount, spaceLength_eq, isShown]; rfl) (fun isAll => by rw [xView] at isAll; cases isAll) xSound
        (fun isHash => by rw [xView] at isHash; cases isHash)
        (fun _ => .inr ⟨inSpace, xShown, by rw [xSpace, isShown]; rfl⟩) (fun _ notSpace => absurd xView notSpace)

/-- A view with a space whose walk shows none: the adjustment drops the count
and starts in the body. -/
theorem sound_adjust_hidden {x : QdIterator} (isSpace : x.view = .addressWithSpace) (hidden : x.viewSpace = false)
    (space : x.space ≠ some []) : (finishView (adjustAddressWithSpace x)).Sound := by
  have adjusted : adjustAddressWithSpace x = { x with annotationLength := 0, state := .inBody } := by
    simp only [adjustAddressWithSpace, hidden, Bool.false_eq_true, if_false]
  rw [adjusted]
  exact sound_spaceHidden isSpace hidden rfl rfl space

namespace Parsed

variable {p : QdIterator}

/-- Every kind of view `parse_address_view` leaves is sound as a hash view. -/
theorem sound_hash (parsed : Parsed { initialWalk start with annotationLength := 1 } p)
    (isHash : start.view = .addressHash) (space : start.space ≠ some []) : (finishView p).Sound := by
  have notAll : start.view ≠ .all := by rw [isHash]; decide
  have notSpace : start.view ≠ .addressWithSpace := by rw [isHash]; decide
  cases parsed with
  | prefixed hashPrefix mode walked nonzero notMobile =>
      exact sound_prefixed walked hashPrefix mode notAll notSpace space nonzero notMobile
  | edge walked => exact sound_setToEdgeConnection walked notAll notSpace space
  | mobile walked => exact sound_mobileView walked isHash space
  | unannotated walked withSpace => exact absurd (walked.view.symm.trans withSpace) notSpace

/-- ... and, adjusted, as a view with a space. -/
theorem sound_space (parsed : Parsed { initialWalk start with annotationLength := 1 } p)
    (isSpace : start.view = .addressWithSpace) (space : start.space ≠ some []) :
    (finishView (adjustAddressWithSpace p)).Sound := by
  rcases parsed.hidden_or_mobile rfl with hidden | ⟨w, walked, rfl⟩
  · exact sound_adjust_hidden (parsed.view.trans isSpace) hidden (by rw [parsed.space]; exact space)
  · exact sound_adjust_mobileView walked isSpace space

end Parsed

/-- `view_initialize` as the walks it makes from `initialWalk`. -/
theorem viewInitialize_eq (config : AddressConfig) (iter : QdIterator) :
    viewInitialize config iter =
      if iter.view = .all then initialWalk iter
      else if iter.view = .nodeHash then parseNodeView config (initialWalk iter)
      else if (advanceToNodeId (initialWalk iter)).view = .addressNoHost then advanceToNodeId (initialWalk iter)
      else if (parseAddressView config (qdIteratorRemoveTrailingSeparator (advanceToNodeId (initialWalk iter)))).view =
          .addressWithSpace then
        adjustAddressWithSpace (parseAddressView config (qdIteratorRemoveTrailingSeparator (advanceToNodeId (initialWalk iter))))
      else parseAddressView config (qdIteratorRemoveTrailingSeparator (advanceToNodeId (initialWalk iter))) :=
  rfl

/-- `view_initialize` leaves a sound view whatever the view and the address:
the walks keep the view, so the tests on it go as on the view asked for. -/
theorem sound_viewInitialize (config : AddressConfig) (start : QdIterator) (space : start.space ≠ some []) :
    (finishView (viewInitialize config start)).Sound := by
  have raw := raw_initialWalk start
  have walkedNode := (Walked.refl _).advanceToNodeId raw
  have parsed := parseAddressView_parsed config raw (walkedNode.removeTrailingSeparator raw)
  have nodeView : (advanceToNodeId (initialWalk start)).view = start.view := walkedNode.view
  have parsedView : (parseAddressView config (qdIteratorRemoveTrailingSeparator
      (advanceToNodeId (initialWalk start)))).view = start.view := parsed.view
  rw [viewInitialize_eq, nodeView, parsedView]
  cases isView : start.view with
  | all =>
      rw [if_pos rfl]
      exact sound_plain (Walked.refl _) (by rw [isView]; decide) (by rw [isView]; decide) space
  | nodeHash =>
      rw [if_neg (by decide), if_pos rfl]
      exact sound_parseNodeView config isView space
  | addressNoHost =>
      rw [if_neg (by decide), if_neg (by decide), if_pos rfl]
      exact sound_plain walkedNode (by rw [isView]; decide) (by rw [isView]; decide) space
  | addressHash =>
      rw [if_neg (by decide), if_neg (by decide), if_neg (by decide), if_neg (by decide)]
      exact parsed.sound_hash isView space
  | addressWithSpace =>
      rw [if_neg (by decide), if_neg (by decide), if_neg (by decide), if_pos rfl]
      exact parsed.sound_space isView space

/-- `qd_iterator_reset_view` leaves a sound view, whatever the view. -/
theorem sound_resetView (config : AddressConfig) (iter : QdIterator) (space : iter.space ≠ some [])
    (view : IteratorView) : (qdIteratorResetView config iter view).Sound :=
  sound_viewInitialize config _ space

end DispatchRouter.Iterator
