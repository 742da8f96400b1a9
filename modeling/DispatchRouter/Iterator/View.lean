/-
# Iterators and their views (`iterator.c`)

An iterator walks a field of octets and shows a view of it. The address views
skip the scheme and host (`view_initialize`), drop one trailing separator, and
then either put a one-octet hash prefix (and for a mobile address the phase and
the tenant space) in front of the rest, or keep only the part up to the next
`/` (`parse_address_view`). The octets of a view come from `qd_iterator_octet`,
a state machine over the prefix, the phase, the space and the body.

The field is modelled as the octets of a string or binary iterator, one piece
of memory: a pointer into it is the list of octets it still covers, so that
moving the cursor drops the head and lowering `remaining` takes a shorter
prefix. Iterators over buffer chains are not modelled. The router-wide
settings of `qd_iterator_set_address` are an `AddressConfig`. The counters
`annotation_length` and `annotation_remaining` are natural numbers; they go
below zero in the source only for a space annotation of length zero, which no
caller makes (a tenant space is a vhost followed by `/`).
-/

import Mathlib.Data.List.Basic

namespace DispatchRouter.Iterator

/-! ### Octets the views test for -/

/-- `/`, `.`, `:` and `_`. -/
def slash : UInt8 := 47

def dot : UInt8 := 46

def colon : UInt8 := 58

def underscore : UInt8 := 95

/-- `SEPARATORS`: `.` and `/`. -/
def separators : List UInt8 := [dot, slash]

/-- The texts `parse_address_view` tests for: `local/`, `topo/`, `all/`,
`edge/`, and `_edge`, the view of an edge connection. -/
def localSlash : List UInt8 := [108, 111, 99, 97, 108, 47]

def topoSlash : List UInt8 := [116, 111, 112, 111, 47]

def allSlash : List UInt8 := [97, 108, 108, 47]

def edgeSlash : List UInt8 := [101, 100, 103, 101, 47]

def edgeConnection : List UInt8 := [95, 101, 100, 103, 101]

/-- The hash prefixes `QD_ITER_HASH_PREFIX_TOPOLOGICAL`, `_LOCAL`, `_AREA`,
`_ROUTER`, `_MOBILE` and `_EDGE_SUMMARY`. -/
def prefixTopological : UInt8 := 84

def prefixLocal : UInt8 := 76

def prefixArea : UInt8 := 65

def prefixRouter : UInt8 := 82

def prefixMobile : UInt8 := 77

def prefixEdgeSummary : UInt8 := 72

/-! ### The iterator -/

/-- `qd_iterator_view_t`. -/
inductive IteratorView
  | all
  | addressNoHost
  | addressHash
  | nodeHash
  | addressWithSpace
  deriving DecidableEq, Repr

/-- `parse_mode_t`. -/
inductive ParseMode
  | toEnd
  | toSlash
  deriving DecidableEq, Repr

/-- `view_state_t`. -/
inductive ViewState
  | atPrefix
  | atPhase
  | inSpace
  | inBody
  deriving DecidableEq, Repr

/-- `qd_iterator_t` over one piece of memory. `hashPrefix` is the field
`prefix`; `space` is null or the tenant space, whose length is
`space_length`. -/
structure QdIterator where
  startPointer : List UInt8
  viewStartPointer : List UInt8
  viewPointer : List UInt8
  view : IteratorView
  annotationLength : Nat
  annotationRemaining : Nat
  mode : ParseMode
  state : ViewState
  hashPrefix : UInt8
  prefixOverride : UInt8
  phase : UInt8
  space : Option (List UInt8)
  spaceCursor : Nat
  viewSpace : Bool
  deriving DecidableEq, Repr

/-- The router-wide settings of `qd_iterator_set_address`: edge mode, and the
area and router id, each stored with a `/` after it. -/
structure AddressConfig where
  edgeMode : Bool
  myArea : List UInt8
  myRouter : List UInt8
  deriving DecidableEq, Repr

/-- `qd_iterator_set_address(edge_mode, area, router)`. -/
def qdIteratorSetAddress (edgeMode : Bool) (area router : List UInt8) : AddressConfig :=
  ⟨edgeMode, area ++ [slash], router ++ [slash]⟩

namespace QdIterator

/-- `space_length`: zero while no space is set. -/
def spaceLength (iter : QdIterator) : Nat :=
  (iter.space.map List.length).getD 0

/-- `iterator_remaining`. -/
def remaining (iter : QdIterator) : Nat :=
  iter.annotationRemaining + iter.viewPointer.length

/-- `iterator_at_end`. -/
def atEnd (iter : QdIterator) : Bool :=
  iter.remaining == 0

/-- `iterator_length`. -/
def length (iter : QdIterator) : Nat :=
  iter.annotationLength + iter.viewStartPointer.length

/-- `in_field_data`: past every annotation, in a body read to its end. -/
def inFieldData (iter : QdIterator) : Bool :=
  iter.view == .all || (iter.state == .inBody && iter.mode == .toEnd)

/-- Where the state machine goes after the prefix or the phase: into the space
if there is one to show, else into the body. -/
def afterAnnotation (iter : QdIterator) : ViewState :=
  if iter.viewSpace && iter.space.isSome then .inSpace else .inBody

end QdIterator

open QdIterator

/-- `qd_iterator_octet`: the next octet of the view. In the body a view read to
the next slash ends before it; at the end of the body the octet is zero. -/
def qdIteratorOctet (iter : QdIterator) : UInt8 × QdIterator :=
  match iter.state with
  | .inBody =>
      match iter.viewPointer with
      | [] => (0, iter)
      | octet :: rest =>
          let rest := if iter.mode = .toSlash ∧ rest.head? = some slash then [] else rest
          (octet, { iter with viewPointer := rest })
  | .atPrefix =>
      (iter.hashPrefix,
        { iter with
          state := if iter.hashPrefix = prefixMobile then .atPhase else iter.afterAnnotation
          spaceCursor := 0
          annotationRemaining := iter.annotationRemaining - 1 })
  | .atPhase =>
      (iter.phase,
        { iter with
          state := iter.afterAnnotation
          spaceCursor := 0
          annotationRemaining := iter.annotationRemaining - 1 })
  | .inSpace =>
      let space := iter.space.getD []
      (space.getD iter.spaceCursor 0,
        { iter with
          state := if iter.spaceCursor + 1 = space.length then .inBody else .inSpace
          annotationRemaining := iter.annotationRemaining - 1
          spaceCursor := iter.spaceCursor + 1 })

/-- `while (!iterator_at_end(iter)) qd_iterator_octet(iter)`: the octets read
and the iterator left. Each round reads one octet; `fuel` bounds the rounds. -/
def readToEnd : Nat → QdIterator → List UInt8 × QdIterator
  | 0, iter => ([], iter)
  | fuel + 1, iter =>
      if iter.atEnd then ([], iter)
      else
        let (octet, iter) := qdIteratorOctet iter
        let (rest, iter) := readToEnd fuel iter
        (octet :: rest, iter)

/-- The octets left in the view, read one at a time. -/
def qdIteratorOctets (iter : QdIterator) : List UInt8 × QdIterator :=
  readToEnd iter.remaining iter

/-- The loop of `qd_iterator_prefix`: an octet is read for each octet of the
text until one differs. -/
def prefixLoop : List UInt8 → QdIterator → Bool × QdIterator
  | [], iter => (true, iter)
  | c :: cs, iter =>
      let (octet, iter) := qdIteratorOctet iter
      if c ≠ octet then (false, iter) else prefixLoop cs iter

/-- `qd_iterator_prefix`: whether the view goes on with `text`, which is then
read; when it does not, the view pointer is put back. -/
def qdIteratorPrefix (iter : QdIterator) (text : List UInt8) : Bool × QdIterator :=
  match prefixLoop text iter with
  | (true, iter') => (true, iter')
  | (false, iter') => (false, { iter' with viewPointer := iter.viewPointer })

/-! ### Setting up a view -/

/-- `state_t`, the states of the walk to the node id. -/
inductive SchemeState
  | start
  | slashLeft
  | skippingToNextSlash
  | scanning
  | colon
  | colonSlash
  | atNodeId
  deriving DecidableEq, Repr

/-- The loop of `view_initialize` that moves past the scheme and the host:
`amqp://host/`, `amqp:/` or a leading `/`. `save` is `save_pointer`. -/
def schemeLoop : Nat → SchemeState → List UInt8 → QdIterator → SchemeState × QdIterator
  | 0, state, _, iter => (state, iter)
  | fuel + 1, state, save, iter =>
      if iter.atEnd ∨ state = .atNodeId then (state, iter)
      else
        let (octet, iter) := qdIteratorOctet iter
        match state with
        | .start =>
            if octet = slash then schemeLoop fuel .slashLeft iter.viewPointer iter
            else schemeLoop fuel .scanning save iter
        | .slashLeft =>
            if octet = slash then schemeLoop fuel .skippingToNextSlash save iter
            else schemeLoop fuel .atNodeId save { iter with viewPointer := save }
        | .skippingToNextSlash =>
            if octet = slash then schemeLoop fuel .atNodeId save iter
            else schemeLoop fuel .skippingToNextSlash save iter
        | .scanning =>
            if octet = colon then schemeLoop fuel .colon save iter
            else schemeLoop fuel .scanning save iter
        | .colon =>
            if octet = slash then schemeLoop fuel .colonSlash iter.viewPointer iter
            else schemeLoop fuel .scanning save iter
        | .colonSlash =>
            if octet = slash then schemeLoop fuel .skippingToNextSlash save iter
            else schemeLoop fuel .atNodeId save { iter with viewPointer := save }
        | .atNodeId => schemeLoop fuel .atNodeId save iter

/-- `qd_iterator_remove_trailing_separator`: the view is read to its end, and
when its last octet is a separator the view is one octet shorter. -/
def qdIteratorRemoveTrailingSeparator (iter : QdIterator) : QdIterator :=
  let (octets, read) := qdIteratorOctets iter
  let iter := { read with viewPointer := iter.viewPointer }
  let current := octets.getLast?.getD 0
  if current ≠ 0 ∧ current ∈ separators then { iter with viewPointer := iter.viewPointer.dropLast } else iter

/-- `set_to_edge_connection`: the view `L_edge`. -/
def setToEdgeConnection (iter : QdIterator) : QdIterator :=
  { iter with
    hashPrefix := prefixLocal
    state := .atPrefix
    viewStartPointer := edgeConnection
    viewPointer := edgeConnection }

/-- The end of `parse_address_view` for a mobile address, or one with a prefix
override: the prefix, the phase of a mobile address, and the space. -/
def mobileView (iter : QdIterator) : QdIterator :=
  let hashPrefix := if iter.prefixOverride ≠ 0 then iter.prefixOverride else prefixMobile
  { iter with
    hashPrefix
    state := .atPrefix
    viewSpace := true
    annotationLength := iter.spaceLength + (if hashPrefix = prefixMobile then 2 else 1) }

/-- `parse_address_view`: the hash prefix of the address classes `_local/`,
`_topo/`, `_edge/` and mobile. The tests consume what they match. -/
def parseAddressView (config : AddressConfig) (iter : QdIterator) : QdIterator :=
  let savePointer := iter.viewPointer
  let iter := { iter with annotationLength := 1 }
  if iter.prefixOverride = 0 then
    let (underscore, iter) := qdIteratorPrefix iter [underscore]
    if underscore then
      if iter.view = .addressWithSpace then
        { iter with viewPointer := savePointer, viewSpace := false, annotationLength := 0 }
      else
        let (isLocal, iter) := qdIteratorPrefix iter localSlash
        if isLocal then { iter with hashPrefix := prefixLocal, state := .atPrefix }
        else
          let (topo, iter) := qdIteratorPrefix iter topoSlash
          if topo then
            let (all, iter) := qdIteratorPrefix iter allSlash
            let (areaMatched, iter) := if all then (true, iter) else qdIteratorPrefix iter config.myArea
            if areaMatched then
              let (allAgain, iter) := qdIteratorPrefix iter allSlash
              if allAgain then { iter with hashPrefix := prefixTopological, state := .atPrefix }
              else
                let (ownRouter, iter) := qdIteratorPrefix iter config.myRouter
                if ownRouter then { iter with hashPrefix := prefixLocal, state := .atPrefix }
                else if config.edgeMode then setToEdgeConnection iter
                else { iter with hashPrefix := prefixRouter, state := .atPrefix, mode := .toSlash }
            else if config.edgeMode then setToEdgeConnection iter
            else { iter with hashPrefix := prefixArea, state := .atPrefix, mode := .toSlash }
          else
            let (edge, iter) := qdIteratorPrefix iter edgeSlash
            if edge then
              let (ownRouter, iter) := qdIteratorPrefix iter config.myRouter
              if ownRouter then { iter with hashPrefix := prefixLocal, state := .atPrefix }
              else if config.edgeMode then setToEdgeConnection iter
              else { iter with hashPrefix := prefixEdgeSummary, state := .atPrefix, mode := .toSlash }
            else mobileView { iter with viewPointer := savePointer }
    else mobileView iter
  else mobileView iter

/-- `adjust_address_with_space`: an address-hash view without its prefix and
phase. -/
def adjustAddressWithSpace (iter : QdIterator) : QdIterator :=
  if iter.viewSpace then
    { iter with
      annotationLength := iter.annotationLength - (if iter.hashPrefix = prefixMobile then 2 else 1)
      state := if iter.space.isSome then .inSpace else .inBody }
  else { iter with annotationLength := 0, state := .inBody }

/-- `parse_node_view`: a router id in this router's area is hashed as a router,
any other by its area. -/
def parseNodeView (config : AddressConfig) (iter : QdIterator) : QdIterator :=
  let iter := { iter with annotationLength := 1 }
  let (inArea, iter) := qdIteratorPrefix iter config.myArea
  if inArea then { iter with hashPrefix := prefixRouter, state := .atPrefix, mode := .toEnd }
  else { iter with hashPrefix := prefixArea, state := .atPrefix, mode := .toSlash }

/-- The walk of `view_initialize` to the first octet of the node id. -/
def advanceToNodeId (iter : QdIterator) : QdIterator :=
  let (state, iter) := schemeLoop iter.remaining .start [] iter
  -- a relative address: the node id is at the start
  if state ≠ .atNodeId then { iter with viewPointer := iter.startPointer } else iter

/-- `view_initialize`. -/
def viewInitialize (config : AddressConfig) (iter : QdIterator) : QdIterator :=
  let iter := { iter with
    state := .inBody, hashPrefix := 0, mode := .toEnd, annotationLength := 0, annotationRemaining := 0
    viewSpace := false }
  if iter.view = .all then iter
  else if iter.view = .nodeHash then parseNodeView config iter
  else
    let iter := advanceToNodeId iter
    if iter.view = .addressNoHost then iter
    else
      let iter := parseAddressView config (qdIteratorRemoveTrailingSeparator iter)
      if iter.view = .addressWithSpace then adjustAddressWithSpace iter else iter

/-! ### The public interface -/

/-- `qd_iterator_reset`. -/
def qdIteratorReset (iter : QdIterator) : QdIterator :=
  let iter := { iter with viewPointer := iter.viewStartPointer, annotationRemaining := iter.annotationLength }
  if iter.view = .addressWithSpace then
    if iter.space.isSome ∧ iter.viewSpace then { iter with state := .inSpace, spaceCursor := 0 } else iter
  else { iter with state := if iter.hashPrefix ≠ 0 then .atPrefix else .inBody }

/-- `qd_iterator_reset_view`. -/
def qdIteratorResetView (config : AddressConfig) (iter : QdIterator) (view : IteratorView) : QdIterator :=
  let iter := viewInitialize config { iter with viewPointer := iter.startPointer, view }
  { iter with viewStartPointer := iter.viewPointer, annotationRemaining := iter.annotationLength }

/-- `qd_iterator_string(text, view)` (and `qd_iterator_binary`): a zeroed
iterator on the text, phase `0`. -/
def qdIteratorString (config : AddressConfig) (text : List UInt8) (view : IteratorView) : QdIterator :=
  qdIteratorResetView config
    { startPointer := text, viewStartPointer := [], viewPointer := [], view := .all, annotationLength := 0
      annotationRemaining := 0, mode := .toEnd, state := .atPrefix, hashPrefix := 0, prefixOverride := 0
      phase := 48, space := none, spaceCursor := 0, viewSpace := false }
    view

/-- `qd_iterator_annotate_phase`. -/
def qdIteratorAnnotatePhase (iter : QdIterator) (phase : UInt8) : QdIterator :=
  { iter with phase }

/-- `qd_iterator_annotate_prefix`: the view set up again with the override. -/
def qdIteratorAnnotatePrefix (config : AddressConfig) (iter : QdIterator) (hashPrefix : UInt8) : QdIterator :=
  qdIteratorResetView config { iter with prefixOverride := hashPrefix } iter.view

/-- `qd_iterator_annotate_space`. -/
def qdIteratorAnnotateSpace (iter : QdIterator) (space : List UInt8) : QdIterator :=
  let iter := { iter with space := some space }
  if iter.view = .addressHash then
    { iter with
      annotationLength :=
        (if iter.viewSpace then space.length else 0) + (if iter.hashPrefix = prefixMobile then 2 else 1) }
  else if iter.view = .addressWithSpace then
    if iter.viewSpace then { iter with annotationLength := space.length } else iter
  else iter

/-- `qd_iterator_trim_view`: the view cut to `length` octets, in the
annotation if it is that short. -/
def qdIteratorTrimView (iter : QdIterator) (length : Nat) : QdIterator :=
  let iter := { iter with viewStartPointer := iter.viewPointer }
  let viewLength := iter.length
  if viewLength > length then
    let iter :=
      if iter.annotationLength > length then
        { iter with annotationLength := length, annotationRemaining := length, viewStartPointer := [] }
      else
        { iter with viewStartPointer := iter.viewStartPointer.take (iter.viewStartPointer.length -
            (viewLength - length)) }
    { iter with viewPointer := iter.viewStartPointer }
  else iter

/-- The octets of the view: `qd_iterator_reset`, then `qd_iterator_octet`
until `qd_iterator_end`. -/
def viewOctets (iter : QdIterator) : List UInt8 :=
  (qdIteratorOctets (qdIteratorReset iter)).1

end DispatchRouter.Iterator
