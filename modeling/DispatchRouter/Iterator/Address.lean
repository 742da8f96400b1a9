/-
# The hash keys of the address classes

While `view_initialize` walks an address, the iterator is in the body of a
view read to its end with no annotation left (`QdIterator.Raw`): an octet is
the next octet of the text, `qd_iterator_prefix` tests whether the text goes on
with a string and reads it if so, and the loops of the walk each consume a
known part of the text. The lemmas here say what each piece leaves, and compose
them along an address: past the scheme and host, without its trailing
separator, and through the prefix tests of `parse_address_view`.
-/

import DispatchRouter.Iterator.View
import Mathlib.Tactic.Set

namespace DispatchRouter.Iterator

open QdIterator

-- The walk's loop has a large match; its equation lemmas are made once, here,
-- rather than by each of the proofs below that unfold it.
attribute [grind] schemeLoop

/-- The iterator of the walk: in the body, read to its end, no annotation left. -/
def QdIterator.Raw (iter : QdIterator) : Prop :=
  iter.state = .inBody ∧ iter.mode = .toEnd ∧ iter.annotationRemaining = 0

namespace QdIterator

variable {iter : QdIterator}

theorem Raw.with_viewPointer (raw : iter.Raw) (vp : List UInt8) : { iter with viewPointer := vp }.Raw :=
  raw

@[simp]
theorem remaining_of_raw (raw : iter.Raw) : iter.remaining = iter.viewPointer.length := by
  simp [remaining, raw.2.2]

/-- In the walk an octet is the next octet of the text. -/
theorem octet_raw (raw : iter.Raw) {c : UInt8} {rest : List UInt8} (at_c : iter.viewPointer = c :: rest) :
    qdIteratorOctet iter = (c, { iter with viewPointer := rest }) := by
  obtain ⟨inBody, toEnd, -⟩ := raw
  simp [qdIteratorOctet, inBody, at_c, toEnd]

/-- At the end of the text an octet is zero. -/
theorem octet_raw_nil (raw : iter.Raw) (empty : iter.viewPointer = []) : qdIteratorOctet iter = (0, iter) := by
  simp [qdIteratorOctet, raw.1, empty]

/-- In the walk the view ends where the text does. -/
theorem atEnd_of_raw (raw : iter.Raw) : iter.atEnd = iter.viewPointer.isEmpty := by
  cases vp : iter.viewPointer <;> simp [atEnd, remaining_of_raw raw, vp]

end QdIterator

/-! ### `qd_iterator_prefix` in the walk -/

/-- The prefix loop on a text that goes on with the string reads the string. -/
theorem prefixLoop_append {iter : QdIterator} (raw : iter.Raw) :
    ∀ (text rest : List UInt8), iter.viewPointer = text ++ rest →
      prefixLoop text iter = (true, { iter with viewPointer := rest }) := by
  intro text
  induction text generalizing iter with
  | nil =>
      intro rest at_rest
      simp only [List.nil_append] at at_rest
      rw [prefixLoop, ← at_rest]
  | cons c text ih =>
      intro rest at_c
      rw [List.cons_append] at at_c
      rw [prefixLoop, QdIterator.octet_raw raw at_c]
      simp only [ne_eq, not_true_eq_false, if_false]
      exact ih (raw.with_viewPointer _) rest rfl

/-- The prefix loop on a text that does not go on with a string free of zero
octets reads a part of the text and says no. -/
theorem prefixLoop_of_not_prefix {iter : QdIterator} (raw : iter.Raw) :
    ∀ (text : List UInt8), 0 ∉ text → ¬ text <+: iter.viewPointer →
      ∃ vp, prefixLoop text iter = (false, { iter with viewPointer := vp }) := by
  intro text
  induction text generalizing iter with
  | nil =>
      intro _ notPrefix
      exact absurd (List.nil_prefix) notPrefix
  | cons c text ih =>
      intro noZero notPrefix
      have cNonzero : c ≠ 0 := fun zero => noZero (zero ▸ List.mem_cons_self)
      have restNoZero : 0 ∉ text := fun inText => noZero (List.mem_cons_of_mem c inText)
      cases vp : iter.viewPointer with
      | nil =>
          -- the text has ended: the octet read is zero, and `c` is not
          rw [prefixLoop, QdIterator.octet_raw_nil raw vp]
          exact ⟨iter.viewPointer, by simp [cNonzero]⟩
      | cons d rest =>
          rw [prefixLoop, QdIterator.octet_raw raw vp]
          by_cases same : c = d
          · subst same
            have restNotPrefix : ¬ text <+: rest := fun isPrefix =>
              notPrefix (by rw [vp]; exact List.cons_prefix_cons.mpr ⟨rfl, isPrefix⟩)
            obtain ⟨vp', loop⟩ := ih (raw.with_viewPointer rest) restNoZero restNotPrefix
            exact ⟨vp', by simpa using loop⟩
          · exact ⟨rest, by simp [same]⟩

/-- `qd_iterator_prefix` on a text that goes on with the string: yes, and the
string is read. -/
theorem qdIteratorPrefix_append {iter : QdIterator} (raw : iter.Raw) {text rest : List UInt8}
    (at_text : iter.viewPointer = text ++ rest) :
    qdIteratorPrefix iter text = (true, { iter with viewPointer := rest }) := by
  rw [qdIteratorPrefix, prefixLoop_append raw text rest at_text]

/-- `qd_iterator_prefix` on a text that does not go on with the string: no, and
the iterator is as it was. -/
theorem qdIteratorPrefix_of_not_prefix {iter : QdIterator} (raw : iter.Raw) {text : List UInt8}
    (noZero : 0 ∉ text) (notPrefix : ¬ text <+: iter.viewPointer) :
    qdIteratorPrefix iter text = (false, iter) := by
  obtain ⟨vp, loop⟩ := prefixLoop_of_not_prefix raw text noZero notPrefix
  rw [qdIteratorPrefix, loop]

/-! ### The walk past the scheme and the host -/

/-- `amqp:/`. -/
def amqpColonSlash : List UInt8 := [97, 109, 113, 112, 58, 47]

/-- What stands before the node id of an address: nothing, `amqp:/`, or
`amqp://` and a host, with its port, up to the next `/`. -/
inductive Scheme
  | relative
  | amqp
  | amqpHost (host : List UInt8)

/-- The text of a scheme. -/
def Scheme.text : Scheme → List UInt8
  | .relative => []
  | .amqp => amqpColonSlash
  | .amqpHost host => amqpColonSlash ++ slash :: host ++ [slash]

/-- What the walk needs of a scheme and of the node id after it: a node id that
does not start with a slash, and no colon in a relative address; no slash in a
host. -/
def Scheme.Fits : Scheme → List UInt8 → Prop
  | .relative, body => body ≠ [] ∧ body.head? ≠ some slash ∧ colon ∉ body
  | .amqp, body => body ≠ [] ∧ body.head? ≠ some slash
  | .amqpHost host, _ => slash ∉ host

namespace QdIterator

variable {iter : QdIterator}

/-- Once at the node id the walk stops. -/
theorem schemeLoop_atNodeId (fuel : Nat) (save : List UInt8) :
    schemeLoop fuel .atNodeId save iter = (.atNodeId, iter) := by
  cases fuel <;> simp [schemeLoop]

/-- Scanning a text with no colon reads all of it. -/
theorem schemeLoop_scanning (save : List UInt8) :
    ∀ (vp : List UInt8) (iter : QdIterator) (fuel : Nat), iter.Raw → iter.viewPointer = vp → colon ∉ vp →
      vp.length ≤ fuel → schemeLoop fuel .scanning save iter = (.scanning, { iter with viewPointer := [] }) := by
  intro vp
  induction vp with
  | nil =>
      intro iter fuel raw empty _ _
      have atEnd : iter.atEnd = true := by simp [atEnd_of_raw raw, empty]
      have same : { iter with viewPointer := [] } = iter := by rw [← empty]
      cases fuel <;> simp [schemeLoop, atEnd, same]
  | cons c rest ih =>
      intro iter fuel raw at_c noColon enough
      obtain ⟨fuel, rfl⟩ : ∃ n, fuel = n + 1 := Nat.exists_eq_succ_of_ne_zero (by simp at enough; omega)
      have notEnd : iter.atEnd = false := by simp [atEnd_of_raw raw, at_c]
      have notColon : c ≠ colon := fun same => noColon (same ▸ List.mem_cons_self)
      rw [schemeLoop, if_neg (by simp [notEnd]), octet_raw raw at_c]
      simp only [if_neg notColon]
      exact ih _ fuel (raw.with_viewPointer rest) rfl (fun inRest => noColon (List.mem_cons_of_mem c inRest))
        (by simpa using enough)

/-- Skipping a host with no slash in it reads it and the slash after it, and
reaches the node id. -/
theorem schemeLoop_skipping (save rest : List UInt8) :
    ∀ (host : List UInt8) (iter : QdIterator) (fuel : Nat), iter.Raw →
      iter.viewPointer = host ++ slash :: rest → slash ∉ host → host.length < fuel →
      schemeLoop fuel .skippingToNextSlash save iter = (.atNodeId, { iter with viewPointer := rest }) := by
  intro host
  induction host with
  | nil =>
      intro iter fuel raw at_slash _ enough
      obtain ⟨fuel, rfl⟩ : ∃ n, fuel = n + 1 := Nat.exists_eq_succ_of_ne_zero (by omega)
      have notEnd : iter.atEnd = false := by simp [atEnd_of_raw raw, at_slash]
      rw [schemeLoop, if_neg (by simp [notEnd]), octet_raw raw at_slash]
      simp only [↓reduceIte, schemeLoop_atNodeId]
  | cons c host ih =>
      intro iter fuel raw at_c noSlash enough
      obtain ⟨fuel, rfl⟩ : ∃ n, fuel = n + 1 := Nat.exists_eq_succ_of_ne_zero (by omega)
      have notEnd : iter.atEnd = false := by simp [atEnd_of_raw raw, at_c]
      have notSlash : c ≠ slash := fun same => noSlash (same ▸ List.mem_cons_self)
      rw [List.cons_append] at at_c
      rw [schemeLoop, if_neg (by simp [notEnd]), octet_raw raw at_c]
      simp only [if_neg notSlash]
      exact ih _ fuel (raw.with_viewPointer _) rfl (fun inHost => noSlash (List.mem_cons_of_mem c inHost))
        (by simp at enough; omega)

/-- The walk over `amqp:/`: six octets read, the slash after the colon saved. -/
theorem schemeLoop_amqp (raw : iter.Raw) {after : List UInt8} (at_amqp : iter.viewPointer = amqpColonSlash ++ after)
    (fuel : Nat) (save : List UInt8) :
    schemeLoop (fuel + 6) .start save iter = schemeLoop fuel .colonSlash after { iter with viewPointer := after } := by
  obtain ⟨inBody, toEnd, noAnnotation⟩ := raw
  simp [schemeLoop, qdIteratorOctet, atEnd, remaining, inBody, toEnd, noAnnotation, at_amqp, amqpColonSlash,
    slash, colon]

/-- The walk to the node id stops at the first octet after the scheme and host. -/
theorem advanceToNodeId_text (raw : iter.Raw) {scheme : Scheme} {body : List UInt8}
    (start : iter.startPointer = scheme.text ++ body) (at_start : iter.viewPointer = iter.startPointer)
    (fits : scheme.Fits body) :
    advanceToNodeId iter = { iter with viewPointer := body } := by
  cases scheme with
  | relative =>
      -- a relative address is read to its end, and the node id is its start
      obtain ⟨nonempty, notSlash, noColon⟩ := fits
      obtain ⟨c, rest, rfl⟩ := List.exists_cons_of_ne_nil nonempty
      have cNotSlash : c ≠ slash := fun same => notSlash (by simp [same])
      have at_c : iter.viewPointer = c :: rest := by simp [at_start, start, Scheme.text]
      have notEnd : iter.atEnd = false := by simp [atEnd_of_raw raw, at_c]
      have scanned := schemeLoop_scanning [] rest { iter with viewPointer := rest } rest.length
        (raw.with_viewPointer rest) rfl (fun inRest => noColon (List.mem_cons_of_mem c inRest)) (Nat.le_refl _)
      simp only [advanceToNodeId, remaining_of_raw raw, at_c, List.length_cons, schemeLoop, notEnd,
        Bool.false_eq_true, false_or, reduceCtorEq, if_false, octet_raw raw at_c, if_neg cNotSlash, scanned,
        ne_eq, not_false_eq_true, if_true]
      simp [start, Scheme.text]
  | amqp =>
      obtain ⟨nonempty, notSlash⟩ := fits
      obtain ⟨c, rest, rfl⟩ := List.exists_cons_of_ne_nil nonempty
      have cNotSlash : c ≠ slash := fun same => notSlash (by simp [same])
      have at_amqp : iter.viewPointer = amqpColonSlash ++ c :: rest := by simp [at_start, start, Scheme.text]
      have walked := schemeLoop_amqp raw at_amqp (rest.length + 1) []
      have fuel : iter.remaining = rest.length + 1 + 6 := by
        simp only [remaining_of_raw raw, at_amqp, amqpColonSlash, List.length_append, List.length_cons,
          List.length_nil]
        omega
      have notEnd : ({ iter with viewPointer := c :: rest } : QdIterator).atEnd = false := by
        simp [atEnd_of_raw (raw.with_viewPointer _)]
      -- past the slash the next octet is no slash: the node id starts there
      simp only [advanceToNodeId, fuel, walked, schemeLoop, notEnd, Bool.false_eq_true, false_or,
        reduceCtorEq, if_false, octet_raw (raw.with_viewPointer (c :: rest)) rfl, if_neg cNotSlash,
        schemeLoop_atNodeId, ne_eq, not_true_eq_false]
  | amqpHost host =>
      have at_amqp : iter.viewPointer = amqpColonSlash ++ slash :: (host ++ slash :: body) := by
        simp [at_start, start, Scheme.text]
      have walked := schemeLoop_amqp raw at_amqp (host.length + 1 + body.length + 1) []
      have fuel : iter.remaining = host.length + 1 + body.length + 1 + 6 := by
        simp only [remaining_of_raw raw, at_amqp, amqpColonSlash, List.length_append, List.length_cons,
          List.length_nil]
        omega
      have notEnd : ({ iter with viewPointer := slash :: (host ++ slash :: body) } : QdIterator).atEnd = false := by
        simp [atEnd_of_raw (raw.with_viewPointer _)]
      have skipped := schemeLoop_skipping (slash :: (host ++ slash :: body)) body host
        { iter with viewPointer := host ++ slash :: body } (host.length + 1 + body.length) (raw.with_viewPointer _)
        rfl fits (by omega)
      -- the second slash: the host is skipped up to the slash after it
      simp only [advanceToNodeId, fuel, walked, schemeLoop, notEnd, Bool.false_eq_true, false_or,
        reduceCtorEq, octet_raw (raw.with_viewPointer (slash :: (host ++ slash :: body))) rfl,
        ↓reduceIte, skipped, ne_eq, not_true_eq_false]

/-! ### The trailing separator -/

/-- Read to its end, the walk's iterator gives the rest of its text. -/
theorem readToEnd_raw :
    ∀ (vp : List UInt8) (iter : QdIterator) (fuel : Nat), iter.Raw → iter.viewPointer = vp →
      vp.length ≤ fuel → readToEnd fuel iter = (vp, { iter with viewPointer := [] }) := by
  intro vp
  induction vp with
  | nil =>
      intro iter fuel raw empty _
      have atEnd : iter.atEnd = true := by simp [atEnd_of_raw raw, empty]
      have same : { iter with viewPointer := [] } = iter := by rw [← empty]
      cases fuel <;> simp [readToEnd, atEnd, same]
  | cons c rest ih =>
      intro iter fuel raw at_c enough
      obtain ⟨fuel, rfl⟩ : ∃ n, fuel = n + 1 := Nat.exists_eq_succ_of_ne_zero (by simp at enough; omega)
      have notEnd : iter.atEnd = false := by simp [atEnd_of_raw raw, at_c]
      rw [readToEnd, if_neg (by simp [notEnd]), octet_raw raw at_c]
      simp only [ih _ fuel (raw.with_viewPointer rest) rfl (by simpa using enough)]

/-- In the walk, `qd_iterator_remove_trailing_separator` drops the last octet
of the text if it is a separator. -/
theorem removeTrailingSeparator_raw (raw : iter.Raw) :
    qdIteratorRemoveTrailingSeparator iter =
      if iter.viewPointer.getLast?.getD 0 ∈ separators then
        { iter with viewPointer := iter.viewPointer.dropLast }
      else iter := by
  have read := readToEnd_raw iter.viewPointer iter iter.remaining raw rfl (by simp [remaining_of_raw raw])
  have zero : (0 : UInt8) ∉ separators := by decide
  simp only [qdIteratorRemoveTrailingSeparator, qdIteratorOctets, read]
  by_cases sep : iter.viewPointer.getLast?.getD 0 ∈ separators
  · have nonzero : iter.viewPointer.getLast?.getD 0 ≠ 0 := fun z => zero (z ▸ sep)
    simp [sep, nonzero]
  · simp [sep]

/-- An optional trailing `.` or `/` after a text that does not end in one is
removed, and nothing else is. -/
theorem removeTrailingSeparator_optional (raw : iter.Raw) {body t : List UInt8}
    (at_body : iter.viewPointer = body ++ t) (optional : t ∈ [[], [dot], [slash]])
    (clear : ∀ s ∈ body.getLast?, s ∉ separators) :
    qdIteratorRemoveTrailingSeparator iter = { iter with viewPointer := body } := by
  rw [removeTrailingSeparator_raw raw, at_body]
  simp only [List.mem_cons, List.not_mem_nil, or_false] at optional
  rcases optional with rfl | rfl | rfl
  · -- no separator was added: the text is left as it is
    have kept : body.getLast?.getD 0 ∉ separators := by
      cases last : body.getLast? with
      | none => decide
      | some s => exact clear s last
    rw [List.append_nil, if_neg kept, ← List.append_nil body, ← at_body]
  · simp [separators]
  · simp [separators]

/-- Whatever the last octet, a text that goes on past `pre` keeps `pre`. -/
theorem removeTrailingSeparator_keeps (raw : iter.Raw) {pre rest : List UInt8}
    (at_pre : iter.viewPointer = pre ++ rest) (nonempty : rest ≠ []) :
    ∃ rest', qdIteratorRemoveTrailingSeparator iter = { iter with viewPointer := pre ++ rest' } := by
  rw [removeTrailingSeparator_raw raw]
  split
  · exact ⟨rest.dropLast, by rw [at_pre, List.dropLast_append_of_ne_nil nonempty]⟩
  · exact ⟨rest, by rw [← at_pre]⟩

/-! ### The prefix tests of `parse_address_view` -/

/-- Two names free of slashes, each followed by a slash: one is a prefix of the
other exactly when they are equal. -/
theorem slash_prefix_iff {x rest : List UInt8} (hx : slash ∉ x) :
    ∀ {y : List UInt8}, slash ∉ y → (y ++ [slash] <+: x ++ slash :: rest ↔ x = y) := by
  induction x with
  | nil =>
      intro y hy
      cases y with
      | nil => simp
      | cons d y =>
          have notSlash : d ≠ slash := fun same => hy (same ▸ List.mem_cons_self)
          simp [List.cons_prefix_cons, notSlash]
  | cons c x ih =>
      intro y hy
      have cNotSlash : c ≠ slash := fun same => hx (same ▸ List.mem_cons_self)
      cases y with
      | nil => simp [List.cons_prefix_cons, Ne.symm cNotSlash]
      | cons d y =>
          have yNoSlash : slash ∉ y := fun inY => hy (List.mem_cons_of_mem d inY)
          rw [List.cons_append, List.cons_append, List.cons_prefix_cons,
            ih (fun inX => hx (List.mem_cons_of_mem c inX)) yNoSlash, List.cons.injEq, eq_comm (a := d)]

/-- The test for a name and a slash, on a component followed by a slash, reads
the component exactly when it is that name. -/
theorem qdIteratorPrefix_component (raw : iter.Raw) {x y rest : List UInt8}
    (at_x : iter.viewPointer = x ++ slash :: rest) (hx : slash ∉ x) (hy : slash ∉ y) (noZero : 0 ∉ y) :
    qdIteratorPrefix iter (y ++ [slash]) =
      if x = y then (true, { iter with viewPointer := rest }) else (false, iter) := by
  split
  · next same =>
      subst same
      exact qdIteratorPrefix_append raw (by rw [at_x, List.append_assoc, List.singleton_append])
  · next differ =>
      have zeroNotSlash : (0 : UInt8) ≠ slash := by decide
      exact qdIteratorPrefix_of_not_prefix raw (by simp [noZero, zeroNotSlash])
        (by rw [at_x, slash_prefix_iff hx hy]; exact differ)

/-- The test for a text whose first octet is not the next one says no. -/
theorem qdIteratorPrefix_of_head_ne (raw : iter.Raw) {c d : UInt8} {text rest : List UInt8}
    (at_d : iter.viewPointer = d :: rest) (noZero : 0 ∉ c :: text) (differ : c ≠ d) :
    qdIteratorPrefix iter (c :: text) = (false, iter) :=
  qdIteratorPrefix_of_not_prefix raw noZero
    (by rw [at_d, List.cons_prefix_cons]; exact fun both => differ both.1)

/-- `all`, the area or router of a `_topo` address that stands for every one. -/
def allName : List UInt8 := [97, 108, 108]

theorem allSlash_eq : allSlash = allName ++ [slash] := rfl

/-- `_local/l`. -/
def localAddress (l : List UInt8) : List UInt8 := underscore :: localSlash ++ l

/-- `_topo/a/r/l`. -/
def topoAddress (a r l : List UInt8) : List UInt8 := underscore :: topoSlash ++ a ++ slash :: r ++ slash :: l

/-- `_edge/r/l`. -/
def edgeAddress (r l : List UInt8) : List UInt8 := underscore :: edgeSlash ++ r ++ slash :: l

/-- What `parse_address_view` leaves for a class with a one-octet hash prefix:
the prefix, and the rest of the view read to its end or to the next slash. -/
def hashed (iter : QdIterator) (hashPrefix : UInt8) (mode : ParseMode) (rest : List UInt8) :
    QdIterator :=
  { iter with annotationLength := 1, viewPointer := rest, hashPrefix, state := .atPrefix, mode }

section Classes

/-! The classes of an interior router of area `A` and id `R`, on the walk's
iterator with no prefix override, in a view that shows the hash prefix. -/

variable {A R : List UInt8}

/-- `_local/l` is hashed as `L` and `l`. -/
theorem parseAddressView_local (raw : iter.Raw) (noOverride : iter.prefixOverride = 0)
    (hashView : iter.view ≠ .addressWithSpace) {l : List UInt8} (at_local : iter.viewPointer = localAddress l) :
    parseAddressView (qdIteratorSetAddress false A R) iter = iter.hashed prefixLocal .toEnd l := by
  simp only [parseAddressView, if_pos noOverride]
  set it₁ : QdIterator := { iter with annotationLength := 1 }
  have raw₁ : it₁.Raw := raw
  have view₁ : it₁.view ≠ .addressWithSpace := hashView
  have isUnderscore : qdIteratorPrefix it₁ [underscore] = (true, { it₁ with viewPointer := localSlash ++ l }) :=
    qdIteratorPrefix_append raw₁ at_local
  have isLocal : qdIteratorPrefix { it₁ with viewPointer := localSlash ++ l } localSlash =
      (true, { it₁ with viewPointer := l }) :=
    qdIteratorPrefix_append (raw₁.with_viewPointer _) rfl
  simp only [isUnderscore, view₁, isLocal, if_true, if_false]
  simp only [hashed, it₁, raw.2.1]

/-- `_topo/a/r/l`: by the area when `a` is neither this area nor `all`, else by
the router `r`, except `all` (`T`) and this router (`L`), which keep `l`. -/
theorem parseAddressView_topo (raw : iter.Raw) (noOverride : iter.prefixOverride = 0)
    (hashView : iter.view ≠ .addressWithSpace) (areaNoSlash : slash ∉ A) (areaNoZero : 0 ∉ A)
    (routerNoSlash : slash ∉ R) (routerNoZero : 0 ∉ R) {a r l : List UInt8} (ha : slash ∉ a) (hr : slash ∉ r)
    (at_topo : iter.viewPointer = topoAddress a r l) :
    parseAddressView (qdIteratorSetAddress false A R) iter =
      if a = allName ∨ a = A then
        if r = allName then iter.hashed prefixTopological .toEnd l
        else if r = R then iter.hashed prefixLocal .toEnd l
        else iter.hashed prefixRouter .toSlash (r ++ slash :: l)
      else iter.hashed prefixArea .toSlash (a ++ slash :: (r ++ slash :: l)) := by
  have allNoSlash : slash ∉ allName := by decide
  have allNoZero : (0 : UInt8) ∉ allName := by decide
  simp only [parseAddressView, if_pos noOverride]
  set it₁ : QdIterator := { iter with annotationLength := 1 }
  have raw₁ : it₁.Raw := raw
  have view₁ : it₁.view ≠ .addressWithSpace := hashView
  -- the tests read `_`, then `topo/`, then `a/` if it is `all/` or this area's
  have isUnderscore : qdIteratorPrefix it₁ [underscore] =
      (true, { it₁ with viewPointer := topoSlash ++ a ++ slash :: r ++ slash :: l }) :=
    qdIteratorPrefix_append raw₁ (by simp [it₁, at_topo, topoAddress])
  have notLocal : qdIteratorPrefix { it₁ with viewPointer := topoSlash ++ a ++ slash :: r ++ slash :: l }
      localSlash = (false, { it₁ with viewPointer := topoSlash ++ a ++ slash :: r ++ slash :: l }) :=
    qdIteratorPrefix_of_head_ne (raw₁.with_viewPointer _) rfl (by decide) (by decide)
  have isTopo : qdIteratorPrefix { it₁ with viewPointer := topoSlash ++ a ++ slash :: r ++ slash :: l }
      topoSlash = (true, { it₁ with viewPointer := a ++ slash :: (r ++ slash :: l) }) :=
    qdIteratorPrefix_append (raw₁.with_viewPointer _) (by simp)
  have testAll : qdIteratorPrefix { it₁ with viewPointer := a ++ slash :: (r ++ slash :: l) } allSlash =
      if a = allName then (true, { it₁ with viewPointer := r ++ slash :: l })
      else (false, { it₁ with viewPointer := a ++ slash :: (r ++ slash :: l) }) :=
    qdIteratorPrefix_component (raw₁.with_viewPointer _) rfl ha allNoSlash allNoZero
  have testArea : qdIteratorPrefix { it₁ with viewPointer := a ++ slash :: (r ++ slash :: l) } (A ++ [slash]) =
      if a = A then (true, { it₁ with viewPointer := r ++ slash :: l })
      else (false, { it₁ with viewPointer := a ++ slash :: (r ++ slash :: l) }) :=
    qdIteratorPrefix_component (raw₁.with_viewPointer _) rfl ha areaNoSlash areaNoZero
  have testAllAgain : qdIteratorPrefix { it₁ with viewPointer := r ++ slash :: l } allSlash =
      if r = allName then (true, { it₁ with viewPointer := l })
      else (false, { it₁ with viewPointer := r ++ slash :: l }) :=
    qdIteratorPrefix_component (raw₁.with_viewPointer _) rfl hr allNoSlash allNoZero
  have testRouter : qdIteratorPrefix { it₁ with viewPointer := r ++ slash :: l } (R ++ [slash]) =
      if r = R then (true, { it₁ with viewPointer := l })
      else (false, { it₁ with viewPointer := r ++ slash :: l }) :=
    qdIteratorPrefix_component (raw₁.with_viewPointer _) rfl hr routerNoSlash routerNoZero
  simp only [isUnderscore, view₁, notLocal, isTopo, qdIteratorSetAddress, if_true, if_false]
  -- each test's outcome is decided by one equation between names; every
  -- combination of the four is a path of the code
  rcases Classical.propComplete (a = allName) with allA | allA <;>
  rcases Classical.propComplete (a = A) with areaA | areaA <;>
  rcases Classical.propComplete (r = allName) with allR | allR <;>
  rcases Classical.propComplete (r = R) with ownR | ownR <;>
  simp only [testAll, testArea, testAllAgain, testRouter, allA, areaA, allR, ownR, if_true, if_false,
    or_true, or_false, Bool.false_eq_true] <;>
  simp only [hashed, it₁, raw.2.1]

/-- `_edge/r/l`: by the router `r`, except this router (`L`), which keeps `l`. -/
theorem parseAddressView_edge (raw : iter.Raw) (noOverride : iter.prefixOverride = 0)
    (hashView : iter.view ≠ .addressWithSpace) (routerNoSlash : slash ∉ R) (routerNoZero : 0 ∉ R)
    {r l : List UInt8} (hr : slash ∉ r) (at_edge : iter.viewPointer = edgeAddress r l) :
    parseAddressView (qdIteratorSetAddress false A R) iter =
      if r = R then iter.hashed prefixLocal .toEnd l else iter.hashed prefixEdgeSummary .toSlash (r ++ slash :: l) := by
  simp only [parseAddressView, if_pos noOverride]
  set it₁ : QdIterator := { iter with annotationLength := 1 }
  have raw₁ : it₁.Raw := raw
  have view₁ : it₁.view ≠ .addressWithSpace := hashView
  -- `_` is read, `local/` and `topo/` are not there, `edge/` is read
  have isUnderscore : qdIteratorPrefix it₁ [underscore] =
      (true, { it₁ with viewPointer := edgeSlash ++ r ++ slash :: l }) :=
    qdIteratorPrefix_append raw₁ (by simp [it₁, at_edge, edgeAddress])
  have notLocal : qdIteratorPrefix { it₁ with viewPointer := edgeSlash ++ r ++ slash :: l } localSlash =
      (false, { it₁ with viewPointer := edgeSlash ++ r ++ slash :: l }) :=
    qdIteratorPrefix_of_head_ne (raw₁.with_viewPointer _) rfl (by decide) (by decide)
  have notTopo : qdIteratorPrefix { it₁ with viewPointer := edgeSlash ++ r ++ slash :: l } topoSlash =
      (false, { it₁ with viewPointer := edgeSlash ++ r ++ slash :: l }) :=
    qdIteratorPrefix_of_head_ne (raw₁.with_viewPointer _) rfl (by decide) (by decide)
  have isEdge : qdIteratorPrefix { it₁ with viewPointer := edgeSlash ++ r ++ slash :: l } edgeSlash =
      (true, { it₁ with viewPointer := r ++ slash :: l }) :=
    qdIteratorPrefix_append (raw₁.with_viewPointer _) (by simp)
  have testRouter : qdIteratorPrefix { it₁ with viewPointer := r ++ slash :: l } (R ++ [slash]) =
      if r = R then (true, { it₁ with viewPointer := l })
      else (false, { it₁ with viewPointer := r ++ slash :: l }) :=
    qdIteratorPrefix_component (raw₁.with_viewPointer _) rfl hr routerNoSlash routerNoZero
  simp only [isUnderscore, view₁, notLocal, notTopo, isEdge, qdIteratorSetAddress, testRouter, if_true, if_false,
    Bool.false_eq_true]
  split <;> simp only [hashed, it₁, raw.2.1, if_true, if_false, Bool.false_eq_true]

/-- An address that does not start with `_` is mobile: the view is left where
it starts, with the prefix `M` and the phase. -/
theorem parseAddressView_mobile {config : AddressConfig} (raw : iter.Raw) (noOverride : iter.prefixOverride = 0)
    (notUnderscore : iter.viewPointer.head? ≠ some underscore) :
    parseAddressView config iter = mobileView { iter with annotationLength := 1 } := by
  simp only [parseAddressView, if_pos noOverride]
  set it₁ : QdIterator := { iter with annotationLength := 1 }
  have raw₁ : it₁.Raw := raw
  have notPrefix : ¬ [underscore] <+: it₁.viewPointer := by
    rw [List.singleton_prefix_iff_head?_eq_some]
    exact notUnderscore
  have noUnderscore : qdIteratorPrefix it₁ [underscore] = (false, it₁) :=
    qdIteratorPrefix_of_not_prefix raw₁ (by decide) notPrefix
  simp only [noUnderscore, Bool.false_eq_true, if_false]

/-- A node id `a/r` is hashed as the router `r` in this area, and by its area
`a` in any other. -/
theorem parseNodeView_component (raw : iter.Raw) (areaNoSlash : slash ∉ A) (areaNoZero : 0 ∉ A)
    {a r : List UInt8} (ha : slash ∉ a) (at_node : iter.viewPointer = a ++ slash :: r) :
    parseNodeView (qdIteratorSetAddress false A R) iter =
      if a = A then iter.hashed prefixRouter .toEnd r else iter.hashed prefixArea .toSlash (a ++ slash :: r) := by
  simp only [parseNodeView]
  set it₁ : QdIterator := { iter with annotationLength := 1 }
  have raw₁ : it₁.Raw := raw
  have testArea : qdIteratorPrefix it₁ (A ++ [slash]) =
      if a = A then (true, { it₁ with viewPointer := r }) else (false, it₁) :=
    qdIteratorPrefix_component raw₁ at_node ha areaNoSlash areaNoZero
  simp only [qdIteratorSetAddress, testArea]
  by_cases inArea : a = A
  · simp only [if_pos inArea, ↓reduceIte, hashed, it₁]
  · simp only [if_neg inArea, Bool.false_eq_true, if_false, hashed, it₁, at_node]

end Classes

end QdIterator

end DispatchRouter.Iterator
