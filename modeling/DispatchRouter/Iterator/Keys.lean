/-
# The hash keys of addresses

`qd_iterator_string` in the address-hash view walks an address past its scheme
and host, drops one trailing separator and lets `parse_address_view` choose the
hash prefix; the key is then what `qd_iterator_octet` reads from the reset
view: the prefix, the phase of a mobile address, and the body read to its end
or to the next slash. This module reads those views and assembles the keys of
the address classes on an interior router, and the key of a router's node id.
-/

import DispatchRouter.Iterator.Address

namespace DispatchRouter.Iterator

open QdIterator

/-- The octets hashed for an address: its address-hash view after
`qd_iterator_annotate_phase`. -/
def addressHashKey (config : AddressConfig) (text : List UInt8) (phase : UInt8) : List UInt8 :=
  viewOctets (qdIteratorAnnotatePhase (qdIteratorString config text .addressHash) phase)

/-- The octets hashed for a router's node id: its node-hash view. -/
def nodeHashKey (config : AddressConfig) (text : List UInt8) : List UInt8 :=
  viewOctets (qdIteratorString config text .nodeHash)

/-! ### Reading a view with a hash prefix -/

section Reading

/-- A view past its annotations: in the body, from the start of the view. -/
def QdIterator.body (J : QdIterator) : QdIterator :=
  { J with viewPointer := J.viewStartPointer, annotationRemaining := 0, state := .inBody, spaceCursor := 0 }

/-- Reset, a view with a one-octet prefix is at its prefix. -/
theorem qdIteratorReset_prefixed {J : QdIterator} (hashView : J.view ≠ .addressWithSpace) (nonzero : J.hashPrefix ≠ 0) :
    qdIteratorReset J =
      { J with viewPointer := J.viewStartPointer, annotationRemaining := J.annotationLength, state := .atPrefix } := by
  simp [qdIteratorReset, hashView, nonzero]

/-- A body read to the next slash gives the octets before it. -/
theorem readToEnd_toSlash {rest : List UInt8} :
    ∀ (x : List UInt8) (J : QdIterator) (fuel : Nat), J.state = .inBody → J.mode = .toSlash →
      J.annotationRemaining = 0 → J.viewPointer = x ++ slash :: rest → x ≠ [] → slash ∉ x → x.length ≤ fuel →
      (readToEnd fuel J).1 = x := by
  intro x
  induction x with
  | nil => intro _ _ _ _ _ _ nonempty; exact absurd rfl nonempty
  | cons c x ih =>
      intro J fuel inBody toSlash noAnnotation at_c _ noSlash enough
      obtain ⟨fuel, rfl⟩ : ∃ n, fuel = n + 1 := Nat.exists_eq_succ_of_ne_zero (by simp at enough; omega)
      have notEnd : J.atEnd = false := by simp [atEnd, remaining, noAnnotation, at_c]
      have xNoSlash : slash ∉ x := fun inX => noSlash (List.mem_cons_of_mem c inX)
      cases x with
      | nil =>
          -- the slash is next: the view ends here
          cases fuel <;> simp [readToEnd, atEnd, remaining, noAnnotation, qdIteratorOctet, inBody, toSlash, at_c]
      | cons d x =>
          have dNotSlash : d ≠ slash := fun same => xNoSlash (same ▸ List.mem_cons_self)
          have step : qdIteratorOctet J = (c, { J with viewPointer := d :: x ++ slash :: rest }) := by
            simp [qdIteratorOctet, inBody, toSlash, at_c, dNotSlash]
          rw [readToEnd, if_neg (by simp [notEnd]), step]
          exact congrArg (c :: ·) (ih _ fuel inBody toSlash noAnnotation rfl (List.cons_ne_nil d x) xNoSlash
            (by simpa using enough))

/-- The view of a class with a one-octet prefix other than `M`: the prefix,
then the body from the start of the view. -/
theorem viewOctets_prefixed {J : QdIterator} (hashView : J.view ≠ .addressWithSpace) (nonzero : J.hashPrefix ≠ 0)
    (notMobile : J.hashPrefix ≠ prefixMobile) (one : J.annotationLength = 1) (noSpace : J.viewSpace = false) :
    viewOctets J = J.hashPrefix :: (readToEnd J.viewStartPointer.length J.body).1 := by
  have fuel : (qdIteratorReset J).remaining = J.viewStartPointer.length + 1 := by
    simp [qdIteratorReset_prefixed hashView nonzero, remaining, one, Nat.add_comm]
  -- the prefix is read, and with no space to show the body comes next
  rw [viewOctets, qdIteratorOctets, fuel, qdIteratorReset_prefixed hashView nonzero]
  simp [readToEnd, atEnd, remaining, one, qdIteratorOctet, notMobile, afterAnnotation, noSpace, QdIterator.body]

/-- The view of a class read to its end: the prefix and the body. -/
theorem viewOctets_toEnd {J : QdIterator} (hashView : J.view ≠ .addressWithSpace) (nonzero : J.hashPrefix ≠ 0)
    (notMobile : J.hashPrefix ≠ prefixMobile) (one : J.annotationLength = 1) (toEnd : J.mode = .toEnd)
    (noSpace : J.viewSpace = false) :
    viewOctets J = J.hashPrefix :: J.viewStartPointer := by
  rw [viewOctets_prefixed hashView nonzero notMobile one noSpace,
    readToEnd_raw J.viewStartPointer J.body _ ⟨rfl, toEnd, rfl⟩ rfl (Nat.le_refl _)]

/-- The view of a class read to the next slash: the prefix and the first name. -/
theorem viewOctets_toSlash {J : QdIterator} (hashView : J.view ≠ .addressWithSpace) (nonzero : J.hashPrefix ≠ 0)
    (notMobile : J.hashPrefix ≠ prefixMobile) (one : J.annotationLength = 1) (toSlash : J.mode = .toSlash)
    (noSpace : J.viewSpace = false) {x rest : List UInt8} (at_x : J.viewStartPointer = x ++ slash :: rest)
    (nonempty : x ≠ []) (noSlash : slash ∉ x) :
    viewOctets J = J.hashPrefix :: x := by
  rw [viewOctets_prefixed hashView nonzero notMobile one noSpace,
    readToEnd_toSlash x J.body _ rfl toSlash rfl at_x nonempty noSlash (by simp [at_x])]

/-- The view of a mobile address with no space: `M`, the phase, the body. -/
theorem viewOctets_mobile {J : QdIterator} (hashView : J.view ≠ .addressWithSpace)
    (mobile : J.hashPrefix = prefixMobile) (two : J.annotationLength = 2) (toEnd : J.mode = .toEnd)
    (noSpace : J.space = none) :
    viewOctets J = prefixMobile :: J.phase :: J.viewStartPointer := by
  have nonzero : J.hashPrefix ≠ 0 := by rw [mobile]; decide
  have fuel : (qdIteratorReset J).remaining = J.viewStartPointer.length + 2 := by
    simp [qdIteratorReset_prefixed hashView nonzero, remaining, two, Nat.add_comm]
  -- `M` and the phase are read, and with no space the body comes next
  have read : (readToEnd (J.viewStartPointer.length + 2) (qdIteratorReset J)).1 =
      prefixMobile :: J.phase :: (readToEnd J.viewStartPointer.length J.body).1 := by
    rw [qdIteratorReset_prefixed hashView nonzero]
    simp [readToEnd, atEnd, remaining, two, qdIteratorOctet, mobile, afterAnnotation, noSpace, QdIterator.body]
  rw [viewOctets, qdIteratorOctets, fuel, read,
    readToEnd_raw J.viewStartPointer J.body _ ⟨rfl, toEnd, rfl⟩ rfl (Nat.le_refl _)]

end Reading

/-! ### The walk of an address -/

/-- The iterator `view_initialize` walks: the text, in its body, nothing
annotated. -/
def walkStart (text : List UInt8) (view : IteratorView) : QdIterator :=
  { startPointer := text, viewStartPointer := [], viewPointer := text, view, annotationLength := 0,
    annotationRemaining := 0, mode := .toEnd, state := .inBody, hashPrefix := 0, prefixOverride := 0, phase := 48,
    space := none, spaceCursor := 0, viewSpace := false }

theorem walkStart_raw (text : List UInt8) (view : IteratorView) : (walkStart text view).Raw :=
  ⟨rfl, rfl, rfl⟩

/-- The prefixes an address may carry: nothing, `amqp:/`, or `amqp://` and a
host, with its port, that has no slash. -/
def Scheme.Valid : Scheme → Prop
  | .amqpHost host => slash ∉ host
  | _ => True

theorem Scheme.valid_relative : Scheme.relative.Valid := trivial

/-- A valid scheme fits a non-empty address with no colon that does not start
with a slash. -/
theorem Scheme.fits_of_valid {scheme : Scheme} (valid : scheme.Valid) {body : List UInt8} (nonempty : body ≠ [])
    (head : body.head? ≠ some slash) (noColon : colon ∉ body) : scheme.Fits body := by
  cases scheme with
  | relative => exact ⟨nonempty, head, noColon⟩
  | amqp => exact ⟨nonempty, head⟩
  | amqpHost host => exact valid

/-- The optional trailing separator has no colon. -/
theorem colon_not_mem_of_optional {t : List UInt8} (optional : t ∈ [[], [dot], [slash]]) : colon ∉ t := by
  simp only [List.mem_cons, List.not_mem_nil, or_false] at optional
  rcases optional with rfl | rfl | rfl <;> decide

theorem getLast?_append_of_ne_nil' {pre body : List UInt8} (nonempty : body ≠ []) :
    (pre ++ body).getLast? = body.getLast? := by
  obtain ⟨last, is_last⟩ := Option.ne_none_iff_exists'.mp (mt List.getLast?_eq_none_iff.mp nonempty)
  simp [List.getLast?_append, is_last]

/-- The walk's iterator is already as `view_initialize` sets it. -/
theorem walkStart_settled (text : List UInt8) (view : IteratorView) :
    { walkStart text view with
      state := .inBody, hashPrefix := 0, mode := .toEnd, annotationLength := 0, annotationRemaining := 0,
      viewSpace := false } = walkStart text view := rfl

@[simp]
theorem walkStart_view (text : List UInt8) (view : IteratorView) : (walkStart text view).view = view := rfl

/-- `qd_iterator_string` sets its view up from the walk's iterator. -/
theorem qdIteratorString_eq (config : AddressConfig) (text : List UInt8) (view : IteratorView) :
    qdIteratorString config text view =
      let it := viewInitialize config (walkStart text view)
      { it with viewStartPointer := it.viewPointer, annotationRemaining := it.annotationLength } := rfl

/-- The walk stops at the address after the scheme. -/
theorem advanceToNodeId_walkStart {scheme : Scheme} {body : List UInt8} (fits : scheme.Fits body)
    (view : IteratorView) :
    advanceToNodeId (walkStart (scheme.text ++ body) view) =
      { walkStart (scheme.text ++ body) view with viewPointer := body } :=
  advanceToNodeId_text (walkStart_raw _ view) rfl rfl fits

/-- `qd_iterator_string` in a view of an address: the walk, the trailing
separator, the classes, and for the view with a space its adjustment. -/
theorem qdIteratorString_of_parsed {config : AddressConfig} {scheme : Scheme} {body : List UInt8}
    (fits : scheme.Fits body) {view : IteratorView} (notAll : view ≠ .all) (notNode : view ≠ .nodeHash)
    (notNoHost : view ≠ .addressNoHost) {trimmed : QdIterator}
    (trim : qdIteratorRemoveTrailingSeparator { walkStart (scheme.text ++ body) view with viewPointer := body } =
      trimmed)
    {result : QdIterator} (parsed : parseAddressView config trimmed = result) :
    qdIteratorString config (scheme.text ++ body) view =
      let it := if result.view = .addressWithSpace then adjustAddressWithSpace result else result
      { it with viewStartPointer := it.viewPointer, annotationRemaining := it.annotationLength } := by
  rw [qdIteratorString_eq]
  -- unfolded, `view_initialize` starts from the walk's iterator itself; the
  -- view is read only once the walk, the trim and the classes are rewritten
  simp only [viewInitialize]
  simp only [walkStart_settled]
  simp only [advanceToNodeId_walkStart fits, trim, parsed]
  simp only [walkStart_view, notAll, notNode, notNoHost, if_false]

/-- An address-hash key is read from what `parse_address_view` leaves of the
walked address without its trailing separator. -/
theorem addressHashKey_of_parsed {config : AddressConfig} {scheme : Scheme} {body : List UInt8}
    (fits : scheme.Fits body) {trimmed : QdIterator}
    (trim : qdIteratorRemoveTrailingSeparator { walkStart (scheme.text ++ body) .addressHash with viewPointer := body } =
      trimmed)
    {result : QdIterator} (parsed : parseAddressView config trimmed = result)
    (hashView : result.view ≠ .addressWithSpace) (phase : UInt8) :
    addressHashKey config (scheme.text ++ body) phase =
      viewOctets { result with
        viewStartPointer := result.viewPointer, annotationRemaining := result.annotationLength, phase } := by
  rw [addressHashKey, qdIteratorString_of_parsed fits (by decide) (by decide) (by decide) trim parsed]
  simp only [if_neg hashView]
  rfl

/-- The key of a class read to its end: the prefix and the rest of the address. -/
theorem addressHashKey_toEnd {config : AddressConfig} {scheme : Scheme} {body : List UInt8}
    (fits : scheme.Fits body) {trimmed : QdIterator}
    (trim : qdIteratorRemoveTrailingSeparator { walkStart (scheme.text ++ body) .addressHash with viewPointer := body } =
      trimmed)
    {P : UInt8} {rest : List UInt8}
    (parsed : parseAddressView config trimmed = (walkStart (scheme.text ++ body) .addressHash).hashed P .toEnd rest)
    (nonzero : P ≠ 0) (notMobile : P ≠ prefixMobile) (phase : UInt8) :
    addressHashKey config (scheme.text ++ body) phase = P :: rest := by
  rw [addressHashKey_of_parsed fits trim parsed (by simp [hashed]) phase]
  exact viewOctets_toEnd (by simp [hashed]) nonzero notMobile rfl rfl rfl

/-- The key of a class read to the next slash: the prefix and the first name. -/
theorem addressHashKey_toSlash {config : AddressConfig} {scheme : Scheme} {body : List UInt8}
    (fits : scheme.Fits body) {trimmed : QdIterator}
    (trim : qdIteratorRemoveTrailingSeparator { walkStart (scheme.text ++ body) .addressHash with viewPointer := body } =
      trimmed)
    {P : UInt8} {x rest : List UInt8}
    (parsed : parseAddressView config trimmed =
      (walkStart (scheme.text ++ body) .addressHash).hashed P .toSlash (x ++ slash :: rest))
    (nonzero : P ≠ 0) (notMobile : P ≠ prefixMobile) (nonempty : x ≠ []) (noSlash : slash ∉ x) (phase : UInt8) :
    addressHashKey config (scheme.text ++ body) phase = P :: x := by
  rw [addressHashKey_of_parsed fits trim parsed (by simp [hashed]) phase]
  exact viewOctets_toSlash (by simp [hashed]) nonzero notMobile rfl rfl rfl rfl nonempty noSlash

/-! ### The keys of the address classes on an interior router -/

/-- A part of an address: not empty, with no colon. -/
structure AddressPart (x : List UInt8) : Prop where
  nonempty : x ≠ []
  noColon : colon ∉ x

/-- An area or router named in an address: a part with no slash. -/
structure AddressName (x : List UInt8) : Prop extends AddressPart x where
  noSlash : slash ∉ x

/-- A text that does not end in `.` or `/`. -/
def NoTrailingSeparator (x : List UInt8) : Prop :=
  ∀ s ∈ x.getLast?, s ∉ separators

/-- The area or id the router is configured with: a C string with no colon
and no slash. -/
structure RouterName (x : List UInt8) : Prop where
  noColon : colon ∉ x
  noSlash : slash ∉ x
  noZero : 0 ∉ x

theorem localAddress_append (l t : List UInt8) :
    localAddress l ++ t = underscore :: (localSlash ++ l ++ t) := by
  simp [localAddress]

theorem topoAddress_append (a r l t : List UInt8) :
    topoAddress a r l ++ t = underscore :: (topoSlash ++ a ++ slash :: r ++ slash :: l ++ t) := by
  simp [topoAddress]

theorem edgeAddress_append (r l t : List UInt8) :
    edgeAddress r l ++ t = underscore :: (edgeSlash ++ r ++ slash :: l ++ t) := by
  simp [edgeAddress]

theorem getLast?_topoAddress (a r : List UInt8) {l : List UInt8} (nonempty : l ≠ []) :
    (topoAddress a r l).getLast? = l.getLast? := by
  rw [show topoAddress a r l = (underscore :: topoSlash ++ a ++ slash :: r ++ [slash]) ++ l by simp [topoAddress]]
  exact getLast?_append_of_ne_nil' nonempty

theorem getLast?_edgeAddress (r : List UInt8) {l : List UInt8} (nonempty : l ≠ []) :
    (edgeAddress r l).getLast? = l.getLast? := by
  rw [show edgeAddress r l = (underscore :: edgeSlash ++ r ++ [slash]) ++ l by simp [edgeAddress]]
  exact getLast?_append_of_ne_nil' nonempty

/-- An address that starts with `_` and has no colon fits a valid scheme. -/
theorem Scheme.fits_underscore {scheme : Scheme} (valid : scheme.Valid) {rest : List UInt8}
    (noColon : colon ∉ rest) : scheme.Fits (underscore :: rest) :=
  scheme.fits_of_valid valid (List.cons_ne_nil _ _) (by simp [underscore, slash])
    (by simp only [List.mem_cons, not_or]; exact ⟨by decide, noColon⟩)

/-- The walk keeps `_topo/a/r/` of a `_topo` address with a local part. -/
theorem removeTrailingSeparator_topoAddress {iter : QdIterator} (raw : iter.Raw) {a r l t : List UInt8}
    (at_topo : iter.viewPointer = topoAddress a r l ++ t) (nonempty : l ≠ []) :
    ∃ l', qdIteratorRemoveTrailingSeparator iter = { iter with viewPointer := topoAddress a r l' } := by
  have split : topoAddress a r l ++ t = (underscore :: topoSlash ++ a ++ slash :: r ++ [slash]) ++ (l ++ t) := by
    simp [topoAddress]
  obtain ⟨l', trimmed⟩ := removeTrailingSeparator_keeps raw (at_topo.trans split) (by simp [nonempty])
  exact ⟨l', trimmed.trans (by simp [topoAddress])⟩

/-- The walk keeps `_edge/r/` of an `_edge` address with a local part. -/
theorem removeTrailingSeparator_edgeAddress {iter : QdIterator} (raw : iter.Raw) {r l t : List UInt8}
    (at_edge : iter.viewPointer = edgeAddress r l ++ t) (nonempty : l ≠ []) :
    ∃ l', qdIteratorRemoveTrailingSeparator iter = { iter with viewPointer := edgeAddress r l' } := by
  have split : edgeAddress r l ++ t = (underscore :: edgeSlash ++ r ++ [slash]) ++ (l ++ t) := by
    simp [edgeAddress]
  obtain ⟨l', trimmed⟩ := removeTrailingSeparator_keeps raw (at_edge.trans split) (by simp [nonempty])
  exact ⟨l', trimmed.trans (by simp [edgeAddress])⟩

section Classes

variable {A R : List UInt8} {scheme : Scheme} {t : List UInt8}

/-- `_local/l`: `L` and `l`. -/
theorem addressHashKey_local (valid : scheme.Valid) (optional : t ∈ [[], [dot], [slash]]) {l : List UInt8}
    (hl : AddressPart l) (clear : NoTrailingSeparator l) (phase : UInt8) :
    addressHashKey (qdIteratorSetAddress false A R) (scheme.text ++ localAddress l ++ t) phase =
      prefixLocal :: l := by
  have localNoColon : colon ∉ localSlash := by decide
  have fits : scheme.Fits (localAddress l ++ t) := by
    rw [localAddress_append]
    exact Scheme.fits_underscore valid (by simp [localNoColon, hl.noColon, colon_not_mem_of_optional optional])
  have trim := removeTrailingSeparator_optional
    ((walkStart_raw (scheme.text ++ (localAddress l ++ t)) .addressHash).with_viewPointer (localAddress l ++ t))
    rfl optional (by rw [localAddress, getLast?_append_of_ne_nil' hl.nonempty]; exact clear)
  rw [List.append_assoc]
  exact addressHashKey_toEnd fits trim
    (parseAddressView_local ((walkStart_raw _ _).with_viewPointer _) rfl (by simp) rfl) (by decide) (by decide) phase

/-- A `_topo` address with names and a local part fits a valid scheme. -/
theorem fits_topoAddress (valid : scheme.Valid) (optional : t ∈ [[], [dot], [slash]]) {a r l : List UInt8}
    (aNoColon : colon ∉ a) (rNoColon : colon ∉ r) (lNoColon : colon ∉ l) :
    scheme.Fits (topoAddress a r l ++ t) := by
  have topoNoColon : colon ∉ topoSlash := by decide
  have colonNotSlash : colon ≠ slash := by decide
  rw [topoAddress_append]
  exact Scheme.fits_underscore valid
    (by simp [topoNoColon, colonNotSlash, aNoColon, rNoColon, lNoColon, colon_not_mem_of_optional optional])

/-- `_topo/a/r/l` with `a` neither this area nor `all`: `A` and `a`. -/
theorem addressHashKey_topo_area (valid : scheme.Valid) (optional : t ∈ [[], [dot], [slash]])
    (area : RouterName A) (router : RouterName R) {a r l : List UInt8} (ha : AddressName a) (hr : AddressName r)
    (hl : AddressPart l) (notAll : a ≠ allName) (notArea : a ≠ A) (phase : UInt8) :
    addressHashKey (qdIteratorSetAddress false A R) (scheme.text ++ topoAddress a r l ++ t) phase =
      prefixArea :: a := by
  have fits := fits_topoAddress valid optional ha.noColon hr.noColon hl.noColon
  have raw := walkStart_raw (scheme.text ++ (topoAddress a r l ++ t)) .addressHash
  obtain ⟨l', trim⟩ := removeTrailingSeparator_topoAddress (raw.with_viewPointer (topoAddress a r l ++ t)) rfl
    hl.nonempty
  have parsed := parseAddressView_topo (raw.with_viewPointer (topoAddress a r l')) rfl
    (by simp) area.noSlash area.noZero router.noSlash router.noZero ha.noSlash hr.noSlash rfl
  rw [if_neg (by simp [notAll, notArea])] at parsed
  rw [List.append_assoc]
  exact addressHashKey_toSlash fits trim parsed (by decide) (by decide) ha.nonempty ha.noSlash phase

/-- `_topo/a/r/l` with `a` this area or `all`, and `r` neither this router nor
`all`: `R` and `r`. -/
theorem addressHashKey_topo_router (valid : scheme.Valid) (optional : t ∈ [[], [dot], [slash]])
    (area : RouterName A) (router : RouterName R) {a r l : List UInt8} (aNoColon : colon ∉ a) (aNoSlash : slash ∉ a)
    (hr : AddressName r) (hl : AddressPart l) (matched : a = allName ∨ a = A) (notAll : r ≠ allName)
    (notRouter : r ≠ R) (phase : UInt8) :
    addressHashKey (qdIteratorSetAddress false A R) (scheme.text ++ topoAddress a r l ++ t) phase =
      prefixRouter :: r := by
  have fits := fits_topoAddress valid optional aNoColon hr.noColon hl.noColon
  have raw := walkStart_raw (scheme.text ++ (topoAddress a r l ++ t)) .addressHash
  obtain ⟨l', trim⟩ := removeTrailingSeparator_topoAddress (raw.with_viewPointer (topoAddress a r l ++ t)) rfl
    hl.nonempty
  have parsed := parseAddressView_topo (raw.with_viewPointer (topoAddress a r l')) rfl
    (by simp) area.noSlash area.noZero router.noSlash router.noZero aNoSlash hr.noSlash rfl
  rw [if_pos matched, if_neg notAll, if_neg notRouter] at parsed
  rw [List.append_assoc]
  exact addressHashKey_toSlash fits trim parsed (by decide) (by decide) hr.nonempty hr.noSlash phase

/-- `_topo/a/R/l` with `a` this area or `all`: `L` and `l`. -/
theorem addressHashKey_topo_own (valid : scheme.Valid) (optional : t ∈ [[], [dot], [slash]])
    (area : RouterName A) (router : RouterName R) (routerNotAll : R ≠ allName) {a l : List UInt8}
    (aNoColon : colon ∉ a) (aNoSlash : slash ∉ a) (hl : AddressPart l) (clear : NoTrailingSeparator l)
    (matched : a = allName ∨ a = A) (phase : UInt8) :
    addressHashKey (qdIteratorSetAddress false A R) (scheme.text ++ topoAddress a R l ++ t) phase =
      prefixLocal :: l := by
  have fits := fits_topoAddress valid optional aNoColon router.noColon hl.noColon
  have raw := walkStart_raw (scheme.text ++ (topoAddress a R l ++ t)) .addressHash
  have trim := removeTrailingSeparator_optional (raw.with_viewPointer (topoAddress a R l ++ t)) rfl optional
    (by rw [getLast?_topoAddress a R hl.nonempty]; exact clear)
  have parsed := parseAddressView_topo (raw.with_viewPointer (topoAddress a R l)) rfl
    (by simp) area.noSlash area.noZero router.noSlash router.noZero aNoSlash router.noSlash rfl
  rw [if_pos matched, if_neg routerNotAll, if_pos rfl] at parsed
  rw [List.append_assoc]
  exact addressHashKey_toEnd fits trim parsed (by decide) (by decide) phase

/-- `_topo/a/all/l` with `a` this area or `all`: `T` and `l`. -/
theorem addressHashKey_topo_all (valid : scheme.Valid) (optional : t ∈ [[], [dot], [slash]])
    (area : RouterName A) (router : RouterName R) {a l : List UInt8} (aNoColon : colon ∉ a) (aNoSlash : slash ∉ a)
    (hl : AddressPart l) (clear : NoTrailingSeparator l) (matched : a = allName ∨ a = A)
    (phase : UInt8) :
    addressHashKey (qdIteratorSetAddress false A R) (scheme.text ++ topoAddress a allName l ++ t) phase =
      prefixTopological :: l := by
  have fits : scheme.Fits (topoAddress a allName l ++ t) :=
    fits_topoAddress valid optional aNoColon (by decide) hl.noColon
  have raw := walkStart_raw (scheme.text ++ (topoAddress a allName l ++ t)) .addressHash
  have trim := removeTrailingSeparator_optional (raw.with_viewPointer (topoAddress a allName l ++ t)) rfl optional
    (by rw [getLast?_topoAddress a allName hl.nonempty]; exact clear)
  have parsed := parseAddressView_topo (raw.with_viewPointer (topoAddress a allName l)) rfl
    (by simp) area.noSlash area.noZero router.noSlash router.noZero aNoSlash (by decide) rfl
  rw [if_pos matched, if_pos rfl] at parsed
  rw [List.append_assoc]
  exact addressHashKey_toEnd fits trim parsed (by decide) (by decide) phase

/-- An `_edge` address with a name and a local part fits a valid scheme. -/
theorem fits_edgeAddress (valid : scheme.Valid) (optional : t ∈ [[], [dot], [slash]]) {r l : List UInt8}
    (rNoColon : colon ∉ r) (lNoColon : colon ∉ l) :
    scheme.Fits (edgeAddress r l ++ t) := by
  have edgeNoColon : colon ∉ edgeSlash := by decide
  have colonNotSlash : colon ≠ slash := by decide
  rw [edgeAddress_append]
  exact Scheme.fits_underscore valid
    (by simp [edgeNoColon, colonNotSlash, rNoColon, lNoColon, colon_not_mem_of_optional optional])

/-- `_edge/r/l` with `r` not this router: `H` and `r`. -/
theorem addressHashKey_edge_router (valid : scheme.Valid) (optional : t ∈ [[], [dot], [slash]])
    (router : RouterName R) {r l : List UInt8} (hr : AddressName r) (hl : AddressPart l) (notRouter : r ≠ R)
    (phase : UInt8) :
    addressHashKey (qdIteratorSetAddress false A R) (scheme.text ++ edgeAddress r l ++ t) phase =
      prefixEdgeSummary :: r := by
  have fits := fits_edgeAddress valid optional hr.noColon hl.noColon
  have raw := walkStart_raw (scheme.text ++ (edgeAddress r l ++ t)) .addressHash
  obtain ⟨l', trim⟩ := removeTrailingSeparator_edgeAddress (raw.with_viewPointer (edgeAddress r l ++ t)) rfl
    hl.nonempty
  have parsed : parseAddressView (qdIteratorSetAddress false A R) _ = _ :=
    parseAddressView_edge (raw.with_viewPointer (edgeAddress r l')) rfl (by simp) router.noSlash router.noZero
      hr.noSlash rfl
  rw [if_neg notRouter] at parsed
  rw [List.append_assoc]
  exact addressHashKey_toSlash fits trim parsed (by decide) (by decide) hr.nonempty hr.noSlash phase

/-- `_edge/R/l`: `L` and `l`. -/
theorem addressHashKey_edge_own (valid : scheme.Valid) (optional : t ∈ [[], [dot], [slash]])
    (router : RouterName R) {l : List UInt8} (hl : AddressPart l) (clear : NoTrailingSeparator l)
    (phase : UInt8) :
    addressHashKey (qdIteratorSetAddress false A R) (scheme.text ++ edgeAddress R l ++ t) phase =
      prefixLocal :: l := by
  have fits := fits_edgeAddress valid optional router.noColon hl.noColon
  have raw := walkStart_raw (scheme.text ++ (edgeAddress R l ++ t)) .addressHash
  have trim := removeTrailingSeparator_optional (raw.with_viewPointer (edgeAddress R l ++ t)) rfl optional
    (by rw [getLast?_edgeAddress R hl.nonempty]; exact clear)
  have parsed : parseAddressView (qdIteratorSetAddress false A R) _ = _ :=
    parseAddressView_edge (raw.with_viewPointer (edgeAddress R l)) rfl (by simp) router.noSlash router.noZero
      router.noSlash rfl
  rw [if_pos rfl] at parsed
  rw [List.append_assoc]
  exact addressHashKey_toEnd fits trim parsed (by decide) (by decide) phase

/-- A mobile address fits a valid scheme. -/
theorem fits_mobile (valid : scheme.Valid) (optional : t ∈ [[], [dot], [slash]]) {m : List UInt8}
    (hm : AddressPart m) (notSlash : m.head? ≠ some slash) : scheme.Fits (m ++ t) := by
  obtain ⟨c, rest, rfl⟩ := List.exists_cons_of_ne_nil hm.nonempty
  exact scheme.fits_of_valid valid (List.cons_ne_nil _ _) notSlash
    (by simp only [List.mem_append, not_or]; exact ⟨hm.noColon, colon_not_mem_of_optional optional⟩)

/-- Walked and past the classes, a mobile address is left at its start, with
the prefix `M`. -/
theorem parseAddressView_walked_mobile {config : AddressConfig} (optional : t ∈ [[], [dot], [slash]])
    {m : List UInt8} (notUnderscore : m.head? ≠ some underscore) (clear : NoTrailingSeparator m)
    (text : List UInt8) (view : IteratorView) :
    parseAddressView config (qdIteratorRemoveTrailingSeparator { walkStart text view with viewPointer := m ++ t }) =
      mobileView { walkStart text view with viewPointer := m, annotationLength := 1 } := by
  have raw := walkStart_raw text view
  rw [removeTrailingSeparator_optional (raw.with_viewPointer (m ++ t)) rfl optional clear]
  exact parseAddressView_mobile (raw.with_viewPointer m) rfl notUnderscore

/-- A mobile address `m`: `M`, the phase and `m`. -/
theorem addressHashKey_mobile {config : AddressConfig} (valid : scheme.Valid) (optional : t ∈ [[], [dot], [slash]])
    {m : List UInt8} (hm : AddressPart m) (notSlash : m.head? ≠ some slash) (notUnderscore : m.head? ≠ some underscore)
    (clear : NoTrailingSeparator m) (phase : UInt8) :
    addressHashKey config (scheme.text ++ m ++ t) phase = prefixMobile :: phase :: m := by
  rw [List.append_assoc, addressHashKey_of_parsed (fits_mobile valid optional hm notSlash) rfl
    (parseAddressView_walked_mobile optional notUnderscore clear _ _) (by simp [mobileView]) phase]
  exact viewOctets_mobile (by simp [mobileView]) (by simp [mobileView, walkStart]) rfl rfl rfl

end Classes

/-! ### Node ids -/

/-- A node-hash key is read from what `parse_node_view` leaves of the node id. -/
theorem nodeHashKey_of_parsed {config : AddressConfig} {text : List UInt8} {result : QdIterator}
    (parsed : parseNodeView config (walkStart text .nodeHash) = result) :
    nodeHashKey config text =
      viewOctets { result with viewStartPointer := result.viewPointer, annotationRemaining := result.annotationLength } := by
  rw [nodeHashKey, qdIteratorString_eq]
  simp only [viewInitialize]
  simp only [walkStart_settled]
  simp only [parsed]
  simp only [walkStart_view, reduceCtorEq, ↓reduceIte]

section Nodes

variable {A R : List UInt8}

/-- A router of this area: `R` and its id. -/
theorem nodeHashKey_in_area (area : RouterName A) {r : List UInt8} :
    nodeHashKey (qdIteratorSetAddress false A R) (A ++ slash :: r) = prefixRouter :: r := by
  have parsed : parseNodeView (qdIteratorSetAddress false A R) _ = _ :=
    parseNodeView_component (walkStart_raw (A ++ slash :: r) .nodeHash) area.noSlash area.noZero area.noSlash rfl
  rw [if_pos rfl] at parsed
  rw [nodeHashKey_of_parsed parsed]
  exact viewOctets_toEnd (by simp [hashed]) (show prefixRouter ≠ 0 by decide)
    (show prefixRouter ≠ prefixMobile by decide) rfl rfl rfl

/-- A router of another area: `A` and its area. -/
theorem nodeHashKey_other_area (area : RouterName A) {a r : List UInt8} (ha : AddressName a) (notArea : a ≠ A) :
    nodeHashKey (qdIteratorSetAddress false A R) (a ++ slash :: r) = prefixArea :: a := by
  have parsed : parseNodeView (qdIteratorSetAddress false A R) _ = _ :=
    parseNodeView_component (walkStart_raw (a ++ slash :: r) .nodeHash) area.noSlash area.noZero ha.noSlash rfl
  rw [if_neg notArea] at parsed
  rw [nodeHashKey_of_parsed parsed]
  exact viewOctets_toSlash (by simp [hashed]) (show prefixArea ≠ 0 by decide)
    (show prefixArea ≠ prefixMobile by decide) rfl rfl rfl rfl ha.nonempty ha.noSlash

end Nodes

/-! ### The classes together -/

/-- `qdrouter`, the local part of a router's own address. -/
def qdrouterName : List UInt8 := [113, 100, 114, 111, 117, 116, 101, 114]

/-- A node id `a/r` and the router address `_topo/a/r/qdrouter` have one key,
for an area other than `all` and a router other than this one and `all`. -/
theorem nodeHashKey_eq_router_address {A R : List UInt8} (area : RouterName A) (router : RouterName R)
    {a r : List UInt8} (ha : AddressName a) (hr : AddressName r) (notAll : a ≠ allName) (notRouter : r ≠ R)
    (rNotAll : r ≠ allName) (phase : UInt8) :
    nodeHashKey (qdIteratorSetAddress false A R) (a ++ slash :: r) =
      addressHashKey (qdIteratorSetAddress false A R) (topoAddress a r qdrouterName) phase := by
  have qdrouter : AddressPart qdrouterName := ⟨by decide, by decide⟩
  have plain : topoAddress a r qdrouterName = Scheme.relative.text ++ topoAddress a r qdrouterName ++ [] := by
    simp [Scheme.text]
  have noTrailing : ([] : List UInt8) ∈ [[], [dot], [slash]] := by simp
  rw [plain]
  by_cases inArea : a = A
  · -- a router of this area is hashed by its id on both sides
    subst inArea
    rw [nodeHashKey_in_area area, addressHashKey_topo_router Scheme.valid_relative noTrailing area router ha.noColon ha.noSlash
      hr qdrouter (Or.inr rfl) rNotAll notRouter phase]
  · rw [nodeHashKey_other_area area ha inArea,
      addressHashKey_topo_area Scheme.valid_relative noTrailing area router ha hr qdrouter notAll inArea phase]

/-- The hash keys of the address classes on an interior router of area `A` and
id `R`, after any valid scheme, with or without one trailing `.` or `/`, where
a local or mobile part kept in the key does not itself end in one; and the key
of a node id, which is the key of the router's own address. -/
theorem address_hash_keys_follow_classes {A R : List UInt8} (area : RouterName A) (router : RouterName R)
    (routerNotAll : R ≠ allName) {scheme : Scheme} (valid : scheme.Valid) {t : List UInt8}
    (optional : t ∈ [[], [dot], [slash]]) (phase : UInt8) :
    (∀ l, AddressPart l → NoTrailingSeparator l →
      addressHashKey (qdIteratorSetAddress false A R) (scheme.text ++ localAddress l ++ t) phase =
        prefixLocal :: l) ∧
    (∀ a r l, AddressName a → AddressName r → AddressPart l → a ≠ A → a ≠ allName →
      addressHashKey (qdIteratorSetAddress false A R) (scheme.text ++ topoAddress a r l ++ t) phase =
        prefixArea :: a) ∧
    (∀ r l, AddressName r → AddressPart l → r ≠ R → r ≠ allName →
      addressHashKey (qdIteratorSetAddress false A R) (scheme.text ++ topoAddress A r l ++ t) phase =
        prefixRouter :: r) ∧
    (∀ l, AddressPart l → NoTrailingSeparator l →
      addressHashKey (qdIteratorSetAddress false A R) (scheme.text ++ topoAddress A R l ++ t) phase =
        prefixLocal :: l) ∧
    (∀ l, AddressPart l → NoTrailingSeparator l →
      addressHashKey (qdIteratorSetAddress false A R) (scheme.text ++ topoAddress A allName l ++ t) phase =
          prefixTopological :: l ∧
        addressHashKey (qdIteratorSetAddress false A R) (scheme.text ++ topoAddress allName allName l ++ t) phase =
          prefixTopological :: l) ∧
    (∀ r l, AddressName r → AddressPart l → r ≠ R →
      addressHashKey (qdIteratorSetAddress false A R) (scheme.text ++ edgeAddress r l ++ t) phase =
        prefixEdgeSummary :: r) ∧
    (∀ l, AddressPart l → NoTrailingSeparator l →
      addressHashKey (qdIteratorSetAddress false A R) (scheme.text ++ edgeAddress R l ++ t) phase =
        prefixLocal :: l) ∧
    (∀ m, AddressPart m → m.head? ≠ some slash → m.head? ≠ some underscore → NoTrailingSeparator m →
      addressHashKey (qdIteratorSetAddress false A R) (scheme.text ++ m ++ t) phase =
        prefixMobile :: phase :: m) ∧
    (∀ a r, AddressName a → AddressName r → a ≠ allName → r ≠ R → r ≠ allName →
      nodeHashKey (qdIteratorSetAddress false A R) (a ++ slash :: r) =
        addressHashKey (qdIteratorSetAddress false A R) (topoAddress a r qdrouterName) phase) := by
  have allNoColon : colon ∉ allName := by decide
  have allNoSlash : slash ∉ allName := by decide
  refine ⟨?_, ?_, ?_, ?_, ?_, ?_, ?_, ?_, ?_⟩
  · intro l hl clear
    exact addressHashKey_local valid optional hl clear phase
  · intro a r l ha hr hl notArea notAll
    exact addressHashKey_topo_area valid optional area router ha hr hl notAll notArea phase
  · intro r l hr hl notRouter notAll
    exact addressHashKey_topo_router valid optional area router area.noColon area.noSlash hr hl (Or.inr rfl)
      notAll notRouter phase
  · intro l hl clear
    exact addressHashKey_topo_own valid optional area router routerNotAll area.noColon area.noSlash hl clear
      (Or.inr rfl) phase
  · intro l hl clear
    exact ⟨addressHashKey_topo_all valid optional area router area.noColon area.noSlash hl clear (Or.inr rfl) phase,
      addressHashKey_topo_all valid optional area router allNoColon allNoSlash hl clear (Or.inl rfl) phase⟩
  · intro r l hr hl notRouter
    exact addressHashKey_edge_router valid optional router hr hl notRouter phase
  · intro l hl clear
    exact addressHashKey_edge_own valid optional router hl clear phase
  · intro m hm notSlash notUnderscore clear
    exact addressHashKey_mobile valid optional hm notSlash notUnderscore clear phase
  · intro a r ha hr notAll notRouter rNotAll
    exact nodeHashKey_eq_router_address area router ha hr notAll notRouter rNotAll phase

/-- The router `R` of area `0`, and `_local/x` on it. -/
theorem address_hash_keys_at_router_r :
    RouterName [48] ∧ RouterName [82] ∧ [82] ≠ allName ∧ Scheme.relative.Valid ∧
      ([] : List UInt8) ∈ [[], [dot], [slash]] ∧
      addressHashKey (qdIteratorSetAddress false [48] [82]) (Scheme.relative.text ++ localAddress [120] ++ []) 48 =
        [prefixLocal, 120] :=
  have area : RouterName [48] := ⟨by decide, by decide, by decide⟩
  have router : RouterName [82] := ⟨by decide, by decide, by decide⟩
  have part : AddressPart [120] := ⟨by decide, by decide⟩
  have clear : NoTrailingSeparator [120] := by simp [NoTrailingSeparator, separators, dot, slash]
  ⟨area, router, by decide, Scheme.valid_relative, by simp,
    (address_hash_keys_follow_classes area router (by decide) Scheme.valid_relative (by simp) 48).1 [120] part
      clear⟩

/-- Where the hash classes break, on the router `R` of area `0`:
`_local/x/` loses its slash; the node id `all/r` is hashed by its area while
`_topo/all/r/qdrouter` is hashed by the router; a router called `all` hashes
its own `_topo/0/all/x` as topological; and on a router whose area `x/y` has a
slash, `_topo/x/y/l` is not hashed by the area `x`. -/
theorem address_hash_keys_counterexample :
    addressHashKey (qdIteratorSetAddress false [48] [82]) (localAddress [120, 47]) 48 ≠ prefixLocal :: [120, 47] ∧
      nodeHashKey (qdIteratorSetAddress false [48] [82]) (allName ++ slash :: [114]) ≠
        addressHashKey (qdIteratorSetAddress false [48] [82]) (topoAddress allName [114] qdrouterName) 48 ∧
      addressHashKey (qdIteratorSetAddress false [48] allName) (topoAddress [48] allName [120]) 48 ≠
        prefixLocal :: [120] ∧
      addressHashKey (qdIteratorSetAddress false [120, 47, 121] [82]) (topoAddress [120] [121] [108]) 48 ≠
        prefixArea :: [120] := by
  refine ⟨?_, ?_, ?_, ?_⟩ <;> decide +kernel

end DispatchRouter.Iterator
