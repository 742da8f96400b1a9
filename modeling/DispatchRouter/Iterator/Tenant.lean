/-
# Tenant spaces

On a multi-tenant listener a connection's vhost `v` gives it the tenant space
`v/` (`qdr_connection_opened`), and the addresses it names that are neither
`_local`, `_topo` nor `_edge` are annotated with that space before they are
hashed. The octet state machine reads the space between the phase and the
address, so the key of a mobile address `m` of tenant `v` is `M`, the phase,
`v/` and `m`, and its view with the space is `v/` and `m`. Nothing separates
the space from the address but the slash that ends it, which a vhost may also
contain.
-/

import DispatchRouter.Iterator.Keys

namespace DispatchRouter.Iterator

open QdIterator

/-- The tenant space of a vhost, as `qdr_connection_opened` builds it. -/
def tenantSpace (vhost : List UInt8) : List UInt8 :=
  vhost ++ [slash]

/-- The key of an address named by a tenant: its address-hash view with the
tenant's space, then its phase. -/
def tenantHashKey (config : AddressConfig) (vhost text : List UInt8) (phase : UInt8) : List UInt8 :=
  viewOctets (qdIteratorAnnotatePhase (qdIteratorAnnotateSpace (qdIteratorString config text .addressHash)
    (tenantSpace vhost)) phase)

/-- The address a tenant's message is forwarded to: its view with the space. -/
def tenantView (config : AddressConfig) (vhost text : List UInt8) : List UInt8 :=
  viewOctets (qdIteratorAnnotateSpace (qdIteratorString config text .addressWithSpace) (tenantSpace vhost))

/-- In the space, the view reads what is left of the space, then the body. -/
theorem readToEnd_inSpace {space : List UInt8} :
    ∀ (n : Nat) (J : QdIterator) (fuel : Nat), 0 < n → J.state = .inSpace → J.space = some space →
      J.spaceCursor + n = space.length → J.annotationRemaining = n → J.mode = .toEnd →
      n + J.viewPointer.length ≤ fuel → (readToEnd fuel J).1 = space.drop J.spaceCursor ++ J.viewPointer := by
  intro n
  induction n with
  | zero => intro _ _ positive; exact absurd positive (Nat.lt_irrefl 0)
  | succ n ih =>
      intro J fuel _ inSpace hasSpace cursor remaining toEnd enough
      obtain ⟨fuel, rfl⟩ : ∃ k, fuel = k + 1 := Nat.exists_eq_succ_of_ne_zero (by omega)
      have notEnd : J.atEnd = false := by simp [atEnd, QdIterator.remaining, remaining]
      have inside : J.spaceCursor < space.length := by omega
      -- one octet of the space is read and the cursor moves on; the last one
      -- leads into the body
      have step : qdIteratorOctet J =
          (space.getD J.spaceCursor 0, { J with
            state := if J.spaceCursor + 1 = space.length then .inBody else .inSpace
            annotationRemaining := n
            spaceCursor := J.spaceCursor + 1 }) := by
        simp [qdIteratorOctet, inSpace, hasSpace, remaining]
      have dropped : space.drop J.spaceCursor = space.getD J.spaceCursor 0 :: space.drop (J.spaceCursor + 1) := by
        rw [List.drop_eq_getElem_cons inside, List.getD_eq_getElem?_getD, List.getElem?_eq_getElem inside,
          Option.getD_some]
      rw [readToEnd, if_neg (by simp [notEnd]), step, dropped]
      rcases Nat.eq_zero_or_pos n with last | more
      · subst last
        have ends : J.spaceCursor + 1 = space.length := by omega
        simp only [ends, if_true]
        have read := readToEnd_raw J.viewPointer
          ({ J with state := .inBody, annotationRemaining := 0, spaceCursor := space.length } : QdIterator) fuel
          ⟨rfl, toEnd, rfl⟩ rfl (by omega)
        rw [read]
        simp only [List.drop_length, List.singleton_append]
      · have goesOn : J.spaceCursor + 1 ≠ space.length := by omega
        simp only [goesOn, if_false]
        have read := ih
          ({ J with state := .inSpace, annotationRemaining := n, spaceCursor := J.spaceCursor + 1 } : QdIterator) fuel
          more rfl hasSpace (by dsimp only; omega) rfl toEnd (by dsimp only; omega)
        rw [read]
        rfl

/-- The address-hash view of a mobile address with a space: `M`, the phase,
the space and the address. -/
theorem viewOctets_spaced {J : QdIterator} {space : List UInt8} (hashView : J.view ≠ .addressWithSpace)
    (mobile : J.hashPrefix = prefixMobile) (spaced : J.space = some space) (nonempty : space ≠ [])
    (shown : J.viewSpace = true) (annotated : J.annotationLength = space.length + 2) (toEnd : J.mode = .toEnd) :
    viewOctets J = prefixMobile :: J.phase :: (space ++ J.viewStartPointer) := by
  have nonzero : J.hashPrefix ≠ 0 := by rw [mobile]; decide
  have fuel : (qdIteratorReset J).remaining = space.length + J.viewStartPointer.length + 2 := by
    simp only [qdIteratorReset_prefixed hashView nonzero, remaining, annotated]
    omega
  -- `M` and the phase are read, and the space is shown next
  have read : (readToEnd (space.length + J.viewStartPointer.length + 2) (qdIteratorReset J)).1 =
      prefixMobile :: J.phase :: (readToEnd (space.length + J.viewStartPointer.length)
        { J with
          viewPointer := J.viewStartPointer
          annotationRemaining := space.length
          state := .inSpace
          spaceCursor := 0 }).1 := by
    rw [qdIteratorReset_prefixed hashView nonzero]
    simp [readToEnd, atEnd, remaining, annotated, qdIteratorOctet, mobile, afterAnnotation, shown, spaced]
  rw [viewOctets, qdIteratorOctets, fuel, read]
  exact congrArg (fun rest => prefixMobile :: J.phase :: rest)
    (readToEnd_inSpace space.length _ _ (List.length_pos_of_ne_nil nonempty) rfl spaced (Nat.zero_add _) rfl toEnd
      (Nat.le_refl _))

/-- The view with a space of an address with a space: the space and the
address. -/
theorem viewOctets_withSpace {J : QdIterator} {space : List UInt8} (withSpace : J.view = .addressWithSpace)
    (spaced : J.space = some space) (nonempty : space ≠ []) (shown : J.viewSpace = true)
    (annotated : J.annotationLength = space.length) (toEnd : J.mode = .toEnd) :
    viewOctets J = space ++ J.viewStartPointer := by
  have reset : qdIteratorReset J =
      { J with
        viewPointer := J.viewStartPointer
        annotationRemaining := space.length
        state := .inSpace
        spaceCursor := 0 } := by
    simp [qdIteratorReset, withSpace, spaced, shown, annotated]
  have fuel : (qdIteratorReset J).remaining = space.length + J.viewStartPointer.length := by
    simp [reset, remaining]
  rw [viewOctets, qdIteratorOctets, fuel, reset]
  exact readToEnd_inSpace space.length _ _ (List.length_pos_of_ne_nil nonempty) rfl spaced (Nat.zero_add _) rfl toEnd
    (Nat.le_refl _)

section Mobile

variable {config : AddressConfig} {scheme : Scheme} {t m : List UInt8}

/-- The key of a tenant's mobile address `m`: `M`, the phase, the tenant space
and `m`. -/
theorem tenantHashKey_mobile (valid : scheme.Valid) (optional : t ∈ [[], [dot], [slash]]) (hm : AddressPart m)
    (notSlash : m.head? ≠ some slash) (notUnderscore : m.head? ≠ some underscore) (clear : NoTrailingSeparator m)
    (vhost : List UInt8) (phase : UInt8) :
    tenantHashKey config vhost (scheme.text ++ m ++ t) phase = prefixMobile :: phase :: (tenantSpace vhost ++ m) := by
  rw [List.append_assoc, tenantHashKey, qdIteratorString_of_parsed (fits_mobile valid optional hm notSlash)
    (by decide) (by decide) (by decide) rfl (parseAddressView_walked_mobile optional notUnderscore clear _ _)]
  exact viewOctets_spaced (by simp [qdIteratorAnnotatePhase, qdIteratorAnnotateSpace, mobileView]) rfl rfl
    (by simp [tenantSpace]) rfl rfl rfl

/-- The view with the space of a tenant's mobile address `m`: the tenant space
and `m`. -/
theorem tenantView_mobile (valid : scheme.Valid) (optional : t ∈ [[], [dot], [slash]]) (hm : AddressPart m)
    (notSlash : m.head? ≠ some slash) (notUnderscore : m.head? ≠ some underscore) (clear : NoTrailingSeparator m)
    (vhost : List UInt8) :
    tenantView config vhost (scheme.text ++ m ++ t) = tenantSpace vhost ++ m := by
  rw [List.append_assoc, tenantView, qdIteratorString_of_parsed (fits_mobile valid optional hm notSlash)
    (by decide) (by decide) (by decide) rfl (parseAddressView_walked_mobile optional notUnderscore clear _ _)]
  exact viewOctets_withSpace rfl rfl (by simp [tenantSpace]) rfl rfl rfl

/-- A text splits at its first slash in one way only. -/
theorem append_slash_inj {y y' : List UInt8} :
    ∀ {x x' : List UInt8}, slash ∉ x → slash ∉ x' → x ++ slash :: y = x' ++ slash :: y' → x = x' ∧ y = y' := by
  intro x
  induction x with
  | nil =>
      intro x' _ hx' same
      cases x' with
      | nil => simpa using same
      | cons d x' =>
          have dSlash : slash = d := (List.cons.inj same).1
          exact absurd (dSlash ▸ List.mem_cons_self) hx'
  | cons c x ih =>
      intro x' hx hx' same
      cases x' with
      | nil =>
          have cSlash : c = slash := (List.cons.inj same).1
          exact absurd (cSlash ▸ List.mem_cons_self) hx
      | cons d x' =>
          obtain ⟨heads, tails⟩ := List.cons.inj same
          obtain ⟨rests, ends⟩ := ih (fun inX => hx (List.mem_cons_of_mem c inX))
            (fun inX' => hx' (List.mem_cons_of_mem d inX')) tails
          exact ⟨by rw [heads, rests], ends⟩

/-- Tenants whose vhosts have no slash never share a key: the key of a mobile
address gives back the vhost and the address, whatever scheme and trailing
separator either address was written with. -/
theorem tenantHashKey_injective (valid : scheme.Valid) (optional : t ∈ [[], [dot], [slash]]) (hm : AddressPart m)
    (notSlash : m.head? ≠ some slash) (notUnderscore : m.head? ≠ some underscore) (clear : NoTrailingSeparator m)
    {scheme' : Scheme} {t' m' : List UInt8} (valid' : scheme'.Valid) (optional' : t' ∈ [[], [dot], [slash]])
    (hm' : AddressPart m') (notSlash' : m'.head? ≠ some slash) (notUnderscore' : m'.head? ≠ some underscore)
    (clear' : NoTrailingSeparator m')
    {vhost vhost' : List UInt8} (plain : slash ∉ vhost) (plain' : slash ∉ vhost') (phase : UInt8)
    (same : tenantHashKey config vhost (scheme.text ++ m ++ t) phase =
      tenantHashKey config vhost' (scheme'.text ++ m' ++ t') phase) :
    vhost = vhost' ∧ m = m' := by
  rw [tenantHashKey_mobile valid optional hm notSlash notUnderscore clear,
    tenantHashKey_mobile valid' optional' hm' notSlash' notUnderscore' clear'] at same
  simp only [tenantSpace, List.cons.injEq, true_and, List.append_assoc, List.singleton_append] at same
  exact append_slash_inj plain plain' same

/-- The mobile address `x` of the tenant `a`, hashed once as written and once
as `amqp:/x`. -/
theorem tenantHashKey_injective_at_a :
    AddressPart [120] ∧ NoTrailingSeparator [120] ∧ slash ∉ ([97] : List UInt8) ∧
      tenantHashKey (qdIteratorSetAddress false [48] [82]) [97] (Scheme.relative.text ++ [120] ++ []) 48 =
        tenantHashKey (qdIteratorSetAddress false [48] [82]) [97] (Scheme.amqp.text ++ [120] ++ []) 48 ∧
      ([97] : List UInt8) = [97] ∧ ([120] : List UInt8) = [120] :=
  have address : AddressPart [120] := ⟨by decide, by decide⟩
  have clear : NoTrailingSeparator [120] := by simp [NoTrailingSeparator, separators, dot, slash]
  have plain : slash ∉ ([97] : List UInt8) := by decide
  have untrailed : ([] : List UInt8) ∈ [[], [dot], [slash]] := List.mem_cons_self
  have same : tenantHashKey (qdIteratorSetAddress false [48] [82]) [97] (Scheme.relative.text ++ [120] ++ []) 48 =
      tenantHashKey (qdIteratorSetAddress false [48] [82]) [97] (Scheme.amqp.text ++ [120] ++ []) 48 := by
    decide +kernel
  ⟨address, clear, plain, same,
    tenantHashKey_injective Scheme.valid_relative untrailed address (by decide) (by decide) clear
      (show Scheme.amqp.Valid from trivial) untrailed address (by decide) (by decide) clear plain plain 48 same⟩

/-- Two tenants whose vhosts differ by a segment name one key and one view
with two mobile addresses: `v` naming `b/m`, and `v/b` naming `m`. -/
theorem tenant_spaces_collide (valid : scheme.Valid) (optional : t ∈ [[], [dot], [slash]]) {b : List UInt8}
    (hb : AddressPart b) (bNotSlash : b.head? ≠ some slash) (bNotUnderscore : b.head? ≠ some underscore)
    (hm : AddressPart m) (notSlash : m.head? ≠ some slash) (notUnderscore : m.head? ≠ some underscore)
    (clear : NoTrailingSeparator m) (vhost : List UInt8) (phase : UInt8) :
    vhost ≠ vhost ++ slash :: b ∧
      tenantHashKey config vhost (scheme.text ++ (b ++ slash :: m) ++ t) phase =
        tenantHashKey config (vhost ++ slash :: b) (scheme.text ++ m ++ t) phase ∧
      tenantView config vhost (scheme.text ++ (b ++ slash :: m) ++ t) =
        tenantView config (vhost ++ slash :: b) (scheme.text ++ m ++ t) := by
  -- `b/m` is itself a mobile address, which starts as `b` does and ends as `m` does
  have colonNotSlash : colon ≠ slash := by decide
  have joined : AddressPart (b ++ slash :: m) :=
    ⟨by simp, by simp [hb.noColon, colonNotSlash, hm.noColon]⟩
  have head : (b ++ slash :: m).head? = b.head? := by
    obtain ⟨c, rest, rfl⟩ := List.exists_cons_of_ne_nil hb.nonempty
    rfl
  have joinedClear : NoTrailingSeparator (b ++ slash :: m) := by
    rw [NoTrailingSeparator, show b ++ slash :: m = (b ++ [slash]) ++ m by simp,
      getLast?_append_of_ne_nil' hm.nonempty]
    exact clear
  have longer : vhost ≠ vhost ++ slash :: b := fun same => by
    have lengths := congrArg List.length same
    simp at lengths
  rw [tenantHashKey_mobile valid optional joined (head ▸ bNotSlash) (head ▸ bNotUnderscore) joinedClear,
    tenantHashKey_mobile valid optional hm notSlash notUnderscore clear,
    tenantView_mobile valid optional joined (head ▸ bNotSlash) (head ▸ bNotUnderscore) joinedClear,
    tenantView_mobile valid optional hm notSlash notUnderscore clear]
  exact ⟨longer, by simp [tenantSpace], by simp [tenantSpace]⟩

/-- The tenants `a` and `a/b` on the router `R` of area `0`, naming `b/x` and
`x`: both keys are `M0a/b/x`, both views `a/b/x`. -/
theorem tenant_spaces_collide_at_a :
    AddressPart [98] ∧ AddressPart [120] ∧ NoTrailingSeparator [120] ∧
      tenantHashKey (qdIteratorSetAddress false [48] [82]) [97] (Scheme.relative.text ++ [98, slash, 120] ++ []) 48 =
        tenantHashKey (qdIteratorSetAddress false [48] [82]) [97, slash, 98] (Scheme.relative.text ++ [120] ++ []) 48 :=
  have part : AddressPart [98] := ⟨by decide, by decide⟩
  have address : AddressPart [120] := ⟨by decide, by decide⟩
  have clear : NoTrailingSeparator [120] := by simp [NoTrailingSeparator, separators, dot, slash]
  ⟨part, address, clear,
    (tenant_spaces_collide Scheme.valid_relative (by simp) part (by decide) (by decide) address (by decide)
      (by decide) clear [97] 48).2.1⟩

end Mobile

end DispatchRouter.Iterator
