/-
# A router's reference count in the MAU loops

`qcm_mobile_sync_on_mau_CT` keeps, for the router that sent the MAU, its
`ref_count` beside the bit it sets in the addresses: a round of the add or
exist loop that maps an address to the router sets the bit and counts one more,
and a round of the del loop that unmaps one clears it and counts one less.
`Core.Counts` says the count is the number of addresses holding the bit. With
the keys of `core->addrs` distinct and no fallback addresses, every round keeps
it, changes nothing of the router but its count and moves no other bit
(`Core.Loop`, one lemma per round), and so do both loops. A round takes the bit
only from the address it unmaps, so an address that is not mobile keeps it when
the del list names mobile addresses only (`Core.Fixed`). The sweep of an
absolute MAU or a router flush reads the next address before it unmaps one, and
the one it may free is never the next, so it never lands on a freed address
(`Counts.sweep`). The whole handler writes back a router that counts the
addresses holding its bit (`Counts.applyMau`, `mau_keeps_ref_count`).
-/

import DispatchRouter.MobileSync.Holders
import DispatchRouter.Math.Mealy

namespace DispatchRouter.MobileSync

open Math

/-- `r'` is the router `r` with only its `ref_count` changed, as the loops of a
MAU leave the router that sent it. -/
def RouterNode.Recounted (r' r : RouterNode) : Prop :=
  r' = { r with refCount := r'.refCount }

namespace RouterNode

variable {r r' r'' : RouterNode}

theorem recounted_self (r : RouterNode) : r.Recounted r := rfl

theorem recounted_refCount (r : RouterNode) (n : Nat) : ({ r with refCount := n } : RouterNode).Recounted r := rfl

theorem Recounted.trans (second : r''.Recounted r') (first : r'.Recounted r) : r''.Recounted r := by
  unfold Recounted at *
  exact Eq.trans second (congrArg (fun r => { r with refCount := r''.refCount }) first)

theorem Recounted.maskBit (recounted : r'.Recounted r) : r'.maskBit = r.maskBit := by
  unfold Recounted at recounted
  rw [recounted]

theorem Recounted.owningAddr (recounted : r'.Recounted r) : r'.owningAddr = r.owningAddr := by
  unfold Recounted at recounted
  rw [recounted]

end RouterNode

namespace Core

/-- The router's `ref_count` is the number of addresses whose `rnodes` hold its
bit, over distinct keys and no fallback addresses. -/
structure Counts (core : Core) (router : RouterNode) : Prop where
  nodup : core.keys.Nodup
  noFallback : core.NoFallback
  exact : router.refCount = (core.holders router.maskBit).card

variable {core : Core} {router : RouterNode} {a old : Address}

/-! ### Writing an address back -/

theorem mem_keys_of_addr? {key : List Char} (found : core.addr? key = some a) : key ∈ core.keys :=
  addr?_isSome_iff.mp (by rw [found]; rfl)

/-- A stored address written back keeps the keys distinct and, with no
fallback, the addresses without one: what is left is the count. -/
theorem Counts.setAddr_of_card {r : RouterNode} (counts : core.Counts router) (found : core.addr? a.key = some old)
    (none : a.fallback = none) (card : r.refCount = ((core.setAddr a).holders r.maskBit).card) :
    (core.setAddr a).Counts r :=
  ⟨by rw [keys_setAddr]; exact counts.nodup, noFallback_setAddr counts.noFallback none (mem_keys_of_addr? found),
    card⟩

theorem Counts.setAddr_same (counts : core.Counts router) (found : core.addr? a.key = some old)
    (none : a.fallback = none) (same : a.rnodes = old.rnodes) : (core.setAddr a).Counts router := by
  refine counts.setAddr_of_card found none ?_
  rw [holders_setAddr_of_rnodes counts.nodup found same]
  exact counts.exact

/-- Setting the router's bit in an address that lacked it counts one more. -/
theorem Counts.setAddr_insert (counts : core.Counts router) (found : core.addr? a.key = some old)
    (none : a.fallback = none) (inserted : a.rnodes = insert router.maskBit old.rnodes)
    (lacking : router.maskBit ∉ old.rnodes) :
    (core.setAddr a).Counts { router with refCount := router.refCount + 1 } := by
  have notHeld : a.key ∉ core.holders router.maskBit := by
    rw [mem_holders_iff counts.nodup, found]
    rintro ⟨b, hit, holds⟩
    cases hit
    exact lacking holds
  have moved : (core.setAddr a).holders router.maskBit = insert a.key (core.holders router.maskBit) := by
    rw [holders_setAddr (mem_keys_of_addr? found), if_pos (by rw [inserted]; exact Finset.mem_insert_self _ _)]
  refine counts.setAddr_of_card found none ?_
  change router.refCount + 1 = ((core.setAddr a).holders router.maskBit).card
  rw [moved, Finset.card_insert_of_notMem notHeld, counts.exact]

/-- Clearing the router's bit from an address that held it counts one less. -/
theorem Counts.setAddr_erase (counts : core.Counts router) (found : core.addr? a.key = some old)
    (none : a.fallback = none) (erased : a.rnodes = old.rnodes.erase router.maskBit)
    (holding : router.maskBit ∈ old.rnodes) :
    (core.setAddr a).Counts { router with refCount := router.refCount - 1 } := by
  have held : a.key ∈ core.holders router.maskBit := (mem_holders_iff counts.nodup).mpr ⟨old, found, holding⟩
  have moved : (core.setAddr a).holders router.maskBit = (core.holders router.maskBit).erase a.key := by
    rw [holders_setAddr (mem_keys_of_addr? found), if_neg (by rw [erased]; exact Finset.notMem_erase _ _)]
  refine counts.setAddr_of_card found none ?_
  change router.refCount - 1 = ((core.setAddr a).holders router.maskBit).card
  rw [moved, Finset.card_erase_of_mem held, counts.exact]

/-- `qdr_check_addr_CT` removes only an address that holds no bit. -/
theorem Counts.checkAddr (counts : core.Counts router) (key : List Char) :
    (MobileSync.checkAddr core key).Counts router where
  nodup := checkAddr_keys_nodup counts.nodup counts.noFallback
  noFallback := noFallback_checkAddr counts.noFallback
  exact := by rw [holders_checkAddr counts.nodup counts.noFallback]; exact counts.exact


/-! ### What a round moves beside the router's bit -/

/-- A round of a MAU loop for the router at `bit` moves no other bit's holders
and no router. -/
structure Moves (bit : Nat) (core core' : Core) : Prop where
  others : ∀ c ≠ bit, core'.holders c = core.holders c
  routers : core'.routers = core.routers

/-- No address that is not mobile loses `bit`: the router's own address and the
router-class addresses keep it. -/
def Fixed (bit : Nat) (core core' : Core) : Prop :=
  ∀ k, qcmMobileSyncAddrIsMobile k = false → k ∈ core.holders bit → k ∈ core'.holders bit

section Moves

variable {bit : Nat} {core' core'' : Core}

theorem Moves.refl (bit : Nat) (core : Core) : Moves bit core core :=
  ⟨fun _ _ => rfl, rfl⟩

theorem Moves.trans (first : Moves bit core core') (second : Moves bit core' core'') : Moves bit core core'' :=
  ⟨fun c other => (second.others c other).trans (first.others c other), second.routers.trans first.routers⟩

theorem Fixed.refl (bit : Nat) (core : Core) : Fixed bit core core :=
  fun _ _ held => held

theorem Fixed.trans (first : Fixed bit core core') (second : Fixed bit core' core'') : Fixed bit core core'' :=
  fun k notMobile held => second k notMobile (first k notMobile held)

/-- A call that moves no bit's holders and no router. -/
theorem moves_fixed_of_holders (bit : Nat) (same : ∀ c, core'.holders c = core.holders c)
    (routers : core'.routers = core.routers) : Moves bit core core' ∧ Fixed bit core core' := by
  refine ⟨⟨fun c _ => same c, routers⟩, fun k _ held => ?_⟩
  rw [same bit]
  exact held

/-- An address written back that holds every other bit as it did. -/
theorem Moves.setAddr (nodup : core.keys.Nodup) (found : core.addr? a.key = some old)
    (others : ∀ c ≠ bit, c ∈ a.rnodes ↔ c ∈ old.rnodes) : Moves bit core (core.setAddr a) :=
  ⟨fun c other => holders_setAddr_of_mem_iff nodup found (others c other), rfl⟩

/-- An address written back keeps `bit` if it held it and is not mobile. -/
theorem Fixed.setAddr (nodup : core.keys.Nodup) (found : core.addr? a.key = some old)
    (keeps : qcmMobileSyncAddrIsMobile a.key = false → bit ∈ old.rnodes → bit ∈ a.rnodes) :
    Fixed bit core (core.setAddr a) := by
  intro k notMobile held
  rw [holders_setAddr (mem_keys_of_addr? found)]
  split_ifs with holds
  · exact Finset.mem_insert_of_mem held
  · refine Finset.mem_erase.mpr ⟨fun same => ?_, held⟩
    -- the address of `k` is `old`, which held the bit, so the one written back holds it
    obtain ⟨b, hit, inB⟩ := (mem_holders_iff nodup).mp held
    rw [same, found, Option.some.injEq] at hit
    subst hit
    exact holds (keeps (same ▸ notMobile) inB)

end Moves

/-- `qdr_check_addr_CT` moves no bit's holders and no router. -/
theorem Counts.checkAddr_moves (counts : core.Counts router) (bit : Nat) (key : List Char) :
    Moves bit core (MobileSync.checkAddr core key) ∧ Fixed bit core (MobileSync.checkAddr core key) :=
  moves_fixed_of_holders bit (fun _ => holders_checkAddr counts.nodup counts.noFallback)
    (checkAddr_routers counts.noFallback)

/-! ### One round of each loop -/

/-- What every round of a MAU loop from `router` keeps, from the core the loop
starts on: the router counts the addresses holding its bit, has only its count
changed, and no other bit has moved. -/
structure Loop (core : Core) (router : RouterNode) (state : Core × RouterNode) : Prop where
  counts : state.1.Counts state.2
  recounted : state.2.Recounted router
  moves : Moves router.maskBit core state.1

theorem Counts.loop (counts : core.Counts router) : Loop core router (core, router) :=
  ⟨counts, RouterNode.recounted_self router, Moves.refl _ core⟩

/-- Rounds one after another. -/
theorem Loop.then {mid last : Core × RouterNode} (first : Loop core router mid) (second : Loop mid.1 mid.2 last) :
    Loop core router last :=
  ⟨second.counts, second.recounted.trans first.recounted,
    first.moves.trans (first.recounted.maskBit ▸ second.moves)⟩

/-- A new address, which holds no bit, appended to `core->addrs`. -/
theorem Counts.append {b : Address} (counts : core.Counts router) (absent : b.key ∉ core.keys)
    (empty : b.rnodes = ∅) (none : b.fallback = none) :
    ({ core with addrs := core.addrs ++ [b] } : Core).Counts router := by
  refine ⟨nodup_append counts.nodup absent, noFallback_append counts.noFallback none, ?_⟩
  rw [holders_append empty]
  exact counts.exact

/-- The end of a round of the add loop, once the address is found or made:
the mark cleared and the bit set, counted when it was not set. -/
theorem Counts.mapFound (counts : core.Counts router) (stored : core.addr? a.key = some a)
    (none : a.fallback = none) :
    let a' := { a with toBeDeleted := false }
    let done := if router.maskBit ∈ a'.rnodes then (core.setAddr a', router)
      else (core.setAddr { a' with rnodes := insert router.maskBit a'.rnodes, costEpoch := a'.costEpoch - 1 },
        { router with refCount := router.refCount + 1 })
    Loop core router done ∧ Fixed router.maskBit core done.1 := by
  intro a' done
  simp only [done]
  split_ifs with holding
  · exact ⟨⟨counts.setAddr_same stored none rfl, RouterNode.recounted_self router,
      Moves.setAddr counts.nodup stored fun _ _ => Iff.rfl⟩, Fixed.setAddr counts.nodup stored fun _ held => held⟩
  · -- the bit joins the address's bits, and only it
    have others : ∀ c ≠ router.maskBit, c ∈ insert router.maskBit a'.rnodes ↔ c ∈ a.rnodes := fun c other => by
      rw [Finset.mem_insert, or_iff_right other]
    exact ⟨⟨counts.setAddr_insert stored none rfl holding, RouterNode.recounted_refCount router _,
      Moves.setAddr counts.nodup stored others⟩,
      Fixed.setAddr counts.nodup stored fun _ _ => Finset.mem_insert_self _ _⟩

/-- `qdr_address_CT` makes an address of its key that holds no bit and has no
fallback. -/
theorem qdrAddressCT_fresh {key : List Char} {treatment : Treatment} {b : Address}
    (made : qdrAddressCT key treatment = some b) : b.key = key ∧ b.rnodes = ∅ ∧ b.fallback = none := by
  unfold qdrAddressCT at made
  split_ifs at made
  cases made
  exact ⟨rfl, rfl, rfl⟩

/-- A round of the add or exist loop: the address of `key` is the stored one,
or a new one appended, and the bit is set in it. -/
theorem Counts.mapAddress (counts : core.Counts router) (key : List Char) (hint : Int) :
    Loop core router (MobileSync.mapAddress core router key hint) ∧
      Fixed router.maskBit core (MobileSync.mapAddress core router key hint).1 := by
  unfold MobileSync.mapAddress
  dsimp only
  cases stored : core.addr? key with
  | some addr =>
      obtain ⟨inCore, sameKey⟩ := mem_of_addr? stored
      exact counts.mapFound (sameKey ▸ stored) (counts.noFallback _ inCore)
  | none =>
      have absent : key ∉ core.keys := addr?_eq_none_iff.mp stored
      dsimp only
      cases made : qdrAddressCT key
          (qdrTreatmentForAddressHashWithDefaultCT core key (qcmMobileSyncDefaultTreatment core hint)) with
      | none => exact ⟨counts.loop, Fixed.refl _ core⟩
      | some b =>
          obtain ⟨bKey, empty, none⟩ := qdrAddressCT_fresh made
          have appended := counts.append (bKey ▸ absent) empty none
          -- the new address holds no bit, so appending it moves nothing
          have unmoved : Moves router.maskBit core { core with addrs := core.addrs ++ [b] } ∧
              Fixed router.maskBit core { core with addrs := core.addrs ++ [b] } :=
            moves_fixed_of_holders router.maskBit (fun _ => holders_append empty) rfl
          have start : Loop core router ({ core with addrs := core.addrs ++ [b] }, router) :=
            ⟨appended, RouterNode.recounted_self router, unmoved.1⟩
          obtain ⟨done, fixed⟩ := appended.mapFound (by rw [addr?_append (bKey ▸ absent), if_pos rfl]) none
          exact ⟨start.then done, unmoved.2.trans fixed⟩

/-- Unmapping a stored address that holds the router's bit counts one less;
the address loses the bit, and no other. -/
theorem Counts.unmap {addr : Address} (counts : core.Counts router) (stored : core.addr? addr.key = some addr)
    (holding : router.maskBit ∈ addr.rnodes) :
    Loop core router (MobileSync.unmap core router addr) ∧
      (qcmMobileSyncAddrIsMobile addr.key = true → Fixed router.maskBit core (MobileSync.unmap core router addr).1) := by
  unfold MobileSync.unmap
  dsimp only
  set cleared := { addr with rnodes := addr.rnodes.erase router.maskBit, costEpoch := addr.costEpoch - 1 }
  have erased : (core.setAddr cleared).Counts { router with refCount := router.refCount - 1 } :=
    counts.setAddr_erase stored (counts.noFallback addr (mem_of_addr? stored).1) rfl holding
  have moved : Moves router.maskBit core (core.setAddr cleared) :=
    Moves.setAddr counts.nodup stored fun c other => by rw [Finset.mem_erase, and_iff_right other]
  obtain ⟨checkMoved, checkFixed⟩ := erased.checkAddr_moves router.maskBit addr.key
  refine ⟨⟨erased.checkAddr addr.key, RouterNode.recounted_refCount router _, moved.trans checkMoved⟩,
    fun mobile => ?_⟩
  -- a mobile address is the only one that loses the bit
  have fixed : Fixed router.maskBit core (core.setAddr cleared) :=
    Fixed.setAddr counts.nodup stored fun notMobile _ => absurd (mobile.symm.trans notMobile) Bool.noConfusion
  exact fixed.trans checkFixed

/-- A round of the del loop: the address of `key`, if it holds the bit, is
unmapped. -/
theorem Counts.unmapListed (counts : core.Counts router) (key : List Char) :
    Loop core router (MobileSync.unmapListed core router key) ∧
      (qcmMobileSyncAddrIsMobile key = true → Fixed router.maskBit core (MobileSync.unmapListed core router key).1) := by
  unfold MobileSync.unmapListed
  split
  case h_2 => exact ⟨counts.loop, fun _ => Fixed.refl _ core⟩
  case h_1 addr stored =>
    obtain ⟨-, sameKey⟩ := mem_of_addr? stored
    split_ifs with holding
    · obtain ⟨loop, fixed⟩ := counts.unmap (show core.addr? addr.key = some addr from sameKey ▸ stored) holding
      exact ⟨loop, fun mobile => fixed (sameKey ▸ mobile)⟩
    · exact ⟨counts.loop, fun _ => Fixed.refl _ core⟩

/-! ### The loops -/

/-- The add or exist loop keeps `Loop` and takes the bit from no address. -/
theorem Counts.foldl_mapAddress (items : List (List Char × Int)) (counts : core.Counts router) :
    let done := items.foldl (fun (state : Core × RouterNode) (item : List Char × Int) =>
      MobileSync.mapAddress state.1 state.2 item.1 item.2) (core, router)
    Loop core router done ∧ Fixed router.maskBit core done.1 := by
  refine Mealy.foldl_invariant (fun (state : Core × RouterNode) (item : List Char × Int) =>
      MobileSync.mapAddress state.1 state.2 item.1 item.2)
    (fun state item (kept : Loop core router state ∧ Fixed router.maskBit core state.1) (_ : True) => ?_) items
    ⟨counts.loop, Fixed.refl _ core⟩ fun _ _ => trivial
  obtain ⟨loop, fixed⟩ := kept
  obtain ⟨round, roundFixed⟩ := loop.counts.mapAddress item.1 item.2
  exact ⟨loop.then round, fixed.trans (loop.recounted.maskBit ▸ roundFixed)⟩

/-- The del loop keeps `Loop`, and with mobile keys only it takes the bit from
no address that is not mobile. -/
theorem Counts.foldl_unmapListed (keys : List (List Char)) (counts : core.Counts router) :
    let done := keys.foldl (fun (state : Core × RouterNode) key => MobileSync.unmapListed state.1 state.2 key)
      (core, router)
    Loop core router done ∧
      ((∀ key ∈ keys, qcmMobileSyncAddrIsMobile key = true) → Fixed router.maskBit core done.1) := by
  intro done
  have looped : Loop core router done :=
    Mealy.foldl_invariant (fun (state : Core × RouterNode) key => MobileSync.unmapListed state.1 state.2 key)
      (fun state key (loop : Loop core router state) (_ : True) => loop.then (loop.counts.unmapListed key).1) keys
      counts.loop fun _ _ => trivial
  refine ⟨looped, fun mobile => ?_⟩
  have kept : Loop core router done ∧ Fixed router.maskBit core done.1 := by
    refine Mealy.foldl_invariant (fun (state : Core × RouterNode) key => MobileSync.unmapListed state.1 state.2 key)
      (fun state key (kept : Loop core router state ∧ Fixed router.maskBit core state.1) isMobile => ?_) keys
      ⟨counts.loop, Fixed.refl _ core⟩ mobile
    obtain ⟨loop, fixed⟩ := kept
    obtain ⟨round, roundFixed⟩ := loop.counts.unmapListed key
    exact ⟨loop.then round, fixed.trans (loop.recounted.maskBit ▸ roundFixed isMobile)⟩
  exact kept.2

/-- The marks of an absolute MAU, or any rewrite of the addresses that keeps
their keys, bits and fallbacks, move nothing. -/
theorem Counts.map_addrs (counts : core.Counts router) {f : Address → Address} (key : ∀ a, (f a).key = a.key)
    (rnodes : ∀ a, (f a).rnodes = a.rnodes) (fallback : ∀ a, (f a).fallback = a.fallback) :
    Loop core router ({ core with addrs := core.addrs.map f }, router) ∧
      Fixed router.maskBit core { core with addrs := core.addrs.map f } := by
  have sameKeys : ({ core with addrs := core.addrs.map f } : Core).keys = core.keys := by
    simp only [keys, List.map_map]
    congr 1
    funext a
    exact key a
  have sameHolders : ∀ bit, ({ core with addrs := core.addrs.map f } : Core).holders bit = core.holders bit := by
    intro bit
    ext k
    simp only [mem_holders, List.mem_map]
    constructor
    · rintro ⟨_, ⟨a, stored, rfl⟩, rfl, holds⟩
      exact ⟨a, stored, (key a).symm, (rnodes a) ▸ holds⟩
    · rintro ⟨a, stored, rfl, holds⟩
      exact ⟨f a, ⟨a, stored, rfl⟩, key a, (rnodes a).symm ▸ holds⟩
  have noFallback : ({ core with addrs := core.addrs.map f } : Core).NoFallback := by
    intro b inMapped
    obtain ⟨a, stored, rfl⟩ := List.mem_map.mp inMapped
    rw [fallback a]
    exact counts.noFallback a stored
  obtain ⟨moved, fixed⟩ := moves_fixed_of_holders router.maskBit sameHolders rfl
  exact ⟨⟨⟨sameKeys ▸ counts.nodup, noFallback, (sameHolders _).symm ▸ counts.exact⟩,
    RouterNode.recounted_self router, moved⟩, fixed⟩

/-! ### Writing the router back -/

@[simp]
theorem holders_setRouter (r : RouterNode) (bit : Nat) : (core.setRouter r).holders bit = core.holders bit := rfl

@[simp]
theorem keys_setRouter (r : RouterNode) : (core.setRouter r).keys = core.keys := rfl

/-- The router written back replaces every router of its bit. -/
theorem eq_of_mem_setRouter {new r : RouterNode} (stored : r ∈ (core.setRouter new).routers)
    (bit : r.maskBit = new.maskBit) : r = new := by
  obtain ⟨old, -, rfl⟩ := List.mem_map.mp stored
  by_cases same : old.maskBit = new.maskBit
  · exact if_pos same
  · rw [if_neg same] at bit
    exact absurd bit same

/-- The router written back counts what its count counted. -/
theorem Counts.setRouter_exact (counts : core.Counts router) {r : RouterNode}
    (stored : r ∈ (core.setRouter router).routers) (bit : r.maskBit = router.maskBit) :
    r.refCount = ((core.setRouter router).holders r.maskBit).card := by
  rw [eq_of_mem_setRouter stored bit, holders_setRouter]
  exact counts.exact

/-! ### The sweep -/

/-- `DEQ_NEXT` of a stored address is another stored address. -/
theorem nextKey_mem {key k : List Char} (nodup : core.keys.Nodup) (next : core.nextKey key = some k) :
    k ∈ core.keys ∧ k ≠ key := by
  obtain ⟨addrs, routers, defaultTreatment, configTreatment⟩ := core
  simp only [nextKey, keys] at next nodup ⊢
  induction addrs with
  | nil => simp at next
  | cons a addrs ih =>
      rw [List.map_cons, List.nodup_cons] at nodup
      by_cases here : a.key = key
      · -- the walk stops at `a`, and the next address is the head of the rest
        simp only [List.dropWhile_cons, here, ne_eq, not_true_eq_false, decide_false] at next
        obtain ⟨b, isHead, rfl⟩ := Option.map_eq_some_iff.mp next
        have stored : b.key ∈ addrs.map (·.key) := List.mem_map_of_mem (List.mem_of_mem_head? isHead)
        exact ⟨List.mem_cons_of_mem _ stored, fun same => nodup.1 (here ▸ same ▸ stored)⟩
      · simp only [List.dropWhile_cons, here, ne_eq, not_false_eq_true, decide_true] at next
        obtain ⟨stored, other⟩ := ih nodup.2 next
        exact ⟨List.mem_cons_of_mem _ stored, other⟩

/-- Unmapping an address keeps every other key. -/
theorem mem_keys_unmap {addr : Address} (noFallback : core.NoFallback) (stored : core.addr? addr.key = some addr)
    {k : List Char} (other : k ≠ addr.key) : k ∈ (MobileSync.unmap core router addr).1.keys ↔ k ∈ core.keys := by
  unfold MobileSync.unmap
  dsimp only
  rw [mem_keys_checkAddr _ other, keys_setAddr]
  exact noFallback_setAddr noFallback (noFallback addr (mem_of_addr? stored).1) (mem_keys_of_addr? stored)

/-- The sweep over `core->addrs` never lands on a freed address, and keeps
`Loop` when it unmaps only mobile addresses that hold the router's bit: the
address it goes to next was read before the round and is not the one the
round may free. -/
theorem Counts.sweep {bit : Nat} {picked : Address → Bool}
    (holding : ∀ a, picked a = true → qcmMobileSyncAddrIsMobile a.key = true ∧ bit ∈ a.rnodes) :
    ∀ (fuel : Nat) (next : Option (List Char)) {core : Core} {r : RouterNode}, core.Counts r → r.maskBit = bit →
      (∀ k, next = some k → k ∈ core.keys) →
      ∃ state, MobileSync.sweep picked fuel next (core, r) = some state ∧ Loop core r state ∧ Fixed bit core state.1
  | 0, _, _, _, counts, _, _ => ⟨_, rfl, counts.loop, Fixed.refl _ _⟩
  | _ + 1, none, _, _, counts, _, _ => ⟨_, rfl, counts.loop, Fixed.refl _ _⟩
  | fuel + 1, some key, core, r, counts, isBit, present => by
      obtain ⟨addr, stored⟩ : ∃ addr, core.addr? key = some addr :=
        Option.isSome_iff_exists.mp (addr?_isSome_iff.mpr (present key rfl))
      obtain ⟨-, sameKey⟩ := mem_of_addr? stored
      have nextPresent := fun k (next : core.nextKey key = some k) => nextKey_mem counts.nodup next
      simp only [MobileSync.sweep, stored]
      by_cases isPicked : picked addr = true
      · rw [if_pos isPicked]
        obtain ⟨mobile, holds⟩ := holding addr isPicked
        obtain ⟨round, roundFixed⟩ := counts.unmap (sameKey ▸ stored) (isBit ▸ holds)
        obtain ⟨state, swept, loop, fixed⟩ := Counts.sweep holding fuel _ round.counts
          (round.recounted.maskBit.trans isBit) fun k next => by
            obtain ⟨inKeys, other⟩ := nextPresent k next
            exact (mem_keys_unmap counts.noFallback (sameKey ▸ stored) (sameKey ▸ other)).mpr inKeys
        exact ⟨state, swept, round.then loop, (isBit ▸ roundFixed mobile).trans fixed⟩
      · rw [if_neg isPicked]
        exact Counts.sweep holding fuel _ counts isBit fun k next => (nextPresent k next).1

/-- The sweep from the head of `core->addrs`. -/
theorem Counts.sweepAll (counts : core.Counts router) (picked : Address → Bool)
    (holding : ∀ a, picked a = true → qcmMobileSyncAddrIsMobile a.key = true ∧ router.maskBit ∈ a.rnodes) :
    ∃ state, MobileSync.sweepAll picked core router = some state ∧ Loop core router state ∧
      Fixed router.maskBit core state.1 :=
  Counts.sweep holding core.addrs.length _ counts rfl fun k head => by
    obtain ⟨a, isHead, rfl⟩ := Option.map_eq_some_iff.mp head
    exact mem_keys.mpr ⟨a, List.mem_of_mem_head? isHead, rfl⟩

/-! ### The handlers -/

/-- What a handler for `router` leaves before it writes the router back as
`router'`: the router counts the addresses holding its bit, has the bit and
the own address it had, and no other bit or router has moved. -/
structure Handled (core : Core) (router : RouterNode) (core' : Core) (router' : RouterNode) : Prop where
  counts : core'.Counts router'
  maskBit : router'.maskBit = router.maskBit
  owningAddr : router'.owningAddr = router.owningAddr
  moves : Moves router.maskBit core core'

/-- A handler that writes back the router with other fields than its count and
moves no address. -/
theorem Counts.handled {r : RouterNode} (counts : core.Counts router) (bit : r.maskBit = router.maskBit)
    (owner : r.owningAddr = router.owningAddr) (count : r.refCount = router.refCount) : Handled core router core r :=
  ⟨⟨counts.nodup, counts.noFallback, by rw [count, bit]; exact counts.exact⟩, bit, owner, Moves.refl _ core⟩

/-- The loops from a router with the bit and the own address of `router`. -/
theorem Loop.handled {start : RouterNode} {state : Core × RouterNode} (loop : Loop core start state)
    (bit : start.maskBit = router.maskBit) (owner : start.owningAddr = router.owningAddr) :
    Handled core router state.1 state.2 :=
  ⟨loop.counts, loop.recounted.maskBit.trans bit, loop.recounted.owningAddr.trans owner, bit ▸ loop.moves⟩

/-- `qcm_mobile_sync_on_mau_CT` once the router is found returns the addresses
its loops leave with the router written back: the marks of an absolute MAU
move no bit, the add and del loops keep `Loop`, the sweep of an absolute MAU
never lands on a freed address and unmaps only mobile addresses holding the
bit. -/
theorem Counts.applyMau (counts : core.Counts router) (body : Mau) (mobileSeq : UInt64) :
    ∃ core' router', applyMau core router body mobileSeq = some (core'.setRouter router') ∧
      Handled core router core' router' ∧
      ((∀ key ∈ (body.del.map MauField.items).getD [], qcmMobileSyncAddrIsMobile key = true) →
        Fixed router.maskBit core core') := by
  unfold MobileSync.applyMau
  by_cases outOfSequence : body.exist.isNone = true ∧ router.mobileSeq ≠ mobileSeq - 1
  · -- a MAR is requested and no address moves
    rw [if_pos outOfSequence]
    exact ⟨core, _, rfl, counts.handled rfl rfl rfl, fun _ => Fixed.refl _ core⟩
  · rw [if_neg outOfSequence]
    dsimp only
    have counted : core.Counts { router with maRequested := false, mobileSeq } :=
      ⟨counts.nodup, counts.noFallback, counts.exact⟩
    generalize hmarked : (if body.exist.isSome = true then ({ core with addrs := List.map _ core.addrs } : Core)
      else core) = marked
    have markedLoop : Loop core { router with maRequested := false, mobileSeq }
        (marked, { router with maRequested := false, mobileSeq }) ∧ Fixed router.maskBit core marked := by
      subst hmarked
      split_ifs
      · exact counted.map_addrs (fun a => by split_ifs <;> rfl) (fun a => by split_ifs <;> rfl)
          (fun a => by split_ifs <;> rfl)
      · exact ⟨counted.loop, Fixed.refl _ core⟩
    generalize pairHints _ body.hints = items
    obtain ⟨added, addedFixed⟩ := markedLoop.1.counts.foldl_mapAddress items
    generalize items.foldl _ _ = state at added addedFixed ⊢
    obtain ⟨core1, router1⟩ := state
    generalize (body.del.map MauField.items).getD [] = deleted
    obtain ⟨done, doneFixed⟩ := added.counts.foldl_unmapListed deleted
    generalize deleted.foldl _ _ = state at done doneFixed ⊢
    obtain ⟨core2, router2⟩ := state
    have upTo := (markedLoop.1.then added).then done
    have bit2 : router2.maskBit = router.maskBit := upTo.recounted.maskBit
    have fixedUpTo := fun mobile => markedLoop.2.trans (addedFixed.trans (added.recounted.maskBit ▸ doneFixed mobile))
    split_ifs
    · -- the sweep of an absolute MAU
      obtain ⟨⟨core3, router3⟩, swept, loop, fixed⟩ := done.counts.sweepAll
        (fun addr => qcmMobileSyncAddrIsMobile addr.key && router2.maskBit ∈ addr.rnodes && addr.toBeDeleted)
        (fun a isPicked => by
          simp only [Bool.and_eq_true, decide_eq_true_eq] at isPicked
          exact isPicked.1)
      rw [swept]
      exact ⟨core3, router3, rfl, (upTo.then loop).handled rfl rfl,
        fun mobile => (fixedUpTo mobile).trans (bit2 ▸ fixed)⟩
    · exact ⟨core2, router2, rfl, upTo.handled rfl rfl, fixedUpTo⟩

/-- From a core with distinct keys and no fallback address, in which the router
counts the addresses that hold its bit (`Counts`), every MAU for the router
returns, and leaves every stored router of the sender's bit counting the
addresses that hold the bit: the marks of an absolute MAU move no bit, the add
and del loops keep the count, the sweep of an absolute MAU never lands on a
freed address and unmaps only addresses holding the bit, and writing the router
back moves no address. -/
theorem mau_keeps_ref_count (router : RouterNode) (body : Mau) (mobileSeq : UInt64) (counts : core.Counts router) :
    ∃ core', applyMau core router body mobileSeq = some core' ∧
      ∀ r ∈ core'.routers, r.maskBit = router.maskBit → r.refCount = (core'.holders r.maskBit).card := by
  obtain ⟨core', router', applied, handled, -⟩ := counts.applyMau body mobileSeq
  exact ⟨_, applied, fun r stored bit => handled.counts.setRouter_exact stored (bit.trans handled.maskBit.symm)⟩

/-- A router at bit 1 counting the one address that holds its bit, and an
absolute MAU that lists `M0b` only, so that `M0a` is swept. -/
theorem mau_keeps_ref_count_absolute :
    Counts
        ⟨[{ key := ['M', '0', 'a'], treatment := .anycastClosest, rnodes := {1}, toBeDeleted := false,
            costEpoch := 0, refCount := 0, subscriptions := 0, rlinks := 0, inlinks := 0, trackedDeliveries := 0,
            coreEndpoint := false, fallback := none, fallbackFor := none }],
          [⟨['R', 'B'], 1, 1, 0, false, false⟩], .anycastClosest, fun _ => none⟩
        ⟨['R', 'B'], 1, 1, 0, false, false⟩ ∧
      ∃ core', applyMau
          ⟨[{ key := ['M', '0', 'a'], treatment := .anycastClosest, rnodes := {1}, toBeDeleted := false,
              costEpoch := 0, refCount := 0, subscriptions := 0, rlinks := 0, inlinks := 0, trackedDeliveries := 0,
              coreEndpoint := false, fallback := none, fallbackFor := none }],
            [⟨['R', 'B'], 1, 1, 0, false, false⟩], .anycastClosest, fun _ => none⟩
          ⟨['R', 'B'], 1, 1, 0, false, false⟩
          { id := some ['B'], mobileSeq := some 5, version := none, add := none, del := none,
            exist := some (.list [['M', '0', 'b']]), hints := none } 5 = some core' ∧
        ∀ r ∈ core'.routers, r.maskBit = 1 → r.refCount = (core'.holders r.maskBit).card :=
  (fun counts => ⟨counts, mau_keeps_ref_count _ _ 5 counts⟩)
    ⟨by decide, by unfold NoFallback; decide, by decide⟩

/-- A router flush returns the addresses its sweep leaves with the router
written back: the sweep unmaps only mobile addresses that hold the router's
bit. -/
theorem Counts.qcmMobileSyncOnRouterFlushCT (counts : core.Counts router) :
    ∃ core' router', qcmMobileSyncOnRouterFlushCT core router = some (core'.setRouter router') ∧
      Handled core router core' router' ∧ Fixed router.maskBit core core' := by
  have flushed : core.Counts { router with mobileSeq := 0 } := ⟨counts.nodup, counts.noFallback, counts.exact⟩
  obtain ⟨⟨core', router'⟩, swept, loop, fixed⟩ := flushed.sweepAll
    (fun addr => qcmMobileSyncAddrIsMobile addr.key && router.maskBit ∈ addr.rnodes)
    (fun a isPicked => by simpa only [Bool.and_eq_true, decide_eq_true_eq] using isPicked)
  unfold MobileSync.qcmMobileSyncOnRouterFlushCT
  dsimp only
  rw [swept]
  exact ⟨core', router', rfl, loop.handled rfl rfl, fixed⟩

end Core

end DispatchRouter.MobileSync
