/-
# Mobile sync over runs

What the core keeps over every run of router adds and deletes, MAUs and
flushes (`Core.Tracked`): distinct keys and no fallback address, one router per
mask bit, each router's `ref_count` the number of addresses that hold its bit,
no bit held but a stored router's, each router's bit held by its own address
and by the router-class addresses `Tqdrouter` and `Tqdrouter.ma`, and those
two stored. `qdr_route_table_setup_CT` leaves a core so. `qdr_add_router_CT`
sets a free bit in the three addresses and counts three. `qdr_del_router_CT`
clears it from the three, and its loop then clears it from the addresses while
the count lasts: the count is the number of addresses still holding it, so the
loop clears it from every one. A MAU or a flush moves only the sender's bit
(`Core.Handled`), and takes it from mobile addresses only.

That last part rests on the MAU: its del list is unmapped whatever the keys
are, and one that named `Tqdrouter` or a router's own address would take the
bit from it, so that the three clears of `qdr_del_router_CT` would clear one
bit too few and its loop stop one address short. The runs here are of MAUs
whose del lists name mobile addresses (`Action.Allowed`), as routers send them.
-/

import DispatchRouter.MobileSync.Count

namespace DispatchRouter.MobileSync

open Math

/-- The keys a MAU's del list names; none for the other actions. -/
def Action.delKeys : Action → List (List Char)
  | .mau body => (body.del.map MauField.items).getD []
  | _ => []

/-- A MAU whose del list names mobile addresses only, or another action. -/
def Action.Allowed (action : Action) : Prop :=
  ∀ key ∈ action.delKeys, qcmMobileSyncAddrIsMobile key = true

instance : DecidablePred Action.Allowed :=
  fun action => inferInstanceAs (Decidable (∀ key ∈ action.delKeys, qcmMobileSyncAddrIsMobile key = true))

/-- A router's own address, `R` and its id, is not mobile. -/
theorem not_mobile_of_head {key : List Char} (head : key.head? = some 'R') :
    qcmMobileSyncAddrIsMobile key = false := by
  cases key with
  | nil => cases head
  | cons c rest =>
      cases head
      rfl

theorem routerAddrT_not_mobile : qcmMobileSyncAddrIsMobile routerAddrT = false := by decide

theorem routermaAddrT_not_mobile : qcmMobileSyncAddrIsMobile routermaAddrT = false := by decide

/-- The router-class addresses are two, and neither is a router's own. -/
theorem routerAddrT_ne_routermaAddrT : routerAddrT ≠ routermaAddrT := by decide

theorem ne_routerAddrT_of_head {key : List Char} (head : key.head? = some 'R') : key ≠ routerAddrT := by
  rintro rfl
  exact absurd head (by decide)

theorem ne_routermaAddrT_of_head {key : List Char} (head : key.head? = some 'R') : key ≠ routermaAddrT := by
  rintro rfl
  exact absurd head (by decide)

namespace Core

variable {core : Core} {router : RouterNode} {bit : Nat}

/-! ### The routers by mask bit -/

theorem mem_of_router? (found : core.router? bit = some router) : router ∈ core.routers ∧ router.maskBit = bit :=
  ⟨List.mem_of_find?_eq_some found, by simpa using List.find?_some found⟩

theorem router?_eq_none_iff : core.router? bit = none ↔ ∀ r ∈ core.routers, r.maskBit ≠ bit := by
  simp [router?, List.find?_eq_none]

/-- Writing a router back keeps the mask bits. -/
theorem maskBits_setRouter (new : RouterNode) :
    (core.setRouter new).routers.map (·.maskBit) = core.routers.map (·.maskBit) := by
  simp only [setRouter, List.map_map]
  congr 1
  funext old
  by_cases same : old.maskBit = new.maskBit <;> simp [same]

/-- A router after the write is the new one, or a stored one of another bit. -/
theorem mem_setRouter {r new : RouterNode} (stored : r ∈ (core.setRouter new).routers) :
    r = new ∨ r ∈ core.routers ∧ r.maskBit ≠ new.maskBit := by
  obtain ⟨old, oldStored, rfl⟩ := List.mem_map.mp stored
  by_cases same : old.maskBit = new.maskBit
  · exact .inl (if_pos same)
  · rw [if_neg same]
    exact .inr ⟨oldStored, same⟩

theorem mem_setRouter_of_ne {r new : RouterNode} (stored : r ∈ core.routers) (other : r.maskBit ≠ new.maskBit) :
    r ∈ (core.setRouter new).routers :=
  List.mem_map.mpr ⟨r, stored, if_neg other⟩

theorem mem_setRouter_self {r new : RouterNode} (stored : r ∈ core.routers) (same : r.maskBit = new.maskBit) :
    new ∈ (core.setRouter new).routers :=
  List.mem_map.mpr ⟨r, stored, if_pos same⟩

/-! ### Setting and clearing a bit through a pointer -/

/-- `f` through the pointer of a stored address, where `f` keeps the key and
the fallback. -/
theorem modifyAddr_stored {key : List Char} (noFallback : core.NoFallback) (there : key ∈ core.keys)
    {f : Address → Address} (fKey : ∀ a, (f a).key = a.key) (fFallback : ∀ a, (f a).fallback = a.fallback) :
    ∃ old, core.addr? (f old).key = some old ∧ (f old).key = key ∧
      core.modifyAddr key f = some (core.setAddr (f old)) ∧ (core.setAddr (f old)).NoFallback := by
  obtain ⟨old, found⟩ := Option.isSome_iff_exists.mp (addr?_isSome_iff.mpr there)
  obtain ⟨stored, oldKey⟩ := mem_of_addr? found
  have sameKey : (f old).key = key := (fKey old).trans oldKey
  refine ⟨old, sameKey ▸ found, sameKey, modifyAddr_of_addr? found, ?_⟩
  exact noFallback_setAddr noFallback ((fFallback old).trans (noFallback old stored)) (sameKey ▸ there)

/-- `f` adds `bit` to a stored address: its key joins the bit's holders, and
nothing else moves. -/
theorem modifyAddr_insert {key : List Char} (nodup : core.keys.Nodup) (noFallback : core.NoFallback)
    (there : key ∈ core.keys) {f : Address → Address} (fKey : ∀ a, (f a).key = a.key)
    (fFallback : ∀ a, (f a).fallback = a.fallback) (fRnodes : ∀ a, (f a).rnodes = insert bit a.rnodes) :
    ∃ core', core.modifyAddr key f = some core' ∧ core'.keys = core.keys ∧ core'.NoFallback ∧
      core'.routers = core.routers ∧
      ∀ c, core'.holders c = if c = bit then insert key (core.holders c) else core.holders c := by
  obtain ⟨old, found, sameKey, modified, noFallback'⟩ := modifyAddr_stored noFallback there fKey fFallback
  refine ⟨_, modified, keys_setAddr, noFallback', rfl, fun c => ?_⟩
  split_ifs with same
  · rw [holders_setAddr (mem_keys_of_addr? found), if_pos (by rw [fRnodes, same]; exact Finset.mem_insert_self _ _),
      sameKey]
  · exact holders_setAddr_of_mem_iff nodup found (by rw [fRnodes, Finset.mem_insert, or_iff_right same])

/-- `f` takes `bit` from a stored address: its key leaves the bit's holders,
and nothing else moves. -/
theorem modifyAddr_erase {key : List Char} (nodup : core.keys.Nodup) (noFallback : core.NoFallback)
    (there : key ∈ core.keys) {f : Address → Address} (fKey : ∀ a, (f a).key = a.key)
    (fFallback : ∀ a, (f a).fallback = a.fallback) (fRnodes : ∀ a, (f a).rnodes = a.rnodes.erase bit) :
    ∃ core', core.modifyAddr key f = some core' ∧ core'.keys = core.keys ∧ core'.NoFallback ∧
      core'.routers = core.routers ∧
      ∀ c, core'.holders c = if c = bit then (core.holders c).erase key else core.holders c := by
  obtain ⟨old, found, sameKey, modified, noFallback'⟩ := modifyAddr_stored noFallback there fKey fFallback
  refine ⟨_, modified, keys_setAddr, noFallback', rfl, fun c => ?_⟩
  split_ifs with same
  · rw [holders_setAddr (mem_keys_of_addr? found), if_neg (by rw [fRnodes, same]; exact Finset.notMem_erase _ _),
      sameKey]
  · exact holders_setAddr_of_mem_iff nodup found (by rw [fRnodes, Finset.mem_erase, and_iff_right same])

/-- `f` keeps the bits of a stored address: no holders move. -/
theorem modifyAddr_rnodes {key : List Char} (nodup : core.keys.Nodup) (noFallback : core.NoFallback)
    (there : key ∈ core.keys) {f : Address → Address} (fKey : ∀ a, (f a).key = a.key)
    (fFallback : ∀ a, (f a).fallback = a.fallback) (fRnodes : ∀ a, (f a).rnodes = a.rnodes) :
    ∃ core', core.modifyAddr key f = some core' ∧ core'.keys = core.keys ∧ core'.NoFallback ∧
      core'.routers = core.routers ∧ ∀ c, core'.holders c = core.holders c := by
  obtain ⟨old, found, -, modified, noFallback'⟩ := modifyAddr_stored noFallback there fKey fFallback
  exact ⟨_, modified, keys_setAddr, noFallback', rfl, fun c => holders_setAddr_of_rnodes nodup found (fRnodes old)⟩

/-! ### The loop of `qdr_del_router_CT` -/

/-- With the count the number of addresses holding the bit, the loop of
`qdr_del_router_CT` clears it from every address: by induction on the
addresses, the count drops at each one that held it and is zero only past the
last. -/
theorem clearWhileReferenced_eq (bit : Nat) :
    ∀ (addrs : List Address) (refCount : Nat), (addrs.filter fun a => bit ∈ a.rnodes).length = refCount →
      (clearWhileReferenced bit addrs refCount).1 = addrs.map fun a => { a with rnodes := a.rnodes.erase bit }
  | [], _, _ => rfl
  | a :: addrs, refCount, counted => by
      by_cases positive : refCount > 0
      · have rest : (addrs.filter fun a => bit ∈ a.rnodes).length =
            if bit ∈ a.rnodes then refCount - 1 else refCount := by
          by_cases holds : bit ∈ a.rnodes
          · rw [List.filter_cons_of_pos (by simpa using holds), List.length_cons] at counted
            rw [if_pos holds]
            omega
          · rw [List.filter_cons_of_neg (by simpa using holds)] at counted
            rw [if_neg holds]
            exact counted
        simp only [clearWhileReferenced, if_pos positive, List.map_cons, clearWhileReferenced_eq bit addrs _ rest]
      · -- the count is zero, so no address holds the bit and clearing it changes none
        have none : ∀ b ∈ a :: addrs, bit ∉ b.rnodes := by
          intro b stored holds
          have empty : ((a :: addrs).filter fun a => bit ∈ a.rnodes) = [] := List.length_eq_zero_iff.mp (by omega)
          have inFilter : b ∈ (a :: addrs).filter fun a => bit ∈ a.rnodes :=
            List.mem_filter.mpr ⟨stored, by simpa using holds⟩
          rw [empty] at inFilter
          exact List.not_mem_nil inFilter
        simp only [clearWhileReferenced, if_neg positive]
        refine ((List.map_congr_left fun b stored => ?_).trans (List.map_id _)).symm
        rw [Finset.erase_eq_of_notMem (none b stored)]
        rfl

/-- The bit cleared from every address: none holds it, and every other bit
keeps its holders. -/
theorem clearBit_spec {core' : Core}
    (cleared : core'.addrs = core.addrs.map fun a => { a with rnodes := a.rnodes.erase bit }) :
    core'.keys = core.keys ∧ (core.NoFallback → core'.NoFallback) ∧
      ∀ c, core'.holders c = if c = bit then ∅ else core.holders c := by
  refine ⟨by simp [keys, cleared, Function.comp_def], fun noFallback b stored => ?_, fun c => ?_⟩
  · rw [cleared] at stored
    obtain ⟨a, inCore, rfl⟩ := List.mem_map.mp stored
    exact noFallback a inCore
  · ext k
    by_cases same : c = bit
    · simp [mem_holders, cleared, same]
    · simp [mem_holders, cleared, same]

/-! ### What a run keeps -/

/-- What the core keeps over a run. -/
structure Tracked (core : Core) : Prop where
  nodup : core.keys.Nodup
  noFallback : core.NoFallback
  bits : (core.routers.map (·.maskBit)).Nodup
  exact : ∀ r ∈ core.routers, r.refCount = (core.holders r.maskBit).card
  owned : ∀ bit key, key ∈ core.holders bit → ∃ r ∈ core.routers, r.maskBit = bit
  linked : ∀ r ∈ core.routers, r.owningAddr ∈ core.holders r.maskBit ∧ routerAddrT ∈ core.holders r.maskBit ∧
    routermaAddrT ∈ core.holders r.maskBit
  owners : ∀ r ∈ core.routers, r.owningAddr.head? = some 'R'
  classes : routerAddrT ∈ core.keys ∧ routermaAddrT ∈ core.keys

theorem Tracked.counts (tracked : core.Tracked) (stored : router ∈ core.routers) : core.Counts router :=
  ⟨tracked.nodup, tracked.noFallback, tracked.exact router stored⟩

/-- A core with no router, whose addresses hold no bit and have no fallback. -/
structure Bare (core : Core) : Prop where
  routers : core.routers = []
  addrs : ∀ a ∈ core.addrs, a.rnodes = ∅ ∧ a.fallback = none

/-- `qdr_add_local_address_CT` makes an address that holds no bit and has no
fallback. -/
theorem Bare.qdrAddLocalAddressCT (bare : core.Bare) (aclass : Char) (address : List Char)
    (treatment : Treatment) : (MobileSync.qdrAddLocalAddressCT core aclass address treatment).Bare := by
  unfold MobileSync.qdrAddLocalAddressCT
  dsimp only
  split_ifs
  · exact bare
  · cases made : qdrAddressCT (aclass :: address) treatment with
    | none => exact bare
    | some b =>
        obtain ⟨-, empty, none⟩ := qdrAddressCT_fresh made
        refine ⟨bare.routers, fun a stored => ?_⟩
        rcases List.mem_append.mp stored with stored | single
        · exact bare.addrs a stored
        · rw [List.mem_singleton.mp single]
          exact ⟨empty, none⟩

/-- A bare core with distinct keys and the router-class addresses is tracked. -/
theorem Bare.tracked (bare : core.Bare) (nodup : core.keys.Nodup)
    (classes : routerAddrT ∈ core.keys ∧ routermaAddrT ∈ core.keys) : core.Tracked := by
  have none : ∀ r, r ∉ core.routers := fun r stored => by
    rw [bare.routers] at stored
    exact List.not_mem_nil stored
  refine ⟨nodup, fun a stored => (bare.addrs a stored).2, by rw [bare.routers]; exact List.nodup_nil,
    fun r stored => absurd stored (none r), fun bit key held => ?_, fun r stored => absurd stored (none r),
    fun r stored => absurd stored (none r), classes⟩
  obtain ⟨a, stored, -, holds⟩ := mem_holders.mp held
  rw [(bare.addrs a stored).1] at holds
  exact absurd holds (Finset.notMem_empty bit)

theorem keys_qdrRouteTableSetupCT (defaultTreatment : Treatment) (configTreatment : List Char → Option Treatment) :
    (qdrRouteTableSetupCT defaultTreatment configTreatment).keys =
      ["Lqdhello".toList, "Lqdrouter".toList, "Lqdrouter.ma".toList, routerAddrT, routermaAddrT] :=
  rfl

/-- The core `qdr_route_table_setup_CT` leaves is tracked: no router yet, and
no address holds a bit. -/
theorem tracked_qdrRouteTableSetupCT (defaultTreatment : Treatment)
    (configTreatment : List Char → Option Treatment) :
    (qdrRouteTableSetupCT defaultTreatment configTreatment).Tracked := by
  have start : Bare ⟨[], [], defaultTreatment, configTreatment⟩ := ⟨rfl, fun _ stored => absurd stored List.not_mem_nil⟩
  have bare : (qdrRouteTableSetupCT defaultTreatment configTreatment).Bare := by
    unfold qdrRouteTableSetupCT
    exact ((((start.qdrAddLocalAddressCT _ _ _).qdrAddLocalAddressCT _ _ _).qdrAddLocalAddressCT _ _ _).qdrAddLocalAddressCT
      _ _ _).qdrAddLocalAddressCT _ _ _
  refine bare.tracked ?_ ?_ <;> rw [keys_qdrRouteTableSetupCT] <;> decide

/-! ### One step -/

/-- A handler for a stored router that moves only its bit, takes it from no
address that is not mobile and writes the router back keeps the core tracked. -/
theorem Tracked.setRouter {core' : Core} {router' : RouterNode} (tracked : core.Tracked)
    (stored : router ∈ core.routers) (handled : Handled core router core' router')
    (fixed : Fixed router.maskBit core core') : (core'.setRouter router').Tracked := by
  have routers := handled.moves.routers
  have stored' : router ∈ core'.routers := by
    rw [routers]
    exact stored
  -- the addresses that are not mobile keep the sender's bit, and every other bit its holders
  have kept : ∀ key, qcmMobileSyncAddrIsMobile key = false → key ∈ core.holders router.maskBit →
      key ∈ (core'.setRouter router').holders router'.maskBit := fun key notMobile held => by
    rw [holders_setRouter, handled.maskBit]
    exact fixed key notMobile held
  have others : ∀ c ≠ router'.maskBit, (core'.setRouter router').holders c = core.holders c := fun c other => by
    rw [holders_setRouter]
    exact handled.moves.others c (handled.maskBit ▸ other)
  obtain ⟨ownHeld, tHeld, tmaHeld⟩ := tracked.linked router stored
  refine ⟨handled.counts.nodup, handled.counts.noFallback, ?_, fun r inRouters => ?_, fun c key held => ?_,
    fun r inRouters => ?_, fun r inRouters => ?_, ?_⟩
  · rw [maskBits_setRouter, routers]
    exact tracked.bits
  · rcases mem_setRouter inRouters with rfl | ⟨inCore, other⟩
    · exact handled.counts.exact
    · rw [others _ other]
      exact tracked.exact r (routers ▸ inCore)
  · by_cases same : c = router'.maskBit
    · exact ⟨router', mem_setRouter_self stored' handled.maskBit.symm, same.symm⟩
    · rw [others c same] at held
      obtain ⟨r, inCore, isBit⟩ := tracked.owned c key held
      exact ⟨r, mem_setRouter_of_ne (routers ▸ inCore) (isBit ▸ same), isBit⟩
  · rcases mem_setRouter inRouters with rfl | ⟨inCore, other⟩
    · rw [handled.owningAddr]
      exact ⟨kept _ (not_mobile_of_head (tracked.owners router stored)) ownHeld,
        kept _ routerAddrT_not_mobile tHeld, kept _ routermaAddrT_not_mobile tmaHeld⟩
    · rw [others _ other]
      exact tracked.linked r (routers ▸ inCore)
  · rcases mem_setRouter inRouters with rfl | ⟨inCore, -⟩
    · rw [handled.owningAddr]
      exact tracked.owners router stored
    · exact tracked.owners r (routers ▸ inCore)
  · exact ⟨mem_keys_of_mem_holders (kept _ routerAddrT_not_mobile tHeld),
      mem_keys_of_mem_holders (kept _ routermaAddrT_not_mobile tmaHeld)⟩

/-- A MAU whose del list names mobile addresses only returns and keeps the
core tracked: a newer protocol version is logged on the router, a malformed
body is dropped, and the handler moves only the sender's bit. -/
theorem Tracked.qcmMobileSyncOnMauCT (tracked : core.Tracked) (body : Mau)
    (mobile : ∀ key ∈ (body.del.map MauField.items).getD [], qcmMobileSyncAddrIsMobile key = true) :
    ∃ core', qcmMobileSyncOnMauCT core body = some core' ∧ core'.Tracked := by
  unfold MobileSync.qcmMobileSyncOnMauCT
  split
  case h_2 => exact ⟨core, rfl, tracked⟩
  case h_1 id mobileSeq _ _ =>
    cases found : qdcMobileSyncRouterById core id with
    | none => exact ⟨core, rfl, tracked⟩
    | some router =>
        have stored : router ∈ core.routers := List.mem_of_find?_eq_some found
        have counts := tracked.counts stored
        dsimp only
        split_ifs
        · exact ⟨_, rfl, tracked.setRouter stored (counts.handled rfl rfl rfl) (Fixed.refl _ core)⟩
        · exact ⟨core, rfl, tracked⟩
        · obtain ⟨core', router', applied, handled, fixed⟩ := counts.applyMau body mobileSeq
          exact ⟨_, applied, tracked.setRouter stored handled (fixed mobile)⟩

/-- A flush returns and keeps the core tracked: its sweep moves only the
router's bit, from mobile addresses. -/
theorem Tracked.flush (tracked : core.Tracked) (maskBit : Nat) :
    ∃ core', core.step (.flush maskBit) = some core' ∧ core'.Tracked := by
  simp only [Core.step]
  cases found : core.router? maskBit with
  | none => exact ⟨core, rfl, tracked⟩
  | some router =>
      have stored := (mem_of_router? found).1
      obtain ⟨core', router', flushed, handled, fixed⟩ := (tracked.counts stored).qcmMobileSyncOnRouterFlushCT
      exact ⟨_, flushed, tracked.setRouter stored handled fixed⟩

/-! ### Adding and deleting a router -/

/-- The core with one router more, of a bit no stored router has, that only its
own address and the two router-class addresses hold, and that counts them. -/
theorem Tracked.of_added {core' : Core} (new : RouterNode) (tracked : core.Tracked) (nodup : core'.keys.Nodup)
    (noFallback : core'.NoFallback) (keys : ∀ k ∈ core.keys, k ∈ core'.keys)
    (routers : core'.routers = new :: core.routers) (free : ∀ r ∈ core.routers, r.maskBit ≠ new.maskBit)
    (three : new.refCount = 3) (owner : new.owningAddr.head? = some 'R')
    (heldBy : core'.holders new.maskBit = insert routermaAddrT (insert routerAddrT {new.owningAddr}))
    (others : ∀ c ≠ new.maskBit, core'.holders c = core.holders c) : core'.Tracked := by
  have counted : (core'.holders new.maskBit).card = 3 := by
    have tOwn : routerAddrT ∉ ({new.owningAddr} : Finset (List Char)) := by
      simpa using (ne_routerAddrT_of_head owner).symm
    have tmaOthers : routermaAddrT ∉ (insert routerAddrT {new.owningAddr} : Finset (List Char)) := by
      simpa using ⟨routerAddrT_ne_routermaAddrT.symm, (ne_routermaAddrT_of_head owner).symm⟩
    rw [heldBy, Finset.card_insert_of_notMem tmaOthers, Finset.card_insert_of_notMem tOwn, Finset.card_singleton]
  refine ⟨nodup, noFallback, ?_, fun r stored => ?_, fun c key held => ?_, fun r stored => ?_,
    fun r stored => ?_, ⟨keys _ tracked.classes.1, keys _ tracked.classes.2⟩⟩
  · rw [routers, List.map_cons, List.nodup_cons]
    refine ⟨fun taken => ?_, tracked.bits⟩
    obtain ⟨r, stored, isBit⟩ := List.mem_map.mp taken
    exact free r stored isBit
  · rw [routers] at stored
    rcases List.mem_cons.mp stored with rfl | inCore
    · rw [three, counted]
    · rw [others _ (free r inCore)]
      exact tracked.exact r inCore
  · by_cases same : c = new.maskBit
    · exact ⟨new, by rw [routers]; exact List.mem_cons_self, same.symm⟩
    · rw [others c same] at held
      obtain ⟨r, inCore, isBit⟩ := tracked.owned c key held
      exact ⟨r, by rw [routers]; exact List.mem_cons_of_mem _ inCore, isBit⟩
  · rw [routers] at stored
    rcases List.mem_cons.mp stored with rfl | inCore
    · rw [heldBy]
      simp
    · rw [others _ (free r inCore)]
      exact tracked.linked r inCore
  · rw [routers] at stored
    rcases List.mem_cons.mp stored with rfl | inCore
    · exact owner
    · exact tracked.owners r inCore

/-- The core with the routers of `bit` gone, and no address holding it. -/
theorem Tracked.of_deleted {core' : Core} (tracked : core.Tracked) (nodup : core'.keys.Nodup)
    (noFallback : core'.NoFallback) (routers : core'.routers = core.routers.filter (·.maskBit ≠ bit))
    (holders : ∀ c, core'.holders c = if c = bit then ∅ else core.holders c)
    (classes : routerAddrT ∈ core'.keys ∧ routermaAddrT ∈ core'.keys) : core'.Tracked := by
  have stays : ∀ r ∈ core'.routers, r ∈ core.routers ∧ r.maskBit ≠ bit := fun r stored => by
    rw [routers, List.mem_filter, decide_eq_true_iff] at stored
    exact stored
  refine ⟨nodup, noFallback, ?_, fun r stored => ?_, fun c key held => ?_, fun r stored => ?_,
    fun r stored => tracked.owners r (stays r stored).1, classes⟩
  · rw [routers]
    exact tracked.bits.sublist (List.filter_sublist.map _)
  · obtain ⟨inCore, other⟩ := stays r stored
    rw [holders, if_neg other]
    exact tracked.exact r inCore
  · rw [holders] at held
    split_ifs at held with same
    · exact absurd held (Finset.notMem_empty key)
    · obtain ⟨r, inCore, isBit⟩ := tracked.owned c key held
      refine ⟨r, ?_, isBit⟩
      rw [routers, List.mem_filter, decide_eq_true_iff]
      exact ⟨inCore, isBit ▸ same⟩
  · obtain ⟨inCore, other⟩ := stays r stored
    rw [holders, if_neg other]
    exact tracked.linked r inCore

/-- `qdr_add_router_CT` returns and keeps the core tracked: a bit in range that
no router has is held by no address, and the router starts counting the three
addresses it sets it in. -/
theorem Tracked.qdrAddRouterCT (tracked : core.Tracked) (maskBit : Int) (id : List Char) :
    ∃ core', MobileSync.qdrAddRouterCT core maskBit ('R' :: id) = some core' ∧ core'.Tracked := by
  unfold MobileSync.qdrAddRouterCT
  by_cases outOfRange : maskBit ≥ Bitmask.qdBitmaskWidth ∨ maskBit < 0
  · exact ⟨core, if_pos outOfRange, tracked⟩
  rw [if_neg outOfRange]
  by_cases taken : (core.router? maskBit.toNat).isSome = true
  · exact ⟨core, if_pos taken, tracked⟩
  rw [if_neg taken]
  dsimp only
  set bit := maskBit.toNat
  -- no router has the bit, so no address holds it
  have free : ∀ r ∈ core.routers, r.maskBit ≠ bit :=
    router?_eq_none_iff.mp (Option.not_isSome_iff_eq_none.mp taken)
  have unheld : core.holders bit = ∅ := Finset.eq_empty_of_forall_notMem fun key held => by
    obtain ⟨r, stored, isBit⟩ := tracked.owned bit key held
    exact free r stored isBit
  -- the router's own address, made when there is none
  generalize hmade : (if (core.addr? ('R' :: id)).isSome = true then core else _) = made
  obtain ⟨madeNodup, madeFallback, madeKeys, madeOwn, madeHolders, madeRouters⟩ :
      made.keys.Nodup ∧ made.NoFallback ∧ (∀ k ∈ core.keys, k ∈ made.keys) ∧ ('R' :: id) ∈ made.keys ∧
        (∀ c, made.holders c = core.holders c) ∧ made.routers = core.routers := by
    subst hmade
    split_ifs with present
    · exact ⟨tracked.nodup, tracked.noFallback, fun _ inKeys => inKeys, addr?_isSome_iff.mp present, fun _ => rfl,
        rfl⟩
    · have absent : ('R' :: id) ∉ core.keys := fun inKeys => present (addr?_isSome_iff.mpr inKeys)
      obtain ⟨b, isMade⟩ : ∃ b, qdrAddressCT ('R' :: id) .anycastClosest = some b := ⟨_, rfl⟩
      obtain ⟨bKey, empty, none⟩ := qdrAddressCT_fresh isMade
      rw [isMade]
      refine ⟨nodup_append tracked.nodup (bKey ▸ absent), noFallback_append tracked.noFallback none,
        fun k inKeys => ?_, ?_, fun _ => holders_append empty, rfl⟩
      · rw [keys_append]
        exact List.mem_append_left _ inKeys
      · rw [keys_append, bKey]
        exact List.mem_append_right _ (List.mem_singleton_self _)
  -- the bit set in the own address and the two router-class addresses
  obtain ⟨core1, modified1, keys1, fallback1, routers1, holders1⟩ := modifyAddr_insert madeNodup madeFallback madeOwn
    (f := fun a => { a with refCount := a.refCount + 1, rnodes := insert bit a.rnodes }) (fun _ => rfl)
    (fun _ => rfl) (fun _ => rfl)
  obtain ⟨core2, modified2, keys2, fallback2, routers2, holders2⟩ := modifyAddr_insert (keys1 ▸ madeNodup) fallback1
    (keys1 ▸ madeKeys _ tracked.classes.1) (f := fun a => { a with rnodes := insert bit a.rnodes }) (fun _ => rfl)
    (fun _ => rfl) (fun _ => rfl)
  obtain ⟨core3, modified3, keys3, fallback3, routers3, holders3⟩ := modifyAddr_insert
    (keys2 ▸ keys1 ▸ madeNodup) fallback2 (keys2 ▸ keys1 ▸ madeKeys _ tracked.classes.2)
    (f := fun a => { a with rnodes := insert bit a.rnodes }) (fun _ => rfl) (fun _ => rfl) (fun _ => rfl)
  refine ⟨{ core3 with routers := ⟨'R' :: id, bit, 3, 0, false, false⟩ :: core3.routers },
    by simp only [modified1, modified2, modified3, Option.bind_eq_bind, Option.bind_some, Option.pure_def], ?_⟩
  refine tracked.of_added ⟨'R' :: id, bit, 3, 0, false, false⟩ (keys3 ▸ keys2 ▸ keys1 ▸ madeNodup) fallback3
    (fun k inKeys => ?_) ?_ free rfl rfl ?_ fun c other => ?_
  · show k ∈ core3.keys
    rw [keys3, keys2, keys1]
    exact madeKeys k inKeys
  · show _ :: core3.routers = _
    rw [routers3, routers2, routers1, madeRouters]
  · show core3.holders bit = _
    rw [holders3, holders2, holders1, madeHolders, unheld, if_pos rfl, if_pos rfl, if_pos rfl, Finset.insert_empty]
  · show core3.holders c = _
    rw [holders3, holders2, holders1, madeHolders, if_neg other, if_neg other, if_neg other]

/-- `qdr_del_router_CT` returns and keeps the core tracked: the three clears
leave the count the number of addresses still holding the bit, so its loop
clears the bit from all of them, and the router goes. -/
theorem Tracked.qdrDelRouterCT (tracked : core.Tracked) (maskBit : Int) :
    ∃ core', MobileSync.qdrDelRouterCT core maskBit = some core' ∧ core'.Tracked := by
  unfold MobileSync.qdrDelRouterCT
  by_cases outOfRange : maskBit ≥ Bitmask.qdBitmaskWidth ∨ maskBit < 0
  · exact ⟨core, if_pos outOfRange, tracked⟩
  rw [if_neg outOfRange]
  rcases found : core.router? maskBit.toNat with _ | rnode
  · exact ⟨core, rfl, tracked⟩
  obtain ⟨stored, -⟩ := mem_of_router? found
  dsimp only
  set bit := rnode.maskBit
  obtain ⟨ownHeld, tHeld, tmaHeld⟩ := tracked.linked rnode stored
  have ownHead := tracked.owners rnode stored
  -- the bit cleared from the own address and the two router-class addresses
  obtain ⟨core1, modified1, keys1, fallback1, routers1, holders1⟩ := modifyAddr_erase tracked.nodup
    tracked.noFallback (mem_keys_of_mem_holders ownHeld) (f := fun a => { a with rnodes := a.rnodes.erase bit })
    (fun _ => rfl) (fun _ => rfl) (fun _ => rfl)
  obtain ⟨core2, modified2, keys2, fallback2, routers2, holders2⟩ := modifyAddr_erase (keys1 ▸ tracked.nodup)
    fallback1 (keys1 ▸ mem_keys_of_mem_holders tHeld) (f := fun a => { a with rnodes := a.rnodes.erase bit })
    (fun _ => rfl) (fun _ => rfl) (fun _ => rfl)
  obtain ⟨core3, modified3, keys3, fallback3, routers3, holders3⟩ := modifyAddr_erase
    (keys2 ▸ keys1 ▸ tracked.nodup) fallback2 (keys2 ▸ keys1 ▸ mem_keys_of_mem_holders tmaHeld)
    (f := fun a => { a with rnodes := a.rnodes.erase bit }) (fun _ => rfl) (fun _ => rfl) (fun _ => rfl)
  have nodup3 : core3.keys.Nodup := keys3 ▸ keys2 ▸ keys1 ▸ tracked.nodup
  -- the count is now the number of addresses that still hold the bit
  have counted : (core3.addrs.filter fun a => bit ∈ a.rnodes).length = rnode.refCount - 3 := by
    have tOther : routerAddrT ∈ (core.holders bit).erase rnode.owningAddr :=
      Finset.mem_erase.mpr ⟨(ne_routerAddrT_of_head ownHead).symm, tHeld⟩
    have tmaOther : routermaAddrT ∈ ((core.holders bit).erase rnode.owningAddr).erase routerAddrT :=
      Finset.mem_erase.mpr ⟨routerAddrT_ne_routermaAddrT.symm,
        Finset.mem_erase.mpr ⟨(ne_routermaAddrT_of_head ownHead).symm, tmaHeld⟩⟩
    rw [← card_holders nodup3, holders3, holders2, holders1, if_pos rfl, if_pos rfl, if_pos rfl,
      Finset.card_erase_of_mem tmaOther, Finset.card_erase_of_mem tOther, Finset.card_erase_of_mem ownHeld,
      ← tracked.exact rnode stored]
    omega
  simp only [modified1, modified2, modified3, Option.bind_eq_bind, Option.bind_some]
  rw [clearWhileReferenced_eq bit core3.addrs _ counted]
  -- the loop clears the bit from every address, and the router goes
  set core4 : Core := { core3 with
    addrs := core3.addrs.map fun a => { a with rnodes := a.rnodes.erase bit }
    routers := core3.routers.filter (·.maskBit ≠ bit) }
  have cleared : core4.addrs = core3.addrs.map fun a => { a with rnodes := a.rnodes.erase bit } := rfl
  obtain ⟨keys4, fallback4, holders4⟩ := clearBit_spec cleared
  -- the own address referenced once less, then checked
  obtain ⟨core5, modified5, keys5, fallback5, routers5, holders5⟩ := modifyAddr_rnodes (keys4 ▸ nodup3)
    (fallback4 fallback3) (keys4 ▸ keys3 ▸ keys2 ▸ keys1 ▸ mem_keys_of_mem_holders ownHeld)
    (f := fun a => { a with refCount := a.refCount - 1 }) (fun _ => rfl) (fun _ => rfl) (fun _ => rfl)
  refine ⟨checkAddr core5 rnode.owningAddr, by simp only [modified5, Option.bind_some, Option.pure_def], ?_⟩
  have nodup5 : core5.keys.Nodup := keys5 ▸ keys4 ▸ nodup3
  have kept : ∀ k ≠ rnode.owningAddr, k ∈ core.keys → k ∈ (checkAddr core5 rnode.owningAddr).keys :=
    fun k other inKeys => by
      rw [mem_keys_checkAddr fallback5 other, keys5, keys4, keys3, keys2, keys1]
      exact inKeys
  have routersAre : (checkAddr core5 rnode.owningAddr).routers = core.routers.filter (·.maskBit ≠ bit) := by
    rw [checkAddr_routers fallback5, routers5]
    show core3.routers.filter _ = _
    rw [routers3, routers2, routers1]
  have holdersAre : ∀ c, (checkAddr core5 rnode.owningAddr).holders c = if c = bit then ∅ else core.holders c := by
    intro c
    rw [holders_checkAddr nodup5 fallback5, holders5, holders4]
    split_ifs with same
    · rfl
    · rw [holders3, holders2, holders1, if_neg same, if_neg same, if_neg same]
  exact tracked.of_deleted (checkAddr_keys_nodup nodup5 fallback5) (noFallback_checkAddr fallback5) routersAre
    holdersAre ⟨kept _ (ne_routerAddrT_of_head ownHead).symm tracked.classes.1,
      kept _ (ne_routermaAddrT_of_head ownHead).symm tracked.classes.2⟩

/-- Every allowed action returns and keeps the core tracked. -/
theorem Tracked.step (tracked : core.Tracked) (action : Action) (allowed : action.Allowed) :
    ∃ core', core.step action = some core' ∧ core'.Tracked := by
  cases action with
  | addRouter maskBit id => exact tracked.qdrAddRouterCT maskBit id
  | delRouter maskBit => exact tracked.qdrDelRouterCT maskBit
  | mau body => exact tracked.qcmMobileSyncOnMauCT body allowed
  | flush maskBit => exact tracked.flush maskBit

/-! ### Runs -/

theorem run_eq_foldlM (core : Core) (actions : List Action) : core.run actions = actions.foldlM Core.step core := by
  induction actions generalizing core with
  | nil => rfl
  | cons action actions ih =>
      simp only [Core.run, List.foldlM_cons, ih]
      rfl

/-- Every run of allowed actions from a tracked core returns: the core never
dereferences a freed or missing address. And it leaves the core tracked: every
router counts the addresses that hold its bit, and only stored routers' bits
are held. -/
theorem runs_keep_ref_counts (tracked : core.Tracked) (actions : List Action)
    (allowed : ∀ action ∈ actions, action.Allowed) :
    ∃ core', core.run actions = some core' ∧ core'.Tracked := by
  rw [run_eq_foldlM]
  exact Mealy.foldlM_invariant Core.step (fun core action (tracked : core.Tracked) allowed => tracked.step action allowed)
    actions tracked allowed

/-- From the core `qdr_route_table_setup_CT` leaves: the router `B` added at
bit 1, an absolute MAU from it listing `M0a`, a differential one deleting it,
a flush and the router deleted. -/
theorem runs_keep_ref_counts_setup :
    (qdrRouteTableSetupCT .anycastBalanced fun _ => none).Tracked ∧
      (∀ action ∈ [.addRouter 1 ['B'],
        .mau { id := some ['B'], mobileSeq := some 1, version := none, add := none, del := none,
               exist := some (.list [['M', '0', 'a']]), hints := none },
        .mau { id := some ['B'], mobileSeq := some 2, version := none, add := some (.list []),
               del := some (.list [['M', '0', 'a']]), exist := none, hints := none },
        .flush 1, .delRouter 1], Action.Allowed action) ∧
      ∃ core', (qdrRouteTableSetupCT .anycastBalanced fun _ => none).run [.addRouter 1 ['B'],
          .mau { id := some ['B'], mobileSeq := some 1, version := none, add := none, del := none,
                 exist := some (.list [['M', '0', 'a']]), hints := none },
          .mau { id := some ['B'], mobileSeq := some 2, version := none, add := some (.list []),
                 del := some (.list [['M', '0', 'a']]), exist := none, hints := none },
          .flush 1, .delRouter 1] = some core' ∧ core'.Tracked :=
  have tracked := tracked_qdrRouteTableSetupCT .anycastBalanced fun _ => none
  have allowed : ∀ action ∈ [.addRouter 1 ['B'],
      .mau { id := some ['B'], mobileSeq := some 1, version := none, add := none, del := none,
             exist := some (.list [['M', '0', 'a']]), hints := none },
      .mau { id := some ['B'], mobileSeq := some 2, version := none, add := some (.list []),
             del := some (.list [['M', '0', 'a']]), exist := none, hints := none },
      .flush 1, .delRouter 1], Action.Allowed action := by decide
  ⟨tracked, allowed, runs_keep_ref_counts tracked _ allowed⟩

end Core

end DispatchRouter.MobileSync
