/-
# Mobile-address sync (`mobile.c`) and the core records it counts on

`modules/mobile_sync/mobile.c`, with the parts of `route_tables.c` and
`router_core.c` it relies on. The core keeps its addresses in `core->addrs`,
hashed by key in `core->addr_hash`, and a `qdr_node_t` for each remote router.
An address's `rnodes` holds the mask bits of the routers it is mapped to, and a
router's `ref_count` counts the addresses it is mapped to. A MAU (mobile address
update) from a router maps addresses to it and unmaps them: an absolute MAU
lists every address the router has (`exist`), a differential one what it added
and deleted since the sequence number before. `qdr_del_router_CT` clears the
router's bit from addresses only until its reference count reaches zero.

An address is known by its hash key: the hash table is a finite map of the
keys (`Hash.Spec`). `rnodes` is the set of its bits: the bitmask's bits are
exact over every run (`Bitmask.bitmask_run`). A router's `ref_count`, a
`uint32_t` that counts addresses, is a `Nat`: it would wrap only past 2^32
addresses. The address configuration is the treatment it gives a mobile
address (`configTreatment`). The events raised for other modules, the MAR
sent for a MAU out of sequence, the link-route patterns, the message to the
Python router, the core's `cost_epoch` and logging are left out.
-/

import Mathlib.Data.Finset.Basic
import DispatchRouter.Bitmask.Model

namespace DispatchRouter.MobileSync

/-- `qd_address_treatment_t`, in the order of its values 0 to 5. -/
inductive Treatment
  | multicastFlood
  | multicastOnce
  | anycastClosest
  | anycastBalanced
  | linkBalanced
  | unavailable
  deriving DecidableEq, Repr

/-- `qdr_address_t`, with the fields the functions below read or write. -/
structure Address where
  key : List Char
  treatment : Treatment
  rnodes : Finset Nat
  /-- `ADDR_SYNC_ADDRESS_TO_BE_DELETED` of `sync_mask`. -/
  toBeDeleted : Bool
  costEpoch : UInt64
  refCount : Int
  subscriptions : Nat
  rlinks : Nat
  inlinks : Nat
  trackedDeliveries : Nat
  coreEndpoint : Bool
  /-- The keys of the addresses `fallback` and `fallback_for` point at. -/
  fallback : Option (List Char)
  fallbackFor : Option (List Char)
  deriving DecidableEq

/-- `qdr_node_t`: a remote router, known by its mask bit, with the key of its
own address. -/
structure RouterNode where
  owningAddr : List Char
  maskBit : Nat
  refCount : Nat
  mobileSeq : UInt64
  /-- `ADDR_SYNC_ROUTER_MA_REQUESTED` and `ADDR_SYNC_ROUTER_VERSION_LOGGED`. -/
  maRequested : Bool
  versionLogged : Bool
  deriving DecidableEq

/-- The core: `core->addrs` and `core->routers` in order, the router's default
treatment, and the treatment the address configuration gives the text of a
mobile address, when a pattern matches it. -/
structure Core where
  addrs : List Address
  routers : List RouterNode
  defaultTreatment : Treatment
  configTreatment : List Char → Option Treatment

/-- `PROTOCOL_VERSION`. -/
def protocolVersion : UInt32 := 1

/-- The keys of `core->router_addr_T` and `core->routerma_addr_T`. -/
def routerAddrT : List Char := "Tqdrouter".toList

def routermaAddrT : List Char := "Tqdrouter.ma".toList

/-- `qcm_mobile_sync_addr_is_mobile`: `strchr("MCDEFH", hash_key[0])`, which
also finds the terminating zero of an empty key. -/
def qcmMobileSyncAddrIsMobile (key : List Char) : Bool :=
  match key with
  | [] => true
  | c :: _ => "MCDEFH".toList.contains c

/-- `QDR_IS_LINK_ROUTE`: the link-route prefixes `C`, `D`, `E` and `F`. -/
def qdrIsLinkRoute (c : Char) : Bool :=
  c == 'E' || c == 'F' || c == 'C' || c == 'D'

/-- `qcm_mobile_sync_default_treatment`: the treatment a hint names, or the
router's default, which is balanced when the default is unavailable. -/
def qcmMobileSyncDefaultTreatment (core : Core) (hint : Int) : Treatment :=
  if hint = 0 then .multicastFlood
  else if hint = 1 then .multicastOnce
  else if hint = 2 then .anycastClosest
  else if hint = 3 then .anycastBalanced
  else if hint = 4 then .linkBalanced
  else if hint = 5 then .unavailable
  else if core.defaultTreatment = .unavailable then .anycastBalanced
  else core.defaultTreatment

/-- `qdr_treatment_for_address_hash_with_default_CT`: link routes are
balanced over links; a mobile address (`M` and its phase) takes the treatment
of the configuration that matches its text, if one does; anything else the
default. -/
def qdrTreatmentForAddressHashWithDefaultCT (core : Core) (key : List Char)
    (defaultTreatment : Treatment) : Treatment :=
  match key with
  | c :: rest =>
      if qdrIsLinkRoute c then .linkBalanced
      else if c = 'M' then (core.configTreatment (rest.drop 1)).getD defaultTreatment
      else defaultTreatment
  | [] => defaultTreatment

/-- `qdr_address_CT`, with the key `qd_hash_insert` gives it: every field zero,
and no address for the unavailable treatment. -/
def qdrAddressCT (key : List Char) (treatment : Treatment) : Option Address :=
  if treatment = .unavailable then none
  else some
    { key, treatment, rnodes := ∅, toBeDeleted := false, costEpoch := 0, refCount := 0
      subscriptions := 0, rlinks := 0, inlinks := 0, trackedDeliveries := 0, coreEndpoint := false
      fallback := none, fallbackFor := none }

namespace Core

/-- `qd_hash_retrieve(core->addr_hash, iter, &addr)`. -/
def addr? (core : Core) (key : List Char) : Option Address :=
  core.addrs.find? (·.key = key)

/-- `DEQ_NEXT(addr)`: the key of the address after the one of `key`. -/
def nextKey (core : Core) (key : List Char) : Option (List Char) :=
  ((core.addrs.dropWhile (·.key ≠ key)).drop 1).head?.map (·.key)

/-- `routers_by_mask_bit[maskBit]`. -/
def router? (core : Core) (maskBit : Nat) : Option RouterNode :=
  core.routers.find? (·.maskBit = maskBit)

/-- An address written back in place. -/
def setAddr (core : Core) (addr : Address) : Core :=
  { core with addrs := core.addrs.map fun a => if a.key = addr.key then addr else a }

/-- `f` applied to the address of `key` through its pointer: `none` when there
is no such address. -/
def modifyAddr (core : Core) (key : List Char) (f : Address → Address) : Option Core :=
  (core.addr? key).map fun addr => core.setAddr (f addr)

/-- A router written back in place. -/
def setRouter (core : Core) (router : RouterNode) : Core :=
  { core with routers := core.routers.map fun r => if r.maskBit = router.maskBit then router else r }

end Core

/-! ### Checking and removing an address -/

/-- The test of `qdr_check_addr_CT`: nothing refers to the address any more. -/
def Address.unreferenced (addr : Address) : Bool :=
  addr.subscriptions == 0 && addr.rlinks == 0 && addr.inlinks == 0 && addr.rnodes == ∅ &&
    addr.refCount == 0 && addr.trackedDeliveries == 0 && !addr.coreEndpoint && addr.fallbackFor.isNone

/-- `qdr_core_remove_address`: the address leaves the list and the hash table,
and the fallback linkages through it are cut. -/
def qdrCoreRemoveAddress (core : Core) (addr : Address) : Core :=
  { core with
    addrs := (core.addrs.filter (·.key ≠ addr.key)).map fun a =>
      let a := if addr.fallback = some a.key then { a with fallbackFor := none } else a
      if addr.fallbackFor = some a.key then { a with fallback := none } else a }

/-- `qdr_check_addr_CT`: an address nothing refers to is removed, and then its
fallback address is checked. Each round removes an address, so as many rounds
as there are addresses are enough. -/
def qdrCheckAddrCT : Nat → Core → List Char → Core
  | 0, core, _ => core
  | fuel + 1, core, key =>
      match core.addr? key with
      | none => core
      | some addr =>
          if addr.unreferenced then
            let core := qdrCoreRemoveAddress core addr
            match addr.fallback with
            | some fallback => qdrCheckAddrCT fuel core fallback
            | none => core
          else core

/-- `qdr_check_addr_CT(core, addr)` from the call sites. -/
def checkAddr (core : Core) (key : List Char) : Core :=
  qdrCheckAddrCT core.addrs.length core key

/-! ### Mapping and unmapping -/

/-- An address unmapped from a router: the bit cleared, the router's reference
count and the address's cost epoch decremented, then `qdr_check_addr_CT`. -/
def unmap (core : Core) (router : RouterNode) (addr : Address) : Core × RouterNode :=
  let core := core.setAddr { addr with rnodes := addr.rnodes.erase router.maskBit, costEpoch := addr.costEpoch - 1 }
  (checkAddr core addr.key, { router with refCount := router.refCount - 1 })

/-- One round of the loop over the exist or add list: the address of `key`,
made if there is none, loses its to-be-deleted mark and is mapped to the
router. An address the treatment makes unavailable is not made
(`assert(false); break`). -/
def mapAddress (core : Core) (router : RouterNode) (key : List Char) (hint : Int) : Core × RouterNode :=
  let found := match core.addr? key with
    | some addr => some (core, addr)
    | none =>
        let treatment := qdrTreatmentForAddressHashWithDefaultCT core key (qcmMobileSyncDefaultTreatment core hint)
        (qdrAddressCT key treatment).map fun addr => ({ core with addrs := core.addrs ++ [addr] }, addr)
  match found with
  | none => (core, router)
  | some (core, addr) =>
      let addr := { addr with toBeDeleted := false }
      if router.maskBit ∈ addr.rnodes then (core.setAddr addr, router)
      else
        (core.setAddr { addr with rnodes := insert router.maskBit addr.rnodes, costEpoch := addr.costEpoch - 1 },
          { router with refCount := router.refCount + 1 })

/-- One round of the loop over the del list. -/
def unmapListed (core : Core) (router : RouterNode) (key : List Char) : Core × RouterNode :=
  match core.addr? key with
  | some addr => if router.maskBit ∈ addr.rnodes then unmap core router addr else (core, router)
  | none => (core, router)

/-- `addr = DEQ_HEAD(core->addrs); while (addr) { next_addr = DEQ_NEXT(addr); ...;
addr = next_addr; }`, unmapping the addresses `picked` selects. A round that
frees the address the loop goes to next leaves it on a freed address (`none`). -/
def sweep (picked : Address → Bool) : Nat → Option (List Char) → Core × RouterNode → Option (Core × RouterNode)
  | 0, _, state => some state
  | _ + 1, none, state => some state
  | fuel + 1, some key, (core, router) =>
      match core.addr? key with
      | none => none
      | some addr =>
          let next := core.nextKey key
          sweep picked fuel next (if picked addr then unmap core router addr else (core, router))

/-- The sweep from the head of `core->addrs`. -/
def sweepAll (picked : Address → Bool) (core : Core) (router : RouterNode) : Option (Core × RouterNode) :=
  sweep picked core.addrs.length (core.addrs.head?.map (·.key)) (core, router)

/-! ### The MAU -/

/-- A field of the MAU's body as `qd_parse_value_by_key` finds it: a list, or
a value of another type. -/
inductive MauField (α : Type)
  | list (items : List α)
  | other

/-- `qd_parse_is_list` of a field that may be absent; absent fields pass. -/
def MauField.isListOrAbsent {α : Type} : Option (MauField α) → Bool
  | some .other => false
  | _ => true

/-- The items of a list field, none for another value. -/
def MauField.items {α : Type} : MauField α → List α
  | .list items => items
  | .other => []

/-- The body of a MAU, a map: the router's id, its mobile sequence, the
protocol version `pv`, and the `add`, `del`, `exist` and `hints` fields. -/
structure Mau where
  id : Option (List Char)
  mobileSeq : Option UInt64
  version : Option UInt32
  add : Option (MauField (List Char))
  del : Option (MauField (List Char))
  exist : Option (MauField (List Char))
  hints : Option (MauField Int)

/-- `qdc_mobile_sync_router_by_id`: the first router whose own address, less
its class letter, is the id. -/
def qdcMobileSyncRouterById (core : Core) (id : List Char) : Option RouterNode :=
  core.routers.find? (·.owningAddr.drop 1 = id)

/-- The validation of the `exist`, `add` and `del` fields: lists if there,
and either an exist field alone or both an add and a del field. -/
def Mau.malformed (body : Mau) : Bool :=
  !MauField.isListOrAbsent body.exist || !MauField.isListOrAbsent body.add ||
    !MauField.isListOrAbsent body.del || (body.exist.isSome && (body.add.isSome || body.del.isSome)) ||
    (body.exist.isNone && (body.add.isNone || body.del.isNone))

/-- The hints paired with the exist or add list: the hints list when its
length is that list's, and `-1` for each address otherwise. -/
def pairHints (items : List (List Char)) (hints : Option (MauField Int)) : List (List Char × Int) :=
  let hintsCount := match hints with
    | some (.list hints) => hints.length
    | _ => 0
  let hintsCount := if hintsCount = items.length then hintsCount else 0
  if hintsCount = 0 then items.map (·, -1) else items.zip (hints.map MauField.items |>.getD [])

/-- `qcm_mobile_sync_on_mau_CT` once the router is found and the version and
fields are checked: the sequence test of a differential MAU, the to-be-deleted
marks of an absolute one, the loop over the exist or add list, the loop over
the del list, and the sweep of the addresses still marked. -/
def applyMau (core : Core) (router : RouterNode) (body : Mau) (mobileSeq : UInt64) : Option Core :=
  if body.exist.isNone ∧ router.mobileSeq ≠ mobileSeq - 1 then
    -- out of sequence: a MAR is requested, once
    some (core.setRouter { router with maRequested := true })
  else
    let router := { router with maRequested := false, mobileSeq }
    let listed := match body.exist with
      | some exist => exist.items
      | none => (body.add.map MauField.items).getD []
    -- an absolute MAU marks every mobile address mapped to the router
    let core := if body.exist.isSome then
        { core with addrs := core.addrs.map fun addr =>
            if qcmMobileSyncAddrIsMobile addr.key && router.maskBit ∈ addr.rnodes then
              { addr with toBeDeleted := true }
            else addr }
      else core
    let (core, router) := (pairHints listed body.hints).foldl
      (fun (state : Core × RouterNode) (item : List Char × Int) => mapAddress state.1 state.2 item.1 item.2)
      (core, router)
    let (core, router) := ((body.del.map MauField.items).getD []).foldl
      (fun (state : Core × RouterNode) key => unmapListed state.1 state.2 key) (core, router)
    let swept := if body.exist.isSome then
        sweepAll (fun addr => qcmMobileSyncAddrIsMobile addr.key && router.maskBit ∈ addr.rnodes &&
          addr.toBeDeleted) core router
      else some (core, router)
    swept.map fun (core, router) => core.setRouter router

/-- `qcm_mobile_sync_on_mau_CT(msync, body)`: `none` when the core is left on a
freed address. -/
def qcmMobileSyncOnMauCT (core : Core) (body : Mau) : Option Core :=
  match body.id, body.mobileSeq with
  | some id, some mobileSeq =>
      match qdcMobileSyncRouterById core id with
      | none => some core
      | some router =>
          if body.version.getD 0 > protocolVersion then
            some (core.setRouter { router with versionLogged := true })
          else if body.malformed then some core
          else applyMau core router body mobileSeq
  | _, _ => some core

/-- `qcm_mobile_sync_on_router_flush_CT`: the router's sequence is reset and
every mobile address mapped to it is unmapped. -/
def qcmMobileSyncOnRouterFlushCT (core : Core) (router : RouterNode) : Option Core :=
  let router := { router with mobileSeq := 0 }
  (sweepAll (fun addr => qcmMobileSyncAddrIsMobile addr.key && router.maskBit ∈ addr.rnodes) core router).map
    fun (core, router) => core.setRouter router

/-! ### Adding and deleting a router -/

/-- `qdr_add_local_address_CT`: the address of class `aclass`, made if there is
none and then referenced once. -/
def qdrAddLocalAddressCT (core : Core) (aclass : Char) (address : List Char) (treatment : Treatment) : Core :=
  let key := aclass :: address
  if (core.addr? key).isSome then core
  else
    match qdrAddressCT key treatment with
    | some addr => { core with addrs := core.addrs ++ [{ addr with refCount := addr.refCount + 1 }] }
    | none => core

/-- The addresses `qdr_route_table_setup_CT` makes on an interior router, in
order, and no router yet. -/
def qdrRouteTableSetupCT (defaultTreatment : Treatment) (configTreatment : List Char → Option Treatment) : Core :=
  let core : Core := ⟨[], [], defaultTreatment, configTreatment⟩
  let core := qdrAddLocalAddressCT core 'L' "qdhello".toList .multicastFlood
  let core := qdrAddLocalAddressCT core 'L' "qdrouter".toList .multicastFlood
  let core := qdrAddLocalAddressCT core 'L' "qdrouter.ma".toList .multicastOnce
  let core := qdrAddLocalAddressCT core 'T' "qdrouter".toList .multicastFlood
  qdrAddLocalAddressCT core 'T' "qdrouter.ma".toList .multicastOnce

/-- `qdr_add_router_CT`: the router's own address, made if there is none, is
referenced once more; the router starts with no mobile sequence and the three
links of its bit, in its own address and the two router-class addresses. -/
def qdrAddRouterCT (core : Core) (routerMaskbit : Int) (address : List Char) : Option Core :=
  if routerMaskbit ≥ Bitmask.qdBitmaskWidth ∨ routerMaskbit < 0 then some core
  else if (core.router? routerMaskbit.toNat).isSome then some core
  else
    let maskBit := routerMaskbit.toNat
    let core := if (core.addr? address).isSome then core
      else
        match qdrAddressCT address .anycastClosest with
        | some addr => { core with addrs := core.addrs ++ [addr] }
        | none => core
    do
      let core ← core.modifyAddr address fun a => { a with refCount := a.refCount + 1, rnodes := insert maskBit a.rnodes }
      let core ← core.modifyAddr routerAddrT fun a => { a with rnodes := insert maskBit a.rnodes }
      let core ← core.modifyAddr routermaAddrT fun a => { a with rnodes := insert maskBit a.rnodes }
      pure { core with routers := ⟨address, maskBit, 3, 0, false, false⟩ :: core.routers }

/-- The loop of `qdr_del_router_CT`: while the router's reference count is
not zero, the next address loses the bit, and the count drops when the bit was
set. -/
def clearWhileReferenced (bit : Nat) : List Address → Nat → List Address × Nat
  | [], refCount => ([], refCount)
  | addr :: addrs, refCount =>
      if refCount > 0 then
        let cleared := clearWhileReferenced bit addrs (if bit ∈ addr.rnodes then refCount - 1 else refCount)
        ({ addr with rnodes := addr.rnodes.erase bit } :: cleared.1, cleared.2)
      else (addr :: addrs, refCount)

/-- `qdr_del_router_CT`: the bit leaves the router's own address and the two
router-class addresses, the loop clears it from addresses while the count
lasts, the router is freed (`qdr_router_node_free`), and its own address is
referenced once less and checked. -/
def qdrDelRouterCT (core : Core) (routerMaskbit : Int) : Option Core :=
  if routerMaskbit ≥ Bitmask.qdBitmaskWidth ∨ routerMaskbit < 0 then some core
  else
    match core.router? routerMaskbit.toNat with
    | none => some core
    | some rnode => do
        let bit := rnode.maskBit
        let core ← core.modifyAddr rnode.owningAddr fun a => { a with rnodes := a.rnodes.erase bit }
        let core ← core.modifyAddr routerAddrT fun a => { a with rnodes := a.rnodes.erase bit }
        let core ← core.modifyAddr routermaAddrT fun a => { a with rnodes := a.rnodes.erase bit }
        let core := { core with
          addrs := (clearWhileReferenced bit core.addrs (rnode.refCount - 3)).1
          routers := core.routers.filter (·.maskBit ≠ bit) }
        let core ← core.modifyAddr rnode.owningAddr fun a => { a with refCount := a.refCount - 1 }
        pure (checkAddr core rnode.owningAddr)

/-! ### Runs -/

/-- What the core is given: the route-table actions for a router (whose
address `amqp:/_topo/0/<id>/qdrouter` hashes to `R` and the id), a MAU, and the
flush event of the router at a mask bit. -/
inductive Action
  | addRouter (maskBit : Int) (id : List Char)
  | delRouter (maskBit : Int)
  | mau (body : Mau)
  | flush (maskBit : Nat)

/-- One action; `none` when the core dereferences a null or freed address. -/
def Core.step (core : Core) : Action → Option Core
  | .addRouter maskBit id => qdrAddRouterCT core maskBit ('R' :: id)
  | .delRouter maskBit => qdrDelRouterCT core maskBit
  | .mau body => qcmMobileSyncOnMauCT core body
  | .flush maskBit =>
      match core.router? maskBit with
      | some router => qcmMobileSyncOnRouterFlushCT core router
      | none => some core

/-- Actions one after another. -/
def Core.run (core : Core) : List Action → Option Core
  | [] => some core
  | action :: actions => (core.step action).bind fun core => core.run actions

end DispatchRouter.MobileSync
