/-
# Router costs and the closest remotes (`route_tables.c`, `forwarder.c`)

The core keeps its remote routers in `core->routers`, sorted by cost, and a
counter `core->cost_epoch`. An address forwarded with the closest treatment
caches the set of its routers of least cost, `closest_remotes`, together with
the epoch it was computed at; `qdr_forward_closest_CT` recomputes it only when
that epoch is not the core's. The core moves its epoch on when a cost change
moves a router in the list, and when a router is freed; mobile sync lowers the
address's epoch when it maps or unmaps a router for the address.

A new router is put at the head of the list with cost 0 and no epoch change,
since it is not used before it has a cost. A cost change that keeps the list
sorted moves nothing, so the epoch stays, and with it a cache computed for the
old costs (`closest_remotes_stale_after_cost_change`).

The model has the list, the two epochs, and one address. A bit mask is the set
of its bits. `qdr_del_router_CT` is taken to clear the router's bit in the
address, as its loop over the addresses does when the reference counts are
exact.
-/

import DispatchRouter.Router.Core
import Mathlib.Data.Finset.Basic
import Mathlib.Data.Finset.Lattice.Lemmas
import Mathlib.Data.List.Sort

namespace DispatchRouter.Router

/-- `qdr_node_t`, as far as its cost goes: its mask bit and its cost. -/
structure CostNode where
  maskBit : Nat
  cost : Int
  deriving DecidableEq, Repr

/-- `core->routers`, in list order, and `core->cost_epoch`. -/
structure CostCore where
  routers : List CostNode
  costEpoch : UInt64
  deriving DecidableEq, Repr

/-- `qdr_address_t`, as far as the closest remotes go: `rnodes`, `cost_epoch`,
`closest_remotes` and `next_remote`. -/
structure RemoteAddress where
  rnodes : Finset Nat
  costEpoch : UInt64
  closestRemotes : Finset Nat
  nextRemote : Int
  deriving DecidableEq

/-- A core with no remote router; `qdr_core` sets the epoch to 1. -/
def CostCore.init : CostCore := ⟨[], 1⟩

/-- An address as `qdr_address_CT` makes it: all fields zero. -/
def RemoteAddress.init : RemoteAddress := ⟨∅, 0, ∅, 0⟩

namespace CostCore

/-- The node of a mask bit, with the nodes before and after it. -/
def splitAt? (maskbit : Nat) : List CostNode → Option (List CostNode × CostNode × List CostNode)
  | [] => none
  | rnode :: rest =>
      if rnode.maskBit = maskbit then some ([], rnode, rest)
      else (splitAt? maskbit rest).map fun (front, node, back) => (rnode :: front, node, back)

/-- The scan of `qdr_route_table_update_cost_CT` from the tail, over the list
read from its tail: the node goes after the first node whose cost it is not
below, or at the head when there is none. -/
def insertFromTail (rnode : CostNode) : List CostNode → List CostNode
  | [] => [rnode]
  | ptr :: rest => if rnode.cost ≥ ptr.cost then rnode :: ptr :: rest else ptr :: insertFromTail rnode rest

/-- `needs_reinsertion` of `qdr_route_table_update_cost_CT`: the node before
`rnode` is dearer, or the node after it cheaper. -/
def needsReinsertion (front : List CostNode) (rnode : CostNode) (back : List CostNode) : Bool :=
  (front.getLast?.any fun ptr => ptr.cost > rnode.cost) || (back.head?.any fun ptr => ptr.cost < rnode.cost)

/-- `qdr_route_table_update_cost_CT` for `rnode` between `front` and `back`: it
is moved, and the epoch moved on, when a neighbour is out of order. -/
def qdrRouteTableUpdateCost (core : CostCore) (front : List CostNode) (rnode : CostNode) (back : List CostNode) :
    CostCore :=
  if needsReinsertion front rnode back then ⟨(insertFromTail rnode (front ++ back).reverse).reverse, core.costEpoch + 1⟩
  else { core with routers := front ++ rnode :: back }

/-- `qdr_add_router_CT`, for the list: a node of cost 0 at the head, unless the
bit is out of range or in use; the epoch is left. -/
def qdrAddRouter (core : CostCore) (maskbit : Nat) : CostCore :=
  if maskbit < bitmaskWidth ∧ (splitAt? maskbit core.routers).isNone then
    { core with routers := ⟨maskbit, 0⟩ :: core.routers }
  else core

/-- `qdr_set_cost_CT`; `none` where it dereferences the null node of a mask bit
with no router. -/
def qdrSetCost (core : CostCore) (maskbit : Nat) (cost : Int) : Option CostCore :=
  if maskbit < bitmaskWidth ∧ 1 ≤ cost then
    (splitAt? maskbit core.routers).map fun (front, rnode, back) =>
      qdrRouteTableUpdateCost core front { rnode with cost := cost } back
  else some core

/-- `qdr_del_router_CT`: the router's bit is cleared in the address, and
`qdr_router_node_free` takes the node out of the list and moves the epoch on;
an out-of-range or unused bit is only logged. -/
def qdrDelRouter (core : CostCore) (addr : RemoteAddress) (maskbit : Nat) : CostCore × RemoteAddress :=
  if maskbit < bitmaskWidth then
    match splitAt? maskbit core.routers with
    | some (front, _, back) => (⟨front ++ back, core.costEpoch + 1⟩, { addr with rnodes := addr.rnodes.erase maskbit })
    | none => (core, addr)
  else (core, addr)

end CostCore

/-! ### The closest remotes -/

/-- The loop of `qdr_forward_find_closest_remotes_CT` over the routers in list
order: the first router of the address sets `lowest_cost` (a cost of 0 reads as
not set yet), routers of that cost are added, and the first of another cost
ends the loop. -/
def closestLoop (rnodes : Finset Nat) : List CostNode → Int → Finset Nat → Int → Finset Nat × Int
  | [], _, closest, nextRemote => (closest, nextRemote)
  | rnode :: rest, lowestCost, closest, nextRemote =>
      if rnode.maskBit ∈ rnodes then
        let nextRemote := if lowestCost = 0 then (rnode.maskBit : Int) else nextRemote
        let lowestCost := if lowestCost = 0 then rnode.cost else lowestCost
        if lowestCost = rnode.cost then closestLoop rnodes rest lowestCost (insert rnode.maskBit closest) nextRemote
        else (closest, nextRemote)
      else closestLoop rnodes rest lowestCost closest nextRemote

/-- `qdr_forward_find_closest_remotes_CT` -/
def qdrForwardFindClosestRemotes (core : CostCore) (addr : RemoteAddress) : RemoteAddress :=
  let found := closestLoop addr.rnodes core.routers 0 ∅ (-1)
  { addr with costEpoch := core.costEpoch, closestRemotes := found.1, nextRemote := found.2 }

/-- The address as `qdr_forward_closest_CT` forwards by it: recomputed first
when its epoch is not the core's. -/
def closestForForward (core : CostCore) (addr : RemoteAddress) : RemoteAddress :=
  if addr.costEpoch ≠ core.costEpoch then qdrForwardFindClosestRemotes core addr else addr

/-! ### Runs -/

/-- A route-table action, a change to the address's routers, or a message
forwarded to it. -/
inductive CostEvent
  | addRouter (maskbit : Nat)
  | setCost (maskbit : Nat) (cost : Int)
  | delRouter (maskbit : Nat)
  /-- mobile sync maps the address to a router -/
  | mapRouter (maskbit : Nat)
  /-- mobile sync unmaps the address from a router -/
  | unmapRouter (maskbit : Nat)
  | forward
  deriving DecidableEq, Repr

/-- One event; `none` where the core crashes. Mobile sync changes the address's
bit only when it is not already so, and then lowers its epoch. -/
def costStep (state : CostCore × RemoteAddress) : CostEvent → Option (CostCore × RemoteAddress)
  | .addRouter maskbit => some (state.1.qdrAddRouter maskbit, state.2)
  | .setCost maskbit cost => (state.1.qdrSetCost maskbit cost).map fun core => (core, state.2)
  | .delRouter maskbit => some (state.1.qdrDelRouter state.2 maskbit)
  | .mapRouter maskbit =>
      if maskbit ∈ state.2.rnodes then some state
      else some (state.1, { state.2 with rnodes := insert maskbit state.2.rnodes, costEpoch := state.2.costEpoch - 1 })
  | .unmapRouter maskbit =>
      if maskbit ∈ state.2.rnodes then
        some (state.1, { state.2 with rnodes := state.2.rnodes.erase maskbit, costEpoch := state.2.costEpoch - 1 })
      else some state
  | .forward => some (state.1, closestForForward state.1 state.2)

/-- The events in order. -/
def costRun (state : CostCore × RemoteAddress) : List CostEvent → Option (CostCore × RemoteAddress)
  | [] => some state
  | event :: events => (costStep state event).bind fun state => costRun state events

/-! ### The list stays sorted -/

namespace CostCore

/-- `core->routers` as the core keeps it: sorted by cost, with no cost below 0. -/
structure Ordered (core : CostCore) : Prop where
  sorted : core.routers.Pairwise fun a b => a.cost ≤ b.cost
  nonneg : ∀ rnode ∈ core.routers, 0 ≤ rnode.cost

theorem splitAt?_eq_some {maskbit : Nat} :
    ∀ {routers front back : List CostNode} {rnode : CostNode}, splitAt? maskbit routers = some (front, rnode, back) →
      routers = front ++ rnode :: back ∧ rnode.maskBit = maskbit
  | [], _, _, _, found => by cases found
  | head :: rest, front, back, rnode, found => by
      unfold splitAt? at found
      split_ifs at found with hit
      · cases found
        exact ⟨rfl, hit⟩
      · obtain ⟨⟨front', node', back'⟩, later, same⟩ := Option.map_eq_some_iff.mp found
        cases same
        obtain ⟨split, isBit⟩ := splitAt?_eq_some later
        exact ⟨by rw [split]; rfl, isBit⟩

theorem insertFromTail_perm (rnode : CostNode) : ∀ routers, (insertFromTail rnode routers).Perm (rnode :: routers)
  | [] => List.Perm.refl _
  | ptr :: rest => by
      unfold insertFromTail
      split
      · exact List.Perm.refl _
      · exact ((insertFromTail_perm rnode rest).cons ptr).trans (List.Perm.swap rnode ptr rest)

/-- Read from its tail, the list is sorted the other way; the scan puts the node
before the first node it is not below, so it stays so. -/
theorem insertFromTail_sorted (rnode : CostNode) :
    ∀ {routers : List CostNode}, routers.Pairwise (fun a b => b.cost ≤ a.cost) →
      (insertFromTail rnode routers).Pairwise fun a b => b.cost ≤ a.cost
  | [], _ => List.pairwise_singleton _ _
  | ptr :: rest, sorted => by
      obtain ⟨ptrFirst, restSorted⟩ := List.pairwise_cons.mp sorted
      unfold insertFromTail
      split
      · rename_i above
        refine List.pairwise_cons.mpr ⟨fun other member => ?_, sorted⟩
        rcases List.mem_cons.mp member with rfl | later
        · exact above
        · exact le_trans (ptrFirst other later) above
      · rename_i below
        refine List.pairwise_cons.mpr ⟨fun other member => ?_, insertFromTail_sorted rnode restSorted⟩
        rcases List.mem_cons.mp ((insertFromTail_perm rnode rest).mem_iff.mp member) with rfl | later
        · exact le_of_lt (lt_of_not_ge below)
        · exact ptrFirst other later

/-- Every node of a sorted list is no dearer than its last. -/
theorem cost_le_getLast {routers : List CostNode} (sorted : routers.Pairwise fun a b => a.cost ≤ b.cost)
    {last : CostNode} (isLast : routers.getLast? = some last) : ∀ rnode ∈ routers, rnode.cost ≤ last.cost := by
  obtain ⟨front, rfl⟩ := List.getLast?_eq_some_iff.mp isLast
  intro rnode member
  rcases List.mem_append.mp member with inFront | isLast
  · exact (List.pairwise_append.mp sorted).2.2 rnode inFront last (List.mem_singleton_self last)
  · rw [List.mem_singleton.mp isLast]

theorem sublist_of_splitAt? {maskbit : Nat} {routers front back : List CostNode} {rnode : CostNode}
    (found : splitAt? maskbit routers = some (front, rnode, back)) : (front ++ back).Sublist routers := by
  rw [(splitAt?_eq_some found).1]
  exact List.Sublist.append_left (List.sublist_cons_self rnode back) front

/-- A cost update moves the node at most. -/
theorem perm_qdrRouteTableUpdateCost (core : CostCore) (front : List CostNode) (rnode : CostNode)
    (back : List CostNode) : (core.qdrRouteTableUpdateCost front rnode back).routers.Perm (rnode :: (front ++ back)) := by
  unfold qdrRouteTableUpdateCost
  split
  · exact (List.reverse_perm _).trans ((insertFromTail_perm rnode _).trans ((List.reverse_perm _).cons rnode))
  · exact List.perm_middle

/-- A cost update leaves the list sorted: kept in place when both neighbours are
in order, moved by the scan otherwise. -/
theorem sorted_qdrRouteTableUpdateCost (core : CostCore) {front back : List CostNode} (rnode : CostNode)
    (sorted : (front ++ back).Pairwise fun a b => a.cost ≤ b.cost) :
    (core.qdrRouteTableUpdateCost front rnode back).routers.Pairwise fun a b => a.cost ≤ b.cost := by
  unfold qdrRouteTableUpdateCost
  split
  · rw [List.pairwise_reverse]
    exact insertFromTail_sorted rnode (List.pairwise_reverse.mpr sorted)
  · rename_i inOrder
    simp only [needsReinsertion, Bool.or_eq_true, not_or, Bool.not_eq_true] at inOrder
    obtain ⟨prevInOrder, nextInOrder⟩ := inOrder
    obtain ⟨frontSorted, backSorted, across⟩ := List.pairwise_append.mp sorted
    -- every node before is no dearer than the last one before, every node after no cheaper than the first after
    have beforeLe : ∀ a ∈ front, a.cost ≤ rnode.cost := by
      intro a member
      cases isLast : front.getLast? with
      | none => simp_all
      | some last =>
          have lastLe : last.cost ≤ rnode.cost := by simpa [isLast] using prevInOrder
          exact le_trans (cost_le_getLast frontSorted isLast a member) lastLe
    have afterGe : ∀ b ∈ back, rnode.cost ≤ b.cost := by
      intro b member
      cases back with
      | nil => cases member
      | cons first rest =>
          have firstGe : rnode.cost ≤ first.cost := by simpa using nextInOrder
          rcases List.mem_cons.mp member with rfl | later
          · exact firstGe
          · exact le_trans firstGe (List.rel_of_pairwise_cons backSorted later)
    refine List.pairwise_append.mpr ⟨frontSorted, List.pairwise_cons.mpr ⟨afterGe, backSorted⟩, ?_⟩
    intro a inFront b member
    rcases List.mem_cons.mp member with rfl | later
    · exact beforeLe a inFront
    · exact across a inFront b later

theorem Ordered.qdrAddRouter {core : CostCore} (ordered : core.Ordered) (maskbit : Nat) :
    (core.qdrAddRouter maskbit).Ordered := by
  unfold CostCore.qdrAddRouter
  split
  · refine ⟨List.pairwise_cons.mpr ⟨ordered.nonneg, ordered.sorted⟩, fun rnode member => ?_⟩
    rcases List.mem_cons.mp member with rfl | later
    · exact le_rfl
    · exact ordered.nonneg rnode later
  · exact ordered

theorem Ordered.qdrSetCost {core core' : CostCore} (ordered : core.Ordered) {maskbit : Nat} {cost : Int}
    (set : core.qdrSetCost maskbit cost = some core') : core'.Ordered := by
  unfold CostCore.qdrSetCost at set
  split_ifs at set with valid
  · obtain ⟨⟨front, rnode, back⟩, found, rfl⟩ := Option.map_eq_some_iff.mp set
    have without := sublist_of_splitAt? found
    refine ⟨sorted_qdrRouteTableUpdateCost core _ (ordered.sorted.sublist without), fun other member => ?_⟩
    -- the nodes are those of the list, one with the new cost, which is at least 1
    rcases List.mem_cons.mp ((perm_qdrRouteTableUpdateCost core front _ back).mem_iff.mp member) with rfl | old
    · exact le_trans zero_le_one valid.2
    · exact ordered.nonneg other (without.subset old)
  · cases set
    exact ordered

theorem Ordered.qdrDelRouter {core : CostCore} (ordered : core.Ordered) (addr : RemoteAddress) (maskbit : Nat) :
    (core.qdrDelRouter addr maskbit).1.Ordered := by
  unfold CostCore.qdrDelRouter
  split
  · cases found : splitAt? maskbit core.routers with
    | none => exact ordered
    | some split =>
        obtain ⟨front, rnode, back⟩ := split
        have without := sublist_of_splitAt? found
        exact ⟨ordered.sorted.sublist without, fun other member => ordered.nonneg other (without.subset member)⟩
  · exact ordered

/-- Every event keeps the list sorted. -/
theorem Ordered.costStep {state state' : CostCore × RemoteAddress} (ordered : state.1.Ordered) {event : CostEvent}
    (step : costStep state event = some state') : state'.1.Ordered := by
  cases event with
  | addRouter maskbit =>
      cases step
      exact ordered.qdrAddRouter maskbit
  | setCost maskbit cost =>
      obtain ⟨core, set, rfl⟩ := Option.map_eq_some_iff.mp step
      exact ordered.qdrSetCost set
  | delRouter maskbit =>
      cases step
      exact ordered.qdrDelRouter state.2 maskbit
  | mapRouter maskbit =>
      simp only [DispatchRouter.Router.costStep] at step
      split_ifs at step <;> cases step <;> exact ordered
  | unmapRouter maskbit =>
      simp only [DispatchRouter.Router.costStep] at step
      split_ifs at step <;> cases step <;> exact ordered
  | forward =>
      cases step
      exact ordered

/-- Every run keeps the list sorted. -/
theorem Ordered.costRun : ∀ {state state' : CostCore × RemoteAddress} {events : List CostEvent},
    state.1.Ordered → DispatchRouter.Router.costRun state events = some state' → state'.1.Ordered
  | _, _, [], ordered, run => by
      cases run
      exact ordered
  | state, state', event :: events, ordered, run => by
      obtain ⟨next, step, rest⟩ := Option.bind_eq_some_iff.mp run
      exact Ordered.costRun (ordered.costStep step) rest

end CostCore

/-! ### What the loop computes -/

/-- The routers of an address that have been given a cost (a cost above 0). -/
def costedRouters (routers : List CostNode) (rnodes : Finset Nat) : List CostNode :=
  routers.filter fun rnode => rnode.maskBit ∈ rnodes ∧ 0 < rnode.cost

/-- The routers of an address whose cost is the least among its routers that
have been given a cost. -/
def closestSet (routers : List CostNode) (rnodes : Finset Nat) : Finset Nat :=
  (((costedRouters routers rnodes).filter fun rnode =>
    (costedRouters routers rnodes).all fun other => rnode.cost ≤ other.cost).map (·.maskBit)).toFinset

/-- The routers of an address at one cost. -/
def atCost (routers : List CostNode) (rnodes : Finset Nat) (cost : Int) : Finset Nat :=
  ((routers.filter fun rnode => rnode.maskBit ∈ rnodes ∧ rnode.cost = cost).map (·.maskBit)).toFinset

theorem mem_closestSet {routers : List CostNode} {rnodes : Finset Nat} {bit : Nat} :
    bit ∈ closestSet routers rnodes ↔ ∃ node ∈ routers, (node.maskBit ∈ rnodes ∧ 0 < node.cost) ∧
      (∀ other ∈ routers, other.maskBit ∈ rnodes ∧ 0 < other.cost → node.cost ≤ other.cost) ∧ node.maskBit = bit := by
  simp only [closestSet, costedRouters, List.mem_toFinset, List.mem_map, List.mem_filter, List.all_eq_true,
    decide_eq_true_eq, and_imp, and_assoc]

theorem mem_atCost {routers : List CostNode} {rnodes : Finset Nat} {cost : Int} {bit : Nat} :
    bit ∈ atCost routers rnodes cost ↔ ∃ node ∈ routers, (node.maskBit ∈ rnodes ∧ node.cost = cost) ∧ node.maskBit = bit := by
  simp only [atCost, List.mem_toFinset, List.mem_map, List.mem_filter, decide_eq_true_eq, and_assoc]

/-- In a sorted list, a first router of the address that has a cost has the
least cost: its routers of least cost are it and those after it at its cost. -/
theorem closestSet_cons {rnode : CostNode} {rest : List CostNode} {rnodes : Finset Nat}
    (first : ∀ other ∈ rest, rnode.cost ≤ other.cost) (mine : rnode.maskBit ∈ rnodes) (positive : 0 < rnode.cost) :
    closestSet (rnode :: rest) rnodes = insert rnode.maskBit (atCost rest rnodes rnode.cost) := by
  ext bit
  rw [mem_closestSet, Finset.mem_insert, mem_atCost]
  constructor
  · rintro ⟨node, member, ⟨nodeMine, -⟩, least, rfl⟩
    rcases List.mem_cons.mp member with rfl | inRest
    · exact .inl rfl
    · exact .inr ⟨node, inRest, ⟨nodeMine, le_antisymm (least rnode List.mem_cons_self ⟨mine, positive⟩)
        (first node inRest)⟩, rfl⟩
  · have noneCheaper : ∀ other ∈ rnode :: rest, rnode.cost ≤ other.cost := by
      intro other member
      rcases List.mem_cons.mp member with rfl | inRest
      · exact le_rfl
      · exact first other inRest
    rintro (rfl | ⟨node, inRest, ⟨nodeMine, same⟩, rfl⟩)
    · exact ⟨rnode, List.mem_cons_self, ⟨mine, positive⟩, fun other member _ => noneCheaper other member, rfl⟩
    · exact ⟨node, List.mem_cons_of_mem _ inRest, ⟨nodeMine, same ▸ positive⟩,
        fun other member _ => same ▸ noneCheaper other member, rfl⟩

/-- Once the least cost is set, the loop adds the routers of that cost up to
the first dearer one; over a sorted list with no cheaper router of the address,
those are all the routers of that cost. By induction on the routers left. -/
theorem closestLoop_of_lowest {rnodes : Finset Nat} {lowestCost : Int} (positive : 0 < lowestCost) :
    ∀ {routers : List CostNode} (closest : Finset Nat) (nextRemote : Int),
      routers.Pairwise (fun a b => a.cost ≤ b.cost) →
      (∀ rnode ∈ routers, rnode.maskBit ∈ rnodes → lowestCost ≤ rnode.cost) →
      (closestLoop rnodes routers lowestCost closest nextRemote).1 = closest ∪ atCost routers rnodes lowestCost
  | [], closest, _, _, _ => by simp [closestLoop, atCost]
  | rnode :: rest, closest, nextRemote, sorted, noCheaper => by
      obtain ⟨first, restSorted⟩ := List.pairwise_cons.mp sorted
      have later : ∀ other ∈ rest, other.maskBit ∈ rnodes → lowestCost ≤ other.cost :=
        fun other member => noCheaper other (List.mem_cons_of_mem _ member)
      have set : lowestCost ≠ 0 := ne_of_gt positive
      by_cases mine : rnode.maskBit ∈ rnodes
      · by_cases same : lowestCost = rnode.cost
        · -- a router of the least cost: added, and the loop goes on
          simp only [closestLoop, mine, if_true, if_neg set, ← same]
          rw [closestLoop_of_lowest positive _ _ restSorted later]
          simp [atCost, mine, same, Finset.insert_union, Finset.union_insert]
        · -- a dearer router ends the loop, and every router after it is dearer still
          simp only [closestLoop, mine, if_true, if_neg set, if_neg same]
          have dearer : lowestCost < rnode.cost := lt_of_le_of_ne (noCheaper rnode List.mem_cons_self mine) same
          have none : atCost (rnode :: rest) rnodes lowestCost = ∅ := by
            rw [atCost, List.toFinset_eq_empty_iff, List.map_eq_nil_iff, List.filter_eq_nil_iff]
            intro other member
            simp only [decide_eq_true_eq, not_and]
            intro _
            rcases List.mem_cons.mp member with rfl | member
            · exact Ne.symm same
            · exact ne_of_gt (lt_of_lt_of_le dearer (first other member))
          rw [none, Finset.union_empty]
      · -- a router of another address is passed over
        simp only [closestLoop, mine, if_false]
        rw [closestLoop_of_lowest positive _ _ restSorted later]
        simp [atCost, mine]

/-- Over a sorted list in which every router of the address has a cost, the
loop finds the routers of least cost: the first router of the address sets
it. By induction on the routers passed over before it. -/
theorem closestLoop_eq_closestSet {rnodes : Finset Nat} :
    ∀ {routers : List CostNode} (closest : Finset Nat) (nextRemote : Int),
      routers.Pairwise (fun a b => a.cost ≤ b.cost) →
      (∀ rnode ∈ routers, rnode.maskBit ∈ rnodes → 0 < rnode.cost) →
      (closestLoop rnodes routers 0 closest nextRemote).1 = closest ∪ closestSet routers rnodes
  | [], closest, _, _, _ => by simp [closestLoop, closestSet, costedRouters]
  | rnode :: rest, closest, nextRemote, sorted, costed => by
      obtain ⟨first, restSorted⟩ := List.pairwise_cons.mp sorted
      by_cases mine : rnode.maskBit ∈ rnodes
      · have positive := costed rnode List.mem_cons_self mine
        simp only [closestLoop, mine, if_true]
        rw [closestLoop_of_lowest positive _ _ restSorted fun other member _ => first other member,
          closestSet_cons first mine positive, Finset.insert_union, Finset.union_insert]
      · simp only [closestLoop, mine, if_false]
        rw [closestLoop_eq_closestSet _ _ restSorted fun other member => costed other (List.mem_cons_of_mem _ member)]
        simp [closestSet, costedRouters, mine]

/-- A recomputed cache holds the routers of least cost, when the list is
sorted and every router of the address has a cost. -/
theorem qdrForwardFindClosestRemotes_closestRemotes {core : CostCore} (ordered : core.Ordered) (addr : RemoteAddress)
    (costed : ∀ rnode ∈ core.routers, rnode.maskBit ∈ addr.rnodes → 0 < rnode.cost) :
    (qdrForwardFindClosestRemotes core addr).closestRemotes = closestSet core.routers addr.rnodes := by
  simp [qdrForwardFindClosestRemotes, closestLoop_eq_closestSet _ _ ordered.sorted costed]

/-- Routers of costs 3, 5 and 5, the address on the second and the third. -/
theorem qdrForwardFindClosestRemotes_two_at_five :
    CostCore.Ordered ⟨[⟨1, 3⟩, ⟨2, 5⟩, ⟨3, 5⟩], 1⟩ ∧
      (∀ rnode ∈ ([⟨1, 3⟩, ⟨2, 5⟩, ⟨3, 5⟩] : List CostNode), rnode.maskBit ∈ ({2, 3} : Finset Nat) → 0 < rnode.cost) ∧
      (qdrForwardFindClosestRemotes ⟨[⟨1, 3⟩, ⟨2, 5⟩, ⟨3, 5⟩], 1⟩ ⟨{2, 3}, 0, ∅, 0⟩).closestRemotes =
        closestSet [⟨1, 3⟩, ⟨2, 5⟩, ⟨3, 5⟩] {2, 3} :=
  have ordered : CostCore.Ordered ⟨[⟨1, 3⟩, ⟨2, 5⟩, ⟨3, 5⟩], 1⟩ := ⟨by decide, by decide⟩
  have costed : ∀ rnode ∈ ([⟨1, 3⟩, ⟨2, 5⟩, ⟨3, 5⟩] : List CostNode), rnode.maskBit ∈ ({2, 3} : Finset Nat) →
      0 < rnode.cost := by decide
  ⟨ordered, costed, qdrForwardFindClosestRemotes_closestRemotes ordered _ costed⟩

/-- Two routers of cost 5 serve the address, and its cache is computed; then
the head router's cost drops to 3. The list is still sorted, so nothing moves
and the epoch stays: the next message is forwarded by the cached pair, though
only the head router now has the least cost. -/
theorem closest_remotes_stale_after_cost_change :
    (costRun (CostCore.init, RemoteAddress.init)
        [.addRouter 1, .addRouter 2, .setCost 1 5, .setCost 2 5, .mapRouter 1, .mapRouter 2, .forward, .setCost 2 3]).map
      (fun state => (state.1.routers, state.2.costEpoch == state.1.costEpoch,
        (closestForForward state.1 state.2).closestRemotes, closestSet state.1.routers state.2.rnodes)) =
      some ([⟨2, 3⟩, ⟨1, 5⟩], true, {1, 2}, {2}) := by
  decide +kernel

end DispatchRouter.Router
