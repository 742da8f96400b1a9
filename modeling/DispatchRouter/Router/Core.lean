/-
# The router core's table of routers

`route_tables.c`, as far as next hops go: the core keeps a `qdr_node_t` for
each remote router at `routers_by_mask_bit[mask_bit]`, and each node points at
its next hop's node. The node tracker's adapter calls arrive as actions and are
applied in order. `qdr_del_router_CT` frees a node without looking at the nodes
that point at it.

A `qdr_node_t` is known by its address; `nextAddress` is the address of the
next one allocated. Dereferencing a null node crashes the core (`none`).
-/

import DispatchRouter.Router.Node

namespace DispatchRouter.Router

open Math

/-- `qdr_node_t`: its address, its mask bit and the address of its next hop. -/
structure CoreNode where
  address : Nat
  maskBit : Nat
  nextHop : Option Nat
  deriving DecidableEq

/-- `routers_by_mask_bit`. -/
structure RouteTable where
  routersByMaskBit : Nat → Option CoreNode
  nextAddress : Nat

/-- `qd_bitmask_width()`: `QD_BITMASK_BITS`. -/
def bitmaskWidth : Nat := 128

namespace RouteTable

/-- No router, no node allocated yet. -/
def empty : RouteTable := ⟨fun _ => none, 0⟩

/-- `qdr_add_router_CT`: a new node with no next hop, unless the bit is out of
range or in use. -/
def qdrAddRouter (table : RouteTable) (maskbit : Nat) : RouteTable :=
  if maskbit < bitmaskWidth ∧ table.routersByMaskBit maskbit = none then
    { routersByMaskBit := Function.update table.routersByMaskBit maskbit
        (some ⟨table.nextAddress, maskbit, none⟩)
      nextAddress := table.nextAddress + 1 }
  else table

/-- `qdr_del_router_CT`: the node is freed (`qdr_router_node_free`), and no
other node is looked at. -/
def qdrDelRouter (table : RouteTable) (maskbit : Nat) : RouteTable :=
  if maskbit < bitmaskWidth ∧ (table.routersByMaskBit maskbit).isSome then
    { table with routersByMaskBit := Function.update table.routersByMaskBit maskbit none }
  else table

/-- `qdr_set_next_hop_CT`: both routers must be there, and a router is not its
own next hop. -/
def qdrSetNextHop (table : RouteTable) (maskbit nextHopMaskbit : Nat) : RouteTable :=
  if maskbit < bitmaskWidth ∧ nextHopMaskbit < bitmaskWidth ∧ maskbit ≠ nextHopMaskbit then
    match table.routersByMaskBit maskbit, table.routersByMaskBit nextHopMaskbit with
    | some node, some nextHop =>
        { table with
          routersByMaskBit := Function.update table.routersByMaskBit maskbit
            (some { node with nextHop := some nextHop.address }) }
    | _, _ => table
  else table

/-- `qdr_remove_next_hop_CT`, which does not check that the router is there. -/
def qdrRemoveNextHop (table : RouteTable) (maskbit : Nat) : Option RouteTable :=
  if maskbit < bitmaskWidth then
    (table.routersByMaskBit maskbit).map fun node =>
      { table with
        routersByMaskBit := Function.update table.routersByMaskBit maskbit
          (some { node with nextHop := none }) }
  else some table

/-- One adapter call as the core applies it. `qdr_set_cost_CT` returns early on
a maskbit out of range or a cost below 1, and otherwise does not check that the
router is there either; the other calls change no next hop. -/
def apply (table : RouteTable) : AdapterCall → Option RouteTable
  | .addRouter _ maskbit => some (table.qdrAddRouter maskbit)
  | .delRouter maskbit => some (table.qdrDelRouter maskbit)
  | .setNextHop maskbit nextHopMaskbit => some (table.qdrSetNextHop maskbit nextHopMaskbit)
  | .removeNextHop maskbit => table.qdrRemoveNextHop maskbit
  | .setCost maskbit cost =>
      if maskbit < bitmaskWidth ∧ 1 ≤ cost ∧ (table.routersByMaskBit maskbit).isNone then none else some table
  | _ => some table

/-- The calls applied in order. -/
def applyAll (table : RouteTable) : List AdapterCall → Option RouteTable
  | [] => some table
  | call :: calls => (table.apply call).bind fun table => table.applyAll calls

/-- Every node's next hop is null or a node still in the table. -/
def NextHopsLive (table : RouteTable) : Prop :=
  ∀ maskbit < bitmaskWidth, ∀ address ∈ (table.routersByMaskBit maskbit).bind (·.nextHop),
    ∃ other < bitmaskWidth, (table.routersByMaskBit other).map (·.address) = some address

instance (table : RouteTable) : Decidable table.NextHopsLive :=
  inferInstanceAs (Decidable (∀ maskbit < bitmaskWidth,
    ∀ address ∈ (table.routersByMaskBit maskbit).bind (·.nextHop),
      ∃ other < bitmaskWidth, (table.routersByMaskBit other).map (·.address) = some address))

end RouteTable

/-! ### A next hop that outlives its router

Router `A` has neighbor `B`, which links to `C`. The link to `B` is lost, `B`
then reports no peers and `C` reports only `D`. `C` is now unreachable, so no
recompute touches its next hop, while `B`, with no peers and in no link state,
is deleted on the third tick. -/

/-- The events of the run above, at router `A` with the default ages. -/
def staleNextHopEvents : List TrackerEvent :=
  [.neighborRefresh "B" (some 1) (some 1) 1 1 0,
   .linkStateReceived "B" (some 1) ⟨"B", 1, Dict.ofList [("A", 1), ("C", 1)], 0⟩ (some 1) 0,
   .linkStateReceived "C" (some 1) ⟨"C", 1, Dict.ofList [("B", 1)], 0⟩ (some 1) 0,
   .tick 0, .linkLost 1,
   .linkStateReceived "B" (some 1) ⟨"B", 2, Dict.empty, 0⟩ (some 1) 0,
   .linkStateReceived "C" (some 1) ⟨"C", 2, Dict.ofList [("D", 1)], 0⟩ (some 1) 0,
   .tick 0, .tick 0, .tick 0]

theorem stale_next_hop_after_router_deleted :
    ∃ result ∈ (NodeTracker.init "A" 128 3 60 4).run staleNextHopEvents,
      result.1.nodes.keys = ["C", "D"] ∧
      (result.1.nodes.get? "C").bind (·.nextHopRouter) = some (0, "B") ∧
      ¬result.1.NextHopsLive ∧
      ∃ table ∈ RouteTable.empty.applyAll result.2,
        (table.routersByMaskBit 2).bind (·.nextHop) = some 0 ∧
        table.routersByMaskBit 1 = none ∧ ¬table.NextHopsLive := by
  decide +kernel

end DispatchRouter.Router
