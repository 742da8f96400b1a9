/-
# The node tracker

`node.py`: the routers this router knows of (`RouterNode`), the events that
make it learn of them, refresh and lose them, and the periodic `tick` that
expires neighbors and link states, deletes forgotten routers and recomputes the
topology with the path engine. What it tells the router core goes out as
adapter calls, in order.

A router node is an object: `serial` stands for its identity, so that a node
deleted and learned again is another node. A Python exception ends the event
(`none`). Messages to other routers (`send_lsr`, `send_ra`), logging and the
management agent change nothing here and are left out.
-/

import DispatchRouter.Router.Path

namespace DispatchRouter.Router

open Math

/-- A call of the router adapter into the router core. -/
inductive AdapterCall
  | addRouter (address : String) (maskbit : Nat)
  | delRouter (maskbit : Nat)
  | setLink (maskbit linkId : Nat)
  | removeLink (maskbit : Nat)
  | setNextHop (maskbit nextHopMaskbit : Nat)
  | removeNextHop (maskbit : Nat)
  | setValidOrigins (maskbit : Nat) (origins : List Nat)
  | setCost (maskbit cost : Nat)
  | flushDestinations (maskbit : Nat)
  | setRadius (radius : Nat)
  | mobileSeqAdvanced (maskbit : Nat)
  deriving DecidableEq

/-- `RouterNode`. `nextHopRouter` is the next hop's object and its id. -/
structure RouterNode where
  serial : Nat
  id : String
  version : Option Nat
  routerInstance : Option Nat
  maskbit : Nat
  neighborRefreshTime : Nat
  peerLinkId : Option Nat
  linkState : LinkState
  nextHopRouter : Option (Nat × String)
  cost : Option Nat
  validOrigins : Option (List String)
  mobileAddressSequence : Nat
  needLsRequest : Bool
  needMobileRequest : Bool
  keepAliveCount : Nat
  deriving DecidableEq

/-- `NodeTracker`. `nodesByLinkId` keeps the id of the node a link was set
for; `maskbits` says which mask bits are taken. -/
structure NodeTracker where
  myId : String
  maxRouters : Nat
  linkState : LinkState
  linkStateChanged : Bool
  recomputeTopology : Bool
  lastTopologyChange : Nat
  fluxMode : Bool
  nodes : Dict String RouterNode
  nodesByLinkId : Dict Nat String
  maskbits : List Bool
  nextMaskbit : Option Nat
  neighborMaxAge : Nat
  lsMaxAge : Nat
  fluxInterval : Nat
  nextSerial : Nat

/-! ### Router nodes -/

namespace RouterNode

/-- `set_link_id`: whether the link changed; a new link drops the next hop. -/
def setLinkId (node : RouterNode) (linkId : Nat) : Bool × RouterNode × List AdapterCall :=
  if node.peerLinkId = some linkId then (false, node, [])
  else
    (true, { node with peerLinkId := some linkId, nextHopRouter := none },
      [.setLink node.maskbit linkId, .removeNextHop node.maskbit])

/-- `remove_link`. -/
def removeLink (node : RouterNode) : RouterNode × List AdapterCall :=
  match node.peerLinkId with
  | some _ => ({ node with peerLinkId := none }, [.removeLink node.maskbit])
  | none => (node, [])

/-- `unmap_all_addresses`. -/
def unmapAllAddresses (node : RouterNode) : RouterNode × List AdapterCall :=
  ({ node with mobileAddressSequence := 0 }, [.flushDestinations node.maskbit])

/-- `remove_next_hop`. -/
def removeNextHop (node : RouterNode) : RouterNode × List AdapterCall :=
  match node.nextHopRouter with
  | some _ => ({ node with nextHopRouter := none }, [.removeNextHop node.maskbit])
  | none => (node, [])

/-- `set_next_hop`: a node that is its own next hop is a neighbor and has none;
a next hop of the id already set is not set again. -/
def setNextHop (node nextHop : RouterNode) : RouterNode × List AdapterCall :=
  if node.id = nextHop.id then node.removeNextHop
  else
    match node.nextHopRouter with
    | some (_, id) =>
        if id = nextHop.id then (node, [])
        else ({ node with nextHopRouter := some (nextHop.serial, nextHop.id) },
          [.setNextHop node.maskbit nextHop.maskbit])
    | none =>
        ({ node with nextHopRouter := some (nextHop.serial, nextHop.id) },
          [.setNextHop node.maskbit nextHop.maskbit])

/-- `set_cost`; a cost of `None` cannot be passed to the core. -/
def setCost (node : RouterNode) (cost : Option Nat) : Option (RouterNode × List AdapterCall) :=
  if node.cost = cost then some (node, [])
  else cost.map fun value => ({ node with cost := cost }, [.setCost node.maskbit value])

/-- `update_instance`: whether the router restarted. -/
def updateInstance (node : RouterNode) (routerInstance version : Option Nat) :
    Bool × RouterNode × List AdapterCall :=
  match routerInstance, node.routerInstance with
  | none, _ => (false, node, [])
  | some _, none => (false, { node with routerInstance := routerInstance }, [])
  | some new, some old =>
      if old = new then (false, node, [])
      else
        let restarted := { node with
          routerInstance := routerInstance
          version := version
          linkState := node.linkState.delAllPeers }
        let unmapped := restarted.unmapAllAddresses
        (true, unmapped.1, unmapped.2)

/-- `link_state_requested`: asked for and reachable; the request is then taken. -/
def linkStateRequested (node : RouterNode) : Bool × RouterNode :=
  if node.needLsRequest && (node.peerLinkId.isSome || node.nextHopRouter.isSome) then
    (true, { node with needLsRequest := false })
  else (false, node)

/-- `mobile_address_requested`. -/
def mobileAddressRequested (node : RouterNode) : Bool × RouterNode :=
  if node.needMobileRequest && (node.peerLinkId.isSome || node.nextHopRouter.isSome) then
    (true, { node with needMobileRequest := false })
  else (false, node)

/-- `is_neighbor`. -/
def isNeighbor (node : RouterNode) : Bool :=
  node.peerLinkId.isSome

end RouterNode

/-! ### Mask bits -/

namespace NodeTracker

/-- `_allocate_maskbit`: the next free bit, and the lowest free one after it
as the next; none left raises "Exceeded Maximum Router Count". -/
def allocateMaskbit (tracker : NodeTracker) : Option (Nat × NodeTracker) :=
  tracker.nextMaskbit.map fun result =>
    let maskbits := tracker.maskbits.set result true
    let next := (List.range' (result + 1) (tracker.maxRouters - (result + 1))).find?
      fun n => maskbits[n]? = some false
    (result, { tracker with maskbits := maskbits, nextMaskbit := next })

/-- `_free_maskbit`. -/
def freeMaskbit (tracker : NodeTracker) (i : Nat) : NodeTracker :=
  let maskbits := tracker.maskbits.set i false
  match tracker.nextMaskbit with
  | some next => if i < next then { tracker with maskbits, nextMaskbit := some i }
      else { tracker with maskbits }
  | none => { tracker with maskbits, nextMaskbit := some i }

/-- `RouterNode(self, node_id, version, instance)`, stored under its id. -/
def createNode (tracker : NodeTracker) (id : String) (version routerInstance : Option Nat) :
    Option (NodeTracker × List AdapterCall) :=
  (tracker.allocateMaskbit).map fun (maskbit, tracker) =>
    let node : RouterNode :=
      { serial := tracker.nextSerial, id, version, routerInstance, maskbit
        neighborRefreshTime := 0, peerLinkId := none, linkState := ⟨id, 0, Dict.empty, 0⟩
        nextHopRouter := none, cost := none, validOrigins := none, mobileAddressSequence := 0
        needLsRequest := true, needMobileRequest := false, keepAliveCount := 0 }
    ({ tracker with nodes := tracker.nodes.set id node, nextSerial := tracker.nextSerial + 1 },
      [.addRouter ("amqp:/_topo/0/" ++ id ++ "/qdrouter") maskbit])

/-- The node of an id, created if it is not known. -/
def ensureNode (tracker : NodeTracker) (id : String) (version routerInstance : Option Nat) :
    Option (NodeTracker × List AdapterCall × RouterNode) :=
  let created := if id ∈ tracker.nodes.keys then some (tracker, [])
    else tracker.createNode id version routerInstance
  created.bind fun (tracker, calls) => (tracker.nodes.get? id).map fun node => (tracker, calls, node)

/-- The node stored back under its id. -/
def putNode (tracker : NodeTracker) (node : RouterNode) : NodeTracker :=
  { tracker with nodes := tracker.nodes.set node.id node }

/-! ### Events -/

/-- `neighbor_refresh`: the hello protocol confirmed the neighbor over `linkId`. -/
def neighborRefresh (tracker : NodeTracker) (id : String) (version routerInstance : Option Nat)
    (linkId cost now : Nat) : Option (NodeTracker × List AdapterCall) :=
  (tracker.ensureNode id version routerInstance).map fun (tracker, created, node) =>
    let node := if node.version.isNone then { node with version } else node
    let (changed, node, linked) := node.setLinkId linkId
    let tracker :=
      if changed then
        let (added, linkState) := tracker.linkState.addPeer id cost
        { tracker with
          nodesByLinkId := tracker.nodesByLinkId.set linkId id
          linkState
          linkStateChanged := tracker.linkStateChanged || added }
      else tracker
    let node := if changed then { node with needLsRequest := true } else node
    let node := { node with neighborRefreshTime := now }
    let (restarted, node, unmapped) := node.updateInstance routerInstance version
    let node := if restarted then { node with needLsRequest := true } else node
    let tracker := if restarted then { tracker with recomputeTopology := true } else tracker
    (tracker.putNode node, created ++ linked ++ unmapped)

/-- `link_to_node_id` and `link_lost`: the neighbor over `linkId` is lost. -/
def linkLost (tracker : NodeTracker) (linkId : Nat) : Option (NodeTracker × List AdapterCall) :=
  match tracker.nodesByLinkId.get? linkId with
  | none => some (tracker, [])
  | some id =>
      -- `if node_id:` treats the empty id as no node
      if id.isEmpty then some (tracker, [])
      else
        let tracker := { tracker with nodesByLinkId := tracker.nodesByLinkId.erase linkId }
        (tracker.nodes.get? id).map fun node =>
          let (node, removed) := node.removeLink
          let (deleted, linkState) := tracker.linkState.delPeer id
          ({ tracker.putNode node with
              linkState
              linkStateChanged := tracker.linkStateChanged || deleted }, removed)

/-- `ra_received`: a router advertisement from `id`. -/
def raReceived (tracker : NodeTracker) (id : String) (version : Option Nat) (_lsSeq mobileSeq : Nat)
    (routerInstance : Option Nat) (now : Nat) : Option (NodeTracker × List AdapterCall) :=
  (tracker.ensureNode id version routerInstance).map fun (tracker, created, node) =>
    let node := if node.version.isNone then { node with version } else node
    let (restarted, node, unmapped) := node.updateInstance routerInstance version
    let node := if restarted then { node with needLsRequest := true } else node
    let tracker := if restarted then { tracker with recomputeTopology := true } else tracker
    let node := { node with linkState := { node.linkState with lastSeen := now } }
    let node := if node.mobileAddressSequence < mobileSeq then { node with needMobileRequest := true }
      else node
    (tracker.putNode node, created ++ unmapped)

/-- `router_learned`. -/
def routerLearned (tracker : NodeTracker) (id : String) (version : Option Nat) :
    Option (NodeTracker × List AdapterCall) :=
  if id ∉ tracker.nodes.keys ∧ id ≠ tracker.myId then tracker.createNode id version none
  else some (tracker, [])

/-- `link_state_received`: a newer link state of `id` replaces the stored one,
and the peers it names that are not known are learned. -/
def linkStateReceived (tracker : NodeTracker) (id : String) (version : Option Nat)
    (linkState : LinkState) (routerInstance : Option Nat) (now : Nat) :
    Option (NodeTracker × List AdapterCall) :=
  (tracker.ensureNode id version routerInstance).bind fun (tracker, created, node) =>
    let node := if node.version.isNone then { node with version } else node
    if node.linkState.lsSeq < linkState.lsSeq then
      let node := { node with linkState := { linkState with lastSeen := now } }
      let tracker := { tracker.putNode node with recomputeTopology := true }
      (linkState.peers.keys.foldlM
        (fun (state : NodeTracker × List AdapterCall) peer =>
          if peer ∉ state.1.nodes.keys then
            (state.1.routerLearned peer none).map fun (tracker, learned) => (tracker, state.2 ++ learned)
          else some state)
        (tracker, created))
    else some (tracker.putNode node, created)

/-! ### The tick -/

/-- One round of `_do_expirations`, for the node of `id`. -/
def expireNode (now : Nat) (state : NodeTracker × List AdapterCall) (id : String) :
    Option (NodeTracker × List AdapterCall) :=
  let (tracker, calls) := state
  (tracker.nodes.get? id).map fun node =>
    -- a neighbor not refreshed in time loses its link
    let (node, tracker, lost) :=
      if node.isNeighbor && decide (tracker.neighborMaxAge < now - node.neighborRefreshTime) then
        let (node, removed) := node.removeLink
        let (deleted, linkState) := tracker.linkState.delPeer id
        (node, { tracker with linkState, linkStateChanged := tracker.linkStateChanged || deleted },
          removed)
      else (node, tracker, [])
    -- a link state too old is cleared
    let (node, tracker) :=
      if decide (tracker.lsMaxAge < now - node.linkState.lastSeen) && node.linkState.hasPeers then
        ({ node with linkState := node.linkState.delAllPeers },
          { tracker with recomputeTopology := true })
      else (node, tracker)
    let tracker := tracker.putNode node
    -- a node no link state names is deleted after its third such round
    if !node.linkState.hasPeers && !node.isNeighbor then
      let named := tracker.nodes.entries.any fun other => other.1 ≠ id && other.2.linkState.isPeer id
      if named then (tracker, calls ++ lost)
      else
        let node := { node with keepAliveCount := node.keepAliveCount + 1 }
        if 2 < node.keepAliveCount then
          let (node, unmapped) := node.unmapAllAddresses
          let tracker := (tracker.putNode node).freeMaskbit node.maskbit
          ({ tracker with nodes := tracker.nodes.erase id },
            calls ++ lost ++ unmapped ++ [.delRouter node.maskbit])
        else (tracker.putNode node, calls ++ lost)
    else (tracker, calls ++ lost)

/-- `_do_expirations`: every node known at its start, in order. -/
def doExpirations (tracker : NodeTracker) (now : Nat) : Option (NodeTracker × List AdapterCall) :=
  tracker.nodes.keys.foldlM (expireNode now) (tracker, [])

/-- `set_valid_origins`: the origins' mask bits go to the core. -/
def setValidOrigins (tracker : NodeTracker) (node : RouterNode) (origins : List String) :
    Option (RouterNode × List AdapterCall) :=
  if node.validOrigins = some origins then some (node, [])
  else
    (origins.mapM fun origin => (tracker.nodes.get? origin).map (·.maskbit)).map fun maskbits =>
      ({ node with validOrigins := some origins }, [.setValidOrigins node.maskbit maskbits])

/-- One round of the loop over `next_hops.items()`. -/
def applyRoute (routes : Routes) (state : NodeTracker × List AdapterCall) (hop : String × String) :
    Option (NodeTracker × List AdapterCall) :=
  let (tracker, calls) := state
  match tracker.nodes.get? hop.1, tracker.nodes.get? hop.2, routes.validOrigins.get? hop.1,
      routes.cost.get? hop.1 with
  | some node, some nextHop, some origins, some cost =>
      let (node, routed) := node.setNextHop nextHop
      (tracker.setValidOrigins node origins).bind fun (node, validated) =>
        (node.setCost cost).map fun (node, costed) =>
          (tracker.putNode node, calls ++ routed ++ validated ++ costed)
  | _, _, _, _ => none

/-- The recomputation in `tick`: the path engine over the collected link
states, then the radius and each reachable node's next hop, origins and cost. -/
def recompute (tracker : NodeTracker) : Option (NodeTracker × List AdapterCall) :=
  let collection := tracker.nodes.entries.foldl (fun collection entry =>
    collection.set entry.1 entry.2.linkState) (Dict.empty.set tracker.myId tracker.linkState)
  (calculateRoutes tracker.myId collection).bind fun routes =>
    routes.nextHops.entries.foldlM (applyRoute routes) (tracker, [.setRadius routes.radius])

/-- The requests loop at the end of `tick`. -/
def requestRound (state : NodeTracker × List AdapterCall) (id : String) : NodeTracker × List AdapterCall :=
  let (tracker, calls) := state
  match tracker.nodes.get? id with
  | none => state
  | some node =>
      let (_, node) := node.linkStateRequested
      let (mobile, node) := node.mobileAddressRequested
      (tracker.putNode node, if mobile then calls ++ [.mobileSeqAdvanced node.maskbit] else calls)

/-- `tick`. -/
def tick (tracker : NodeTracker) (now : Nat) : Option (NodeTracker × List AdapterCall) :=
  (tracker.doExpirations now).bind fun (tracker, expired) =>
    let tracker :=
      if tracker.linkStateChanged || tracker.recomputeTopology then
        { tracker with lastTopologyChange := now, fluxMode := true }
      else tracker
    let tracker :=
      if tracker.linkStateChanged then
        { tracker with
          linkStateChanged := false
          linkState := tracker.linkState.bumpSequence
          recomputeTopology := true }
      else tracker
    let recomputed :=
      if tracker.recomputeTopology then
        (({ tracker with recomputeTopology := false } : NodeTracker).recompute)
      else some (tracker, [])
    recomputed.map fun (tracker, routed) =>
      let (tracker, requested) := tracker.nodes.keys.foldl requestRound (tracker, [])
      (tracker, expired ++ routed ++ requested)

end NodeTracker

/-! ### Runs -/

/-- An event the node tracker handles. -/
inductive TrackerEvent
  | neighborRefresh (id : String) (version routerInstance : Option Nat) (linkId cost now : Nat)
  | linkLost (linkId : Nat)
  | raReceived (id : String) (version : Option Nat) (lsSeq mobileSeq : Nat)
      (routerInstance : Option Nat) (now : Nat)
  | linkStateReceived (id : String) (version : Option Nat) (linkState : LinkState)
      (routerInstance : Option Nat) (now : Nat)
  | routerLearned (id : String) (version : Option Nat)
  | tick (now : Nat)

/-- The tracker's handling of one event. -/
def NodeTracker.handle (tracker : NodeTracker) : TrackerEvent → Option (NodeTracker × List AdapterCall)
  | .neighborRefresh id version routerInstance linkId cost now =>
      tracker.neighborRefresh id version routerInstance linkId cost now
  | .linkLost linkId => tracker.linkLost linkId
  | .raReceived id version lsSeq mobileSeq routerInstance now =>
      tracker.raReceived id version lsSeq mobileSeq routerInstance now
  | .linkStateReceived id version linkState routerInstance now =>
      tracker.linkStateReceived id version linkState routerInstance now
  | .routerLearned id version => tracker.routerLearned id version
  | .tick now => tracker.tick now

/-- Events one after another, with the adapter calls they make; `none` once one
raises. -/
def NodeTracker.run (tracker : NodeTracker) : List TrackerEvent → Option (NodeTracker × List AdapterCall)
  | [] => some (tracker, [])
  | event :: events =>
      (tracker.handle event).bind fun (tracker, calls) =>
        (tracker.run events).map fun (tracker, later) => (tracker, calls ++ later)

/-- Every node's next hop is none or a node still known. -/
def NodeTracker.NextHopsLive (tracker : NodeTracker) : Prop :=
  ∀ entry ∈ tracker.nodes.entries, ∀ hop ∈ entry.2.nextHopRouter,
    ∃ other ∈ tracker.nodes.entries, other.2.serial = hop.1

instance (tracker : NodeTracker) : Decidable tracker.NextHopsLive :=
  inferInstanceAs (Decidable (∀ entry ∈ tracker.nodes.entries, ∀ hop ∈ entry.2.nextHopRouter,
    ∃ other ∈ tracker.nodes.entries, other.2.serial = hop.1))

/-- `NodeTracker(container, max_routers)`: no node known, bit 0 for this router. -/
def NodeTracker.init (myId : String) (maxRouters neighborMaxAge lsMaxAge raIntervalFlux : Nat) :
    NodeTracker where
  myId := myId
  maxRouters := maxRouters
  linkState := ⟨myId, 0, Dict.empty, 0⟩
  linkStateChanged := false
  recomputeTopology := false
  lastTopologyChange := 0
  fluxMode := false
  nodes := Dict.empty
  nodesByLinkId := Dict.empty
  maskbits := (List.replicate maxRouters false).set 0 true
  nextMaskbit := some 1
  neighborMaxAge := neighborMaxAge
  lsMaxAge := lsMaxAge
  fluxInterval := raIntervalFlux * 2
  nextSerial := 0

end DispatchRouter.Router
