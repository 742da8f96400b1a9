/-
# The path engine

`path.py`: from the link states a router has collected it computes a
shortest-path tree rooted at itself (Dijkstra's algorithm over `NodeSet`, a
list kept sorted by cost and then by id), the next hop towards every router it
reaches, the radius of the topology, and for each destination the origins whose
own trees reach it through this router.

Dictionaries are Python's, in insertion order (`Math.Dict`). A router id is a
string. A Python exception (a missing key, `None` in arithmetic) and a loop
that would not end are `none`; each `while` loop is given as many rounds as it
can take, which is the size of what it consumes.
-/

import DispatchRouter.Math.Dict

namespace DispatchRouter.Router

open Math

/-- `LinkState` (`data.py`): the reporting router, its sequence number, its
peers with the cost of the link to each, and when it was last seen. -/
structure LinkState where
  id : String
  lsSeq : Nat
  peers : Dict String Nat
  lastSeen : Nat
  deriving DecidableEq

namespace LinkState

/-- `add_peer`: whether the peer was new. -/
def addPeer (ls : LinkState) (peer : String) (cost : Nat) : Bool × LinkState :=
  if ls.peers.contains peer then (false, ls) else (true, { ls with peers := ls.peers.set peer cost })

/-- `del_peer`: whether the peer was there. -/
def delPeer (ls : LinkState) (peer : String) : Bool × LinkState :=
  if ls.peers.contains peer then (true, { ls with peers := ls.peers.erase peer }) else (false, ls)

/-- `del_all_peers`. -/
def delAllPeers (ls : LinkState) : LinkState :=
  { ls with peers := Dict.empty, lsSeq := 0 }

/-- `has_peers`. -/
def hasPeers (ls : LinkState) : Bool :=
  0 < ls.peers.size

/-- `is_peer`. -/
def isPeer (ls : LinkState) (peer : String) : Bool :=
  ls.peers.contains peer

/-- `bump_sequence`. -/
def bumpSequence (ls : LinkState) : LinkState :=
  { ls with lsSeq := ls.lsSeq + 1 }

end LinkState

/-! ### `NodeSet` -/

/-- `NodeSet`: ids with their costs, `none` for not reached yet, in increasing
cost and equal costs by increasing id. -/
structure NodeSet where
  nodes : List (String × Option Nat)
  deriving DecidableEq

namespace NodeSet

/-- `NodeSet(cost_map)`: the root, of cost 0, in front; the others in order. -/
def init (costMap : Dict String (Option Nat)) : NodeSet :=
  ⟨costMap.entries.foldl
    (fun nodes entry => if entry.2 = some 0 then entry :: nodes else nodes ++ [entry]) []⟩

/-- `contains`. -/
def contains (set : NodeSet) (id : String) : Bool :=
  set.nodes.any (·.1 == id)

/-- `lowest_cost`: the first id, taken out; `pop(0)` of an empty list raises. -/
def lowestCost (set : NodeSet) : Option (String × NodeSet) :=
  match set.nodes with
  | [] => none
  | (id, _) :: rest => some (id, ⟨rest⟩)

/-- Where `set_cost` puts an id of a new cost: before the first node that is
unreached, dearer, or as dear with a larger id. -/
def goesBefore (id : String) (newCost : Nat) (node : String × Option Nat) : Bool :=
  match node.2 with
  | none => true
  | some cost => decide (newCost < cost) || (newCost == cost && decide (id < node.1))

/-- `set_cost`: the id taken out and put back in its place for its new cost;
`pop` at the end of the list raises when the id is not there. -/
def setCost (set : NodeSet) (id : String) (newCost : Nat) : Option NodeSet :=
  if set.contains id then
    let rest := set.nodes.eraseP (·.1 == id)
    some ⟨rest.insertIdx (rest.findIdx (goesBefore id newCost)) (id, some newCost)⟩
  else none

end NodeSet

/-! ### Shortest-path trees -/

/-- `_calculate_tree_from_root`'s copy of the collection: each router's peers,
and a link of cost 1 back from every peer that has no link state of its own. -/
def linkStates (collection : Dict String LinkState) : Dict String (Dict String Nat) :=
  collection.entries.foldl
    (fun states entry =>
      entry.2.peers.keys.foldl
        (fun states peer =>
          if states.contains peer then states else states.set peer (Dict.empty.set entry.1 1))
        (states.set entry.1 entry.2.peers))
    Dict.empty

/-- What Dijkstra's algorithm keeps: hop counts, costs and predecessors, `none`
for infinite or undefined. -/
structure Tree where
  hops : Dict String (Option Nat)
  cost : Dict String (Option Nat)
  prev : Dict String (Option String)
  deriving DecidableEq

/-- The body of the loop over `link_states[u].items()`: the edge from `u`, at
cost `costU` and `hopsU` hops, to `v` relaxed. -/
def relax (u : String) (costU : Nat) (hopsU : Option Nat) (state : Tree × NodeSet)
    (edge : String × Nat) : Option (Tree × NodeSet) :=
  let (tree, unresolved) := state
  let (v, vCost) := edge
  if unresolved.contains v then
    let alt := costU + vCost
    match tree.cost.get? v with
    | none => none
    | some costV =>
        let shorter := match costV with
          | none => true
          | some c => decide (alt < c)
        if shorter then
          match hopsU, unresolved.setCost v alt with
          | some hops, some unresolved' =>
              some ({ hops := tree.hops.set v (some (hops + 1))
                      cost := tree.cost.set v (some alt)
                      prev := tree.prev.set v (some u) }, unresolved')
          | _, _ => none
        else some (tree, unresolved)
  else some (tree, unresolved)

/-- The main loop: take the cheapest unresolved node, stop at one not reached,
and relax its edges. Each round takes one node out, so `fuel` rounds are the
nodes plus the last test. -/
def dijkstraLoop (states : Dict String (Dict String Nat)) : Nat → Tree → NodeSet → Option Tree
  | 0, _, _ => none
  | fuel + 1, tree, unresolved =>
      match unresolved.lowestCost with
      | none => some tree
      | some (u, unresolved) =>
          match tree.cost.get? u with
          | none => none
          | some none => some tree
          | some (some costU) =>
              match tree.hops.get? u, states.get? u with
              | some hopsU, some edges =>
                  match edges.entries.foldlM (relax u costU hopsU) (tree, unresolved) with
                  | some (tree, unresolved) => dijkstraLoop states fuel tree unresolved
                  | none => none
              | _, _ => none

/-- Python's truth of a predecessor: `None` and the empty string are false. -/
def truthy : Option String → Bool
  | none => false
  | some id => !id.isEmpty

/-- The loop removing the nodes without a predecessor (`if not val`) from the
three maps; `pop` of a missing key raises. -/
def dropUnreached (tree : Tree) : List (String × Option String) → Option Tree
  | [] => some tree
  | (u, val) :: rest =>
      if truthy val then dropUnreached tree rest
      else if u ∈ tree.hops.keys ∧ u ∈ tree.cost.keys then
        dropUnreached { prev := tree.prev.erase u, hops := tree.hops.erase u, cost := tree.cost.erase u } rest
      else none

/-- `_calculate_tree_from_root`: predecessors and costs of the reachable remote
nodes, and their hop counts. -/
def calculateTreeFromRoot (root : String) (collection : Dict String LinkState) : Option Tree :=
  let states := linkStates collection
  let unknown : Dict String (Option Nat) := states.keys.foldl (fun d id => d.set id none) Dict.empty
  let undefined : Dict String (Option String) :=
    states.keys.foldl (fun d id => d.set id none) Dict.empty
  let start : Tree :=
    { hops := unknown.set root (some 0), cost := unknown.set root (some 0), prev := undefined }
  match dijkstraLoop states (start.cost.size + 1) start (NodeSet.init start.cost) with
  | some tree => dropUnreached tree tree.prev.entries
  | none => none

/-! ### Routes -/

/-- The inner walk of `calculate_routes`: from `u`, whose predecessor is `v`,
back along `prev` to the root; the nodes met that are still in `nodes` join
`path` and leave `nodes`. Gives the node whose predecessor is the root. -/
def walkToRoot (prev : Dict String (Option String)) (root : String) :
    Nat → String → Option String → List String → List String →
      Option (String × List String × List String)
  | 0, _, _, _, _ => none
  | fuel + 1, u, v, path, nodes =>
      if v = some root then some (u, path, nodes)
      else
        match v with
        | none => none
        | some v =>
            let joined := if v ∈ nodes then (path ++ [v], nodes.erase v) else (path, nodes)
            match prev.get? v with
            | none => none
            | some next => walkToRoot prev root fuel v next joined.1 joined.2

/-- The outer loop of `calculate_routes`: each destination left in `nodes` and
the nodes on its way back are given the first hop of that way. -/
def nextHopsLoop (prev : Dict String (Option String)) (root : String) :
    Nat → List String → Dict String String → Option (Dict String String)
  | 0, _, _ => none
  | fuel + 1, nodes, nextHops =>
      match nodes with
      | [] => some nextHops
      | u :: _ =>
          match prev.get? u with
          | none => none
          | some v =>
              match walkToRoot prev root (prev.size + 1) u v [u] (nodes.erase u) with
              | some (first, path, nodes) =>
                  nextHopsLoop prev root fuel nodes (path.foldl (fun hops w => hops.set w first) nextHops)
              | none => none

/-- The inner walk of `_calculate_valid_origins`: as `walkToRoot`, except that
`me` itself does not join the path, and when the walk meets `me` every node of
the path so far is given `root` as a valid origin. -/
def walkOrigins (prev : Dict String (Option String)) (me root : String) :
    Nat → Option String → List String → List String → Dict String (List String) →
      Option (List String × Dict String (List String))
  | 0, _, _, _, _ => none
  | fuel + 1, v, path, nodes, origins =>
      if v = some root then some (nodes, origins)
      else
        match v with
        | none => none
        | some v =>
            let joined :=
              if v ∈ nodes then (if v ≠ me then path ++ [v] else path, nodes.erase v)
              else (path, nodes)
            let marked : Option (Dict String (List String)) :=
              if v = me then
                joined.1.foldlM
                  (fun origins dest => (origins.get? dest).map fun list => origins.set dest (list ++ [root]))
                  origins
              else some origins
            match marked, prev.get? v with
            | some origins, some next => walkOrigins prev me root fuel next joined.1 joined.2 origins
            | _, _ => none

/-- The `while len(nodes) > 0` loop of `_calculate_valid_origins` for one root. -/
def originsLoop (prev : Dict String (Option String)) (me root : String) :
    Nat → List String → Dict String (List String) → Option (Dict String (List String))
  | 0, _, _ => none
  | fuel + 1, nodes, origins =>
      match nodes with
      | [] => some origins
      | u :: _ =>
          match prev.get? u with
          | none => none
          | some v =>
              match walkOrigins prev me root (prev.size + 1) v [u] (nodes.erase u) origins with
              | some (nodes, origins) => originsLoop prev me root fuel nodes origins
              | none => none

/-- `_calculate_valid_origins`: for each remote node of `nodeset`, the roots
whose trees reach it through `me`. -/
def calculateValidOrigins (me : String) (nodeset : List String) (collection : Dict String LinkState) :
    Option (Dict String (List String)) :=
  let start : Dict String (List String) :=
    nodeset.foldl (fun origins node => if node ≠ me then origins.set node [] else origins) Dict.empty
  start.keys.foldlM
    (fun origins root =>
      match calculateTreeFromRoot root collection with
      | some tree => originsLoop tree.prev me root (tree.prev.size + 1) tree.prev.keys origins
      | none => none)
    start

/-- What `calculate_routes` returns. -/
structure Routes where
  nextHops : Dict String String
  cost : Dict String (Option Nat)
  validOrigins : Dict String (List String)
  radius : Nat
  deriving DecidableEq

/-- `max(hops.values()) if len(hops) > 0 else 0`; `None` among the values raises. -/
def radiusOf (hops : Dict String (Option Nat)) : Option Nat :=
  hops.entries.foldlM
    (fun best entry => entry.2.map (max best)) 0

/-- `calculate_routes` of the router `me`. -/
def calculateRoutes (me : String) (collection : Dict String LinkState) : Option Routes := do
  let tree ← calculateTreeFromRoot me collection
  let radius ← radiusOf tree.hops
  let nextHops ← nextHopsLoop tree.prev me (tree.prev.size + 1) tree.prev.keys Dict.empty
  let validOrigins ← calculateValidOrigins me tree.prev.keys collection
  pure ⟨nextHops, tree.cost, validOrigins, radius⟩

end DispatchRouter.Router
